import NixHomeServer.Downloader.Jobs

/-! A worker at one job. It waits for the database or for something outside:
files, the probe, the download. -/
namespace NixHomeServer.Downloader

/-- The places where a worker looks whether its job has been cancelled. -/
inductive Check
  | prepared
  | unprobed
  | probed (source : ProbeResponse)
  | sourced (source : ProbeResponse)
  | unduplicated (source : ProbeResponse)
  | gated (source : ProbeResponse)
  | downloaded
  deriving DecidableEq, Repr

/-- How a worker leaves its job. -/
inductive Ending
  | completed | failed | cancelled
  deriving DecidableEq, Repr

def Ending.status : Ending → Status
  | .completed => .completed
  | .failed => .failed
  | .cancelled => .cancelled

/-- What a worker has asked the database. -/
inductive Ask
  | rewriting
  | checking (check : Check)
  | checked (check : Check) (status : Status)
  | sourcing (source : ProbeResponse)
  | looking (source : ProbeResponse)
  | found (source : ProbeResponse) (duplicate : Nat)
  | alerting (alert : Alert)
  | downgrading (source : ProbeResponse)
  | noting (source : ProbeResponse)
  | placing
  | starting
  | finishing
  | splitMarking
  | moveMarking
  | recording (files : Nat)
  | unmarking
  | ending (how : Ending)
  | failing
  deriving DecidableEq, Repr

/-- What a worker waits for outside the database. -/
inductive Act
  | rejected
  | preparing
  | leaving
  | stopping (status : Option Status)
  | probing (killed : Bool)
  | withdrawing (alert : Alert)
  | allocating (source : ProbeResponse)
  | downloading (killed : Bool)
  | interrupting (how : Ending)
  | splitting
  | copying
  | sweeping
  | quitting
  deriving DecidableEq, Repr

inductive Outcome
  | ok
  | error
  | probed (source : ProbeResponse)
  | allocated (collides : Bool)
  | signalled
  | copied (files : Nat)
  deriving DecidableEq, Repr

/-- What a worker knows of its job. -/
structure Task where
  job : Job
  request : CreateJobRequest
  /-- The status to which it has brought the job. -/
  status : Status := .probing
  deriving DecidableEq, Repr

inductive Next
  | ask (task : Task) (ask : Ask)
  | act (task : Task) (act : Act)
  | spent
  deriving DecidableEq, Repr

def Ask.query (t : Task) : Ask → Query
  | .rewriting => .updateRequest t.job.id t.request
  | .checking _ => .getJob t.job.id
  | .checked _ _ => .files t.job.id
  | .sourcing _ => .update t.job.id
  | .looking _ => .completedDownloads t.job.createdBy
  | .found _ duplicate => .files duplicate
  | .alerting alert => .setAlert t.job.id alert
  | .downgrading _ => .updateRequest t.job.id t.request
  | .noting _ => .insert t.job.id
  | .placing => .update t.job.id
  | .starting => .setStatus t.job.id .running
  | .finishing => .setStatus t.job.id .postprocessing
  | .splitMarking => .update t.job.id
  | .moveMarking => .update t.job.id
  | .recording _ => .insert t.job.id
  | .unmarking => .update t.job.id
  | .ending how => .setStatus t.job.id how.status
  | .failing => .setStatus t.job.id .failed

namespace Task

/-- `runJob` up to its first await. -/
def begin (c : Config) (job : Job) : Next :=
  let request := c.normalize job.request
  let t : Task := { job := job, request := request }
  if !c.validateRequest request then .act t .rejected
  else if request ≠ job.request then .ask t .rewriting
  else .act t .preparing

/-- An error that `runJob` does not handle. -/
def fail (stopped : Bool) (t : Task) : Next := if stopped then .act t .quitting else .ask t .failing

/-- Goes on where the job has not been cancelled. -/
def proceed (t : Task) : Check → Next
  | .prepared => .act t (.probing false)
  | .unprobed => .ask t .failing
  | .probed source => .ask t (.sourcing source)
  | .sourced source =>
    if t.request.duplicateConfirmed then .ask t (.checking (.unduplicated source)) else .ask t (.looking source)
  | .unduplicated source => match chapterGateFor t.request source with
    | .singleFile => .ask { t with request := { t.request with splitChapters := some false } } (.downgrading source)
    | .alert => .act t (.withdrawing .chapters)
    | .download => .ask t (.checking (.gated source))
  | .gated source => .act t (.allocating source)
  | .downloaded => .ask t .finishing

/-- `abortIfCancelled`, once it knows the status of the row. -/
def abortIfCancelled (stopped : Bool) (t : Task) (check : Check) (status : Option Status) : Next :=
  if stopped then .act t (.stopping status)
  else if status = some .cancelled then .act t .leaving
  else t.proceed check

def findCompletedDownload (c : Config) (t : Task) (rows : List Job) : Option Job :=
  rows.find? fun row => row.id ≠ t.job.id && row.request.mediaType = t.request.mediaType &&
    c.normalizeDownloadUrl row.request.url = c.normalizeDownloadUrl t.request.url

def record (t : Task) : Nat → Next
  | 0 => .act t .sweeping
  | files + 1 => .ask t (.recording files)

/-- A worker goes on with what the database has answered. -/
def answered (c : Config) (stopped : Bool) (t : Task) : Ask → Reply → Next
  | .failing, _ => .spent
  | _, .failed => t.fail stopped
  | .rewriting, _ => .act t .preparing
  | .checking check, .row (some row) => .ask t (.checked check row.status)
  | .checking check, _ => t.abortIfCancelled stopped check none
  | .checked check status, _ => t.abortIfCancelled stopped check (some status)
  | .sourcing source, _ => .ask t (.checking (.sourced source))
  | .looking source, .rows rows => match t.findCompletedDownload c rows with
    | some duplicate => .ask t (.found source duplicate.id)
    | none => .ask t (.checking (.unduplicated source))
  | .looking source, _ => .ask t (.checking (.unduplicated source))
  | .found _ duplicate, _ => .act t (.withdrawing (.duplicate duplicate))
  | .alerting _, _ => .spent
  | .downgrading source, _ => .ask t (.noting source)
  | .noting source, _ => .ask t (.checking (.gated source))
  | .placing, _ => .ask t .starting
  | .starting, _ =>
    let t := { t with status := .running }
    if stopped then .act t (.interrupting .failed) else .act t (.downloading false)
  | .finishing, _ =>
    let t := { t with status := .postprocessing }
    if t.request.splits && t.request.mediaType = .audio then .ask t .splitMarking else .ask t .moveMarking
  | .splitMarking, _ => .act t .splitting
  | .moveMarking, _ => .act t .copying
  | .recording files, _ => t.record files
  | .unmarking, _ => .ask t (.ending .completed)
  | .ending _, _ => .spent

/-- A worker goes on with what has come of it outside. -/
def happened (stopped : Bool) (t : Task) : Act → Outcome → Next
  | .rejected, _ => t.fail stopped
  | .quitting, _ => .ask t .failing
  | .probing _, .probed source => .ask t (.checking (.probed source))
  | .probing _, _ => .ask t (.checking .unprobed)
  | .downloading _, .ok => .ask t (.checking .downloaded)
  | .downloading _, .signalled => .act t (.interrupting (if stopped then .failed else .cancelled))
  | .downloading _, _ => if stopped then .act t (.interrupting .failed) else t.fail stopped
  | _, .error => t.fail stopped
  | .preparing, _ => .ask t (.checking .prepared)
  | .leaving, _ => .spent
  | .stopping (some status), _ => if status.terminal then .spent else .ask t (.ending .failed)
  | .stopping none, _ => .spent
  | .withdrawing alert, _ => .ask t (.alerting alert)
  | .allocating _, .allocated true =>
    if !t.request.includeChannel && !t.request.outputFolderCollisionConfirmed then
      .act t (.withdrawing .folderCollision)
    else .ask t .placing
  | .allocating _, _ => .ask t .placing
  | .interrupting how, _ => .ask t (.ending how)
  | .splitting, _ => .ask t .moveMarking
  | .copying, .copied files => t.record files
  | .copying, _ => t.record 0
  | .sweeping, _ => .ask t .unmarking

end Task

end NixHomeServer.Downloader
