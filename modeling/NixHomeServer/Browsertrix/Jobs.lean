import NixHomeServer.Library.Table

/-! The archive queue of the downloader: job rows with their runtime documents,
publication intents and catalogue rows, and the transactions on them. -/
namespace NixHomeServer.Browsertrix

open NixHomeServer.Library

/-- `partly` is the status `partial`. -/
inductive JobStatus
  | queued | starting | running | cancelling | completed | failed | cancelled | paused | partly | packaging
  deriving DecidableEq, Repr

/-- The kind of `Operation`, as `$.operation.kind` gives it. -/
inductive Operation
  | capture | sample | exportArchive | verify | repair | importArchive | profileImport | reconcile
  deriving DecidableEq, Repr

/-- `discard` is the control that `request_cancel` leaves. -/
inductive Control
  | pause | stop | discard
  deriving DecidableEq, Repr

inductive StopReason
  | pause | stopAndSave | discard | workerRestart | timeLimit | byteLimit | pageLimit | diskReserve
  | interrupted | rateLimit | pageFailures
  deriving DecidableEq, Repr

structure CreateJobRequest where
  url : String
  pageLimit : Nat := 100
  timeLimitMinutes : Nat := 30
  sizeLimitBytes : Option Nat := none
  deriving DecidableEq, Repr

structure JobRuntime where
  archiveId : Option Nat := none
  stopReason : Option StopReason := none
  bytesStored : Nat := 0
  warcBytes : Nat := 0
  canResume : Bool := false
  runtimeSeconds : Nat := 0
  attempt : Nat := 0
  coverage : Option Nat := none
  operation : Operation := .capture
  control : Option Control := none
  resumeConfig : Option String := none
  attemptDeadline : Option Nat := none
  deriving DecidableEq, Repr

/-- A row of `jobs`; the last field is a member of the stored document alone, and
`JobRuntime` does not carry it. -/
structure Job where
  createdAt : Nat
  createdBy : String
  status : JobStatus
  request : CreateJobRequest
  runtime : JobRuntime := {}
  discardCleanupPending : Bool := false
  deriving DecidableEq, Repr

structure ResumeOptions where
  additionalPages : Nat := 0
  additionalMinutes : Nat := 0
  additionalBytes : Nat := 0
  deriving DecidableEq, Repr

/-- The part of an archive's document that requests and the worker read or write. -/
structure SelectorRule where
  selector : String := ""
  action : String := "hide"
  urlPrefix : Option String := none
  deriving DecidableEq, Repr

structure VerificationCheck where
  name : String
  status : String
  details : String
  deriving DecidableEq, Repr

structure Verification where
  valid : Bool
  checkedAt : Nat
  checks : List VerificationCheck
  warnings : List String := []
  deriving DecidableEq, Repr

structure Archive where
  createdBy : String
  archiveFile : String
  archiveBytes : Nat
  sha256 : String
  visibility : String := "shared"
  title : String := ""
  collection : String := ""
  notes : String := ""
  favorite : Bool := false
  tags : List String := []
  cleanRules : List SelectorRule := []
  trashed : Bool := false
  pageCount : Nat := 0
  resourceCount : Nat := 0
  verification : Option Verification := none
  updatedAt : Nat := 0
  deriving DecidableEq, Repr

structure ArchiveReport where
  sha256 : String
  pages : List String := []
  resources : List String := []
  deriving DecidableEq, Repr

inductive Completed
  | pending | finalized | invalidated
  deriving DecidableEq, Repr

/-- A row of `publication_intents`, under the id of its archive. -/
structure PublicationIntent where
  archive : Archive
  report : ArchiveReport
  source : String
  jobId : Option Nat
  finalStatus : JobStatus
  coverage : List String := []
  completed : Completed := .pending
  deriving DecidableEq, Repr

/-- A row of `archives` with its rows of `archive_pages`, `archive_resources` and `archive_coverage`. -/
structure ArchiveRow where
  owner : String
  sha256 : String
  document : Archive
  pages : List String
  resources : List String
  coverage : List String
  deriving DecidableEq, Repr

structure Recipe where
  owner : String
  request : CreateJobRequest
  deriving DecidableEq, Repr

structure Schedule where
  owner : String
  recipeId : Nat
  enabled : Bool
  intervalMinutes : Option Nat
  nextRunAt : Nat
  lastRunAt : Option Nat := none
  lastJobId : Option Nat := none
  lastError : Option String := none
  deriving DecidableEq, Repr

structure Db where
  jobs : Table Job := .empty
  intents : Table PublicationIntent := .empty
  archives : Nat → Option ArchiveRow := fun _ => none
  recipes : Table Recipe := .empty
  schedules : Table Schedule := .empty

def JobStatus.active : JobStatus → Bool
  | .queued | .starting | .running | .packaging => true
  | _ => false

/-- `capture`, `sample` or `repair`. -/
def Operation.isCapture : Operation → Bool
  | .capture | .sample | .repair => true
  | _ => false

def Job.new (now : Nat) (owner : String) (request : CreateJobRequest) (operation : Operation) : Job where
  createdAt := now
  createdBy := owner
  status := .queued
  request := request
  runtime := { operation := operation }

/-- An active capture, sample or repair of the owner for this address. -/
def Job.captures (owner url : String) (job : Job) : Bool :=
  job.createdBy == owner && job.status.active && job.request.url == url && job.runtime.operation.isCapture

/-- A whole new document: what only the stored one had is gone. -/
def Job.store (job : Job) (runtime : JobRuntime) : Job :=
  { job with runtime := runtime, discardCleanupPending := false }

namespace Db

def modifyJob (db : Db) (id : Nat) (f : Job → Job) : Db :=
  { db with jobs := db.jobs.modify id f }

def insertJob (db : Db) (job : Job) : Db :=
  { db with jobs := db.jobs.insert job }

def activeCaptures (db : Db) (owner url : String) : List (Nat × Job) :=
  db.jobs.select (fun _ job => job.captures owner url)

end Db

def createUniqueCapture (db : Db) (now : Nat) (owner : String) (request : CreateJobRequest) : Db × Bool :=
  if (db.activeCaptures owner request.url).isEmpty then
    (db.insertJob (Job.new now owner request .capture), true)
  else (db, false)

def queueBatch (db : Db) (now : Nat) (owner : String) (requests : List CreateJobRequest) : Db :=
  requests.foldl (fun db request => db.insertJob (Job.new now owner request .capture)) db

def queueOperation (db : Db) (now : Nat) (owner : String) (request : CreateJobRequest)
    (operation : Operation) : Db :=
  db.insertJob (Job.new now owner request operation)

def Job.controlled (job : Job) (control : Control) : Job :=
  { job.store { job.runtime with control := some control } with
    status := if job.status = .queued then .paused else job.status }

/-- `pause` and `stop`; no result is the error of the request. -/
def requestControl (db : Db) (id : Nat) (owner : String) (control : Control) : Option Db :=
  match db.jobs.get id with
  | none => none
  | some job =>
    if job.createdBy ≠ owner then none
    else match job.status with
      | .queued | .starting | .running =>
        if job.runtime.operation.isCapture then
          some (db.modifyJob id fun job => job.controlled control)
        else none
      | _ => none

/-- The limits of a resumed capture, where the request and the budget used so far allow one. -/
def Job.extended (job : Job) (ext : ResumeOptions) : Option CreateJobRequest :=
  if job.runtime.control = some .discard ∨ ¬(job.status = .partly ∨ job.status = .paused) ∨
      (0 < job.runtime.attempt ∧ job.runtime.canResume = false) then none
  else if 500 < ext.additionalPages ∨ 120 < ext.additionalMinutes ∨
      16 * 1024 * 1024 * 1024 < ext.additionalBytes then none
  else
    let done := job.runtime.coverage.getD 0
    let pages := job.request.pageLimit + ext.additionalPages
    let bytes := job.request.sizeLimitBytes.getD (2 * 1024 * 1024 * 1024) + ext.additionalBytes
    let minutes := job.request.timeLimitMinutes + ext.additionalMinutes
    if 5000 < pages ∨ 16 * 1024 * 1024 * 1024 < bytes ∨ 1440 < minutes then none
    else if pages ≤ done ∨ bytes ≤ job.runtime.warcBytes ∨ minutes * 60 ≤ job.runtime.runtimeSeconds ∨
        (job.runtime.stopReason = some .timeLimit ∧ ext.additionalMinutes = 0) then none
    else some { job.request with
      pageLimit := pages, sizeLimitBytes := some bytes, timeLimitMinutes := minutes }

def Job.resumed (job : Job) (request : CreateJobRequest) : Job :=
  { job.store { job.runtime with
      control := none, stopReason := none, canResume := false, attemptDeadline := none } with
    status := .queued, request := request }

def resume (db : Db) (id : Nat) (owner : String) (ext : ResumeOptions) : Option Db :=
  match db.jobs.get id with
  | none => none
  | some job =>
    if job.createdBy ≠ owner then none
    else match job.extended ext with
      | none => none
      | some request => some (db.modifyJob id fun job => job.resumed request)

def setRuntime (db : Db) (id : Nat) (rt : JobRuntime) : Db :=
  db.modifyJob id fun job => job.store rt

/-- The new document with the control and the clean-up mark of the stored one; a
discarded job keeps its resume configuration and stays not resumable. -/
def Job.preserving (job : Job) (rt : JobRuntime) : Job :=
  let discarded := job.runtime.control = some .discard
  { job with runtime := { rt with
      control := job.runtime.control
      canResume := if discarded then false else rt.canResume
      resumeConfig := if discarded then job.runtime.resumeConfig else rt.resumeConfig
      stopReason := if discarded then some .discard else rt.stopReason } }

def setRuntimePreservingControl (db : Db) (id : Nat) (rt : JobRuntime) : Db :=
  db.modifyJob id fun job => job.preserving rt

def beginCapture (db : Db) (id : Nat) (rt : JobRuntime) : Db × Bool :=
  match db.jobs.get id with
  | none => (db, false)
  | some job =>
    if job.status = .starting ∧ job.runtime.control = none then
      (db.modifyJob id fun job => { job.store rt with status := .running }, true)
    else (db, false)

def beginFileOperation (db : Db) (id : Nat) (owner : String) : Db × Bool :=
  match db.jobs.get id with
  | none => (db, false)
  | some job =>
    if job.createdBy = owner ∧ job.status = .starting ∧ job.runtime.control = none then
      (db.modifyJob id fun job => { job with status := .packaging }, true)
    else if job.createdBy = owner ∧ job.status = .cancelling then
      (db.modifyJob id fun job => { job with status := .cancelled }, false)
    else (db, false)

/-- The stop reason that a control sets when it is frozen. -/
def Control.reason (control : Option Control) (reason : Option StopReason) : Option StopReason :=
  match control with
  | some .pause => some .pause
  | some .stop => some .stopAndSave
  | _ => reason

/-- An error, a job that is being cancelled, or the frozen runtime of a job that is now packaging. -/
def preparePublication (db : Db) (id : Nat) (rt : JobRuntime) : Option (Db × Option JobRuntime) :=
  match db.jobs.get id with
  | none => none
  | some job =>
    match job.status with
    | .cancelling => some (db, none)
    | .running =>
      let frozen := { rt with
        control := job.runtime.control
        stopReason := Control.reason job.runtime.control rt.stopReason }
      some (db.modifyJob id fun job => { job.store frozen with status := .packaging }, some frozen)
    | _ => none

def Job.interrupted (job : Job) : Job :=
  let discarded := job.status = .cancelling ∨ job.runtime.control = some .discard
  match job.status with
  | .starting | .running | .cancelling | .packaging =>
    if discarded then
      { job with
        status := .cancelled
        runtime := { job.runtime with control := some .discard, canResume := false }
        discardCleanupPending := true }
    else { job with status := if 0 < job.runtime.attempt then .paused else .failed }
  | _ => job

def markWorkerInterrupted (db : Db) : Db :=
  { db with jobs := db.jobs.mapRows fun _ job => job.interrupted }

def setStatus (db : Db) (id : Nat) (status : JobStatus) : Db :=
  db.modifyJob id fun job =>
    { job with status := if job.runtime.control = some .discard then .cancelled else status }

/-- The row of a job whose discard was accepted. -/
def Job.discarded (job : Job) (next : JobStatus) : Job :=
  { job with
    status := next
    runtime := { job.runtime with canResume := false, control := some .discard }
    discardCleanupPending :=
      job.status == .starting || job.status == .running || decide (0 < job.runtime.attempt) }

def PublicationIntent.invalidated (job : Nat) (intent : PublicationIntent) : PublicationIntent :=
  if intent.completed = .pending ∧ intent.jobId = some job then { intent with completed := .invalidated }
  else intent

def requestCancel (db : Db) (id : Nat) : Db × Bool :=
  match db.jobs.get id with
  | none => (db, false)
  | some job =>
    let accept := fun next : JobStatus =>
      ({ db with
        jobs := db.jobs.modify id fun job => job.discarded next
        intents := db.intents.mapRows fun _ intent => intent.invalidated id }, true)
    match job.status with
    | .queued | .paused | .partly => accept .cancelled
    | .starting | .running => accept .cancelling
    | _ => (db, false)

/-- The rows that `delete_job` and `clear_history` may remove. -/
def Job.deletable (job : Job) : Bool :=
  (job.status == .completed || job.status == .failed || job.status == .cancelled || job.status == .partly) &&
    !job.runtime.canResume && !job.discardCleanupPending

def deleteJob (db : Db) (id : Nat) (owner : String) : Db × Bool :=
  match db.jobs.get id with
  | none => (db, false)
  | some job =>
    if job.createdBy = owner ∧ job.deletable = true then
      ({ db with jobs := db.jobs.filterRows fun row _ => row != id }, true)
    else (db, false)

def clearHistory (db : Db) (owner : String) : Db :=
  { db with jobs := db.jobs.filterRows fun _ job => !(job.createdBy == owner && job.deletable) }

def older (best : Option (Nat × Job)) (row : Nat × Job) : Option (Nat × Job) :=
  match best with
  | none => some row
  | some old => if row.2.createdAt < old.2.createdAt then some row else some old

/-- `ORDER BY created_at, id LIMIT 1` over the queued jobs. -/
def oldestQueued (db : Db) : Option Nat :=
  ((db.jobs.select fun _ job => job.status == .queued).foldl older none).map Prod.fst

def claimNextQueuedJob (db : Db) : Db × Option Nat :=
  match oldestQueued db with
  | none => (db, none)
  | some id => (db.modifyJob id fun job => { job with status := .starting }, some id)

def listJobsForRecovery (db : Db) : List Nat :=
  ((db.jobs.select fun _ job => job.status == .paused ||
    (job.status == .cancelled && job.discardCleanupPending)).map Prod.fst).take 1000

def discardedJobs (db : Db) : List Nat :=
  ((db.jobs.select fun _ job => job.status == .cancelled && job.discardCleanupPending).map Prod.fst).take 1000

def finishDiscardCleanup (db : Db) (id : Nat) : Db :=
  db.modifyJob id fun job =>
    if job.status = .cancelled ∧ job.runtime.control = some .discard then
      { job with
        runtime := { job.runtime with
          canResume := false, resumeConfig := none, attemptDeadline := none, stopReason := some .discard }
        discardCleanupPending := false }
    else job

def restoreCheckpoint (db : Db) (id : Nat) (saved : String) : Db :=
  db.modifyJob id fun job =>
    if job.status = .paused ∧ job.runtime.control ≠ some .discard then
      { job with runtime := { job.runtime with
          canResume := true, resumeConfig := some saved, stopReason := some .workerRestart } }
    else job

/-- The last job of the schedule is active. -/
def Schedule.running (schedule : Schedule) (db : Db) : Bool :=
  match schedule.lastJobId with
  | none => false
  | some last => (db.jobs.get last).any fun job : Job => job.status.active

/-- One due schedule; the count of the jobs queued so far goes along. -/
def dispatchOne (now : Nat) (dispatched : Db × Nat) (due : Nat × Schedule) : Db × Nat :=
  let (db, count) := dispatched
  let (id, schedule) := due
  if schedule.running db = true then (db, count)
  else
    let ran := { schedule with
      lastRunAt := some now
      nextRunAt := now + 60000 * max 60 (min 525600 (schedule.intervalMinutes.getD 60)) }
    let save := fun (db : Db) (value : Schedule) =>
      { db with schedules := db.schedules.modify id fun _ => value }
    match (db.recipes.get schedule.recipeId).filter fun recipe : Recipe => recipe.owner == schedule.owner with
    | none =>
      (save db { ran with lastError := some "recipe no longer available", enabled := false }, count)
    | some recipe =>
      match (db.activeCaptures schedule.owner recipe.request.url).head? with
      | some existing =>
        (save db { ran with
          lastJobId := some existing.1
          lastError := some "Existing active capture retained; duplicate dispatch skipped" }, count)
      | none =>
        (save (db.insertJob (Job.new now schedule.owner recipe.request .capture))
          { ran with lastJobId := some db.jobs.next, lastError := none }, count + 1)

def dispatchDueSchedules (db : Db) (now : Nat) : Db × Nat :=
  ((db.schedules.select fun _ schedule => schedule.enabled && decide (schedule.nextRunAt ≤ now)).take 10).foldl
    (dispatchOne now) (db, 0)

/-- The job of the intent, if it has one, is packaging and was not discarded. -/
def PublicationIntent.allowed (intent : PublicationIntent) (db : Db) : Bool :=
  match intent.jobId with
  | none => true
  | some id => (db.jobs.get id).any fun job : Job =>
      job.createdBy == intent.archive.createdBy && job.status == .packaging &&
        job.runtime.control != some .discard

/-- No result is the refusal of an intent that is not allowed. -/
def putIntent (db : Db) (intent : PublicationIntent) : Option Db :=
  if intent.allowed db = true then
    some { db with intents := db.intents.insert { intent with completed := .pending } }
  else none

/-- An error, or whether the intent is to be published now. -/
def admitPendingPublication (db : Db) (id : Nat) (intent : PublicationIntent) : Option (Db × Bool) :=
  if (db.intents.get id).any fun stored => stored.completed == .pending then
    match intent.jobId with
    | none => some (db, true)
    | some ownerJob =>
      match db.jobs.get ownerJob with
      | none => some (db, true)
      | some job =>
        if job.createdBy ≠ intent.archive.createdBy then none
        else if job.status = .cancelling ∨ job.status = .cancelled ∨ job.runtime.control = some .discard then
          some ({ db with
            intents := db.intents.modify id fun stored => { stored with completed := .invalidated }
            jobs := db.jobs.modify ownerJob fun job => { job with
              status := .cancelled
              runtime := { job.runtime with control := some .discard, canResume := false }
              discardCleanupPending := true } }, false)
        else some (db.modifyJob ownerJob fun job => { job with status := .packaging }, true)
  else some (db, false)

def pendingIntentIds (db : Db) : List Nat :=
  ((db.intents.select fun _ intent => intent.completed == .pending).map Prod.fst).take 1000

def pendingIntent (db : Db) (id : Nat) : Option PublicationIntent :=
  (db.intents.get id).filter fun intent => intent.completed == .pending

/-- The catalogue rows of an intent; an archive that is there keeps its document. -/
def PublicationIntent.row (intent : PublicationIntent) (existing : Option ArchiveRow) : ArchiveRow where
  owner := (existing.map ArchiveRow.owner).getD intent.archive.createdBy
  sha256 := (existing.map ArchiveRow.sha256).getD intent.archive.sha256
  document := (existing.map ArchiveRow.document).getD intent.archive
  pages := intent.report.pages
  resources := intent.report.resources
  coverage := intent.coverage

def Job.finalized (job : Job) (id : Nat) (intent : PublicationIntent) : Job :=
  if job.createdBy = intent.archive.createdBy then
    { job.store { job.runtime with archiveId := some id, bytesStored := intent.archive.archiveBytes } with
      status := intent.finalStatus }
  else job

/-- No result is a catalogue row of another owner or content under the same id. -/
def finalizeIntent (db : Db) (id : Nat) (intent : PublicationIntent) : Option Db :=
  let row := intent.row (db.archives id)
  if row.owner = intent.archive.createdBy ∧ row.sha256 = intent.archive.sha256 then
    some { db with
      archives := Function.update db.archives id (some row)
      jobs := match intent.jobId with
        | none => db.jobs
        | some job => db.jobs.modify job fun row => row.finalized id intent
      intents := db.intents.modify id fun stored => { stored with completed := .finalized } }
  else none

/-- An archive's new document, if the row is its owner's; a missing row is inserted. -/
def saveArchiveMetadata (db : Db) (id : Nat) (document : Archive) : Db :=
  let saved := match db.archives id with
    | none => some {
        owner := document.createdBy, sha256 := document.sha256, document := document
        pages := [], resources := [], coverage := [] }
    | some old =>
      if old.owner = document.createdBy then
        some { old with document := document, sha256 := document.sha256 }
      else some old
  { db with archives := Function.update db.archives id saved }

end NixHomeServer.Browsertrix
