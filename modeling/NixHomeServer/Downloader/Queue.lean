import NixHomeServer.Downloader.Worker
import NixHomeServer.Library.Runs

/-! The download queue: the pump that starts workers, the workers and the calls
of the users. What waits for the database stands in its queue, first come first
served. -/
namespace NixHomeServer.Downloader

open NixHomeServer.Library

structure User where
  username : String
  canWriteShared : Bool := false
  deriving DecidableEq, Repr

/-- What a call does once it has read the job. -/
inductive Purpose
  | retry (tag : Nat)
  | cancel
  | resolve (action : AlertAction)
  | delete
  deriving DecidableEq, Repr

/-- What a call has asked the database. -/
inductive Call
  | looking (user : User) (tag : Nat) (request : CreateJobRequest)
  | matched (user : User) (tag : Nat) (request : CreateJobRequest) (duplicate : Nat)
  | creating (user : User) (tag : Nat) (request : CreateJobRequest) (alert : Option Alert)
  | reading (purpose : Purpose) (id : Nat) (user : User)
  | hydrating (purpose : Purpose) (job : Job) (user : User)
  | cancelling (job : Job)
  | declining (job : Job)
  | requeueing (job : Job) (request : CreateJobRequest)
  | noting (id : Nat)
  | deleting (id : Nat) (username : String)
  | clearing (username : String)
  deriving DecidableEq, Repr

def Call.query : Call → Query
  | .looking user _ _ => .completedDownloads user.username
  | .matched _ _ _ duplicate => .files duplicate
  | .creating user tag request alert => .createJob user.username tag request alert
  | .reading _ id user => .getJobForUser id user.username
  | .hydrating _ job _ => .files job.id
  | .cancelling job => .setStatus job.id .cancelled
  | .declining job => .setStatus job.id .cancelled
  | .requeueing job request => .requeue job.id request
  | .noting id => .insert id
  | .deleting id username => .deleteJob id username
  | .clearing username => .clearHistory username

/-- What waits for an answer of the database. -/
inductive Waiter
  | claim
  | read (id : Nat)
  | hydrate (job : Job)
  | putBack (id : Nat)
  | call (call : Call)
  | worker (task : Task) (ask : Ask)
  | progress (id : Nat)
  deriving DecidableEq, Repr

def Waiter.query : Waiter → Query
  | .claim => .claim
  | .read id => .getJob id
  | .hydrate job => .files job.id
  | .putBack id => .setStatus id .queued
  | .call asked => asked.query
  | .worker task ask => ask.query task
  | .progress id => .update id

structure Queue where
  db : Db := {}
  /-- Requests that the database has not come to yet. -/
  posted : List Waiter := []
  /-- Answers that have not been picked up yet. -/
  answered : List (Waiter × Reply) := []
  /-- Workers that wait for something else. -/
  outside : List (Task × Act) := []
  active : Nat := 0
  pumping : Bool := false
  pumpRequested : Bool := false
  stopped : Bool := false
  deriving DecidableEq, Repr

namespace Queue

def post (q : Queue) (w : Waiter) : Queue := { q with posted := q.posted ++ [w] }

/-- The start of the pump's loop, which ends at once where no more workers may run. -/
def pump (c : Config) (q : Queue) : Queue :=
  if q.stopped then q
  else if q.pumping then { q with pumpRequested := true }
  else if q.active < c.concurrency then { q with pumping := true }.post .claim
  else q

/-- The loop is over; it starts again if that has been asked for. -/
def endPump (c : Config) (q : Queue) : Queue :=
  let q := { q with pumping := false }
  if q.pumpRequested && !q.stopped then { q with pumpRequested := false }.pump c else q

/-- The loop's condition. -/
def claimNext (c : Config) (q : Queue) : Queue :=
  if !q.stopped && q.active < c.concurrency then q.post .claim else q.endPump c

/-- A worker goes on. Where it is over, the queue looks for more work. -/
def follow (c : Config) (q : Queue) : Next → Queue
  | .ask task ask => q.post (.worker task ask)
  | .act task act => { q with outside := q.outside ++ [(task, act)] }
  | .spent => { q with active := q.active - 1 }.pump c

/-- The pump starts a worker and looks at its condition again. What the worker does at once comes
before the next claim, what it does after an await comes later. -/
def startJob (c : Config) (q : Queue) (job : Job) : Queue :=
  ({ q with active := q.active + 1 }.follow c (Task.begin c job)).claimNext c

def enqueue (c : Config) (q : Queue) (user : User) (tag : Nat) (request : CreateJobRequest) : Queue :=
  let request := c.normalize request
  if q.stopped then q
  else if !c.validateRequest request then q
  else if request.destination = .shared && !user.canWriteShared then q
  else if request.duplicateConfirmed then q.post (.call (.creating user tag request none))
  else q.post (.call (.looking user tag request))

/-- A child of the job is told to terminate. -/
def kill (id : Nat) : Task × Act → Task × Act
  | (task, .probing killed) => (task, .probing (killed || task.job.id = id))
  | (task, .downloading killed) => (task, .downloading (killed || task.job.id = id))
  | other => other

def cancel (q : Queue) (job : Job) : Queue :=
  let q := { q with outside := q.outside.map (kill job.id) }
  if job.status = .queued || job.status = .alert || job.status = .probing then
    q.post (.call (.cancelling job))
  else q

def resolveAlert (q : Queue) (job : Job) (action : AlertAction) : Queue :=
  match job.status, job.alert with
  | .alert, some alert =>
    if action = .cancel then q.post (.call (.declining job))
    else match alert.confirmed action job.request with
      | some request => q.post (.call (.requeueing job request))
      | none => q
  | _, _ => q

def returned (c : Config) (q : Queue) : Call → Reply → Queue
  | .looking user tag request, .rows rows =>
    match rows.find? fun row => row.request.mediaType = request.mediaType &&
        c.normalizeDownloadUrl row.request.url = c.normalizeDownloadUrl request.url with
    | some duplicate => q.post (.call (.matched user tag request duplicate.id))
    | none => q.post (.call (.creating user tag request none))
  | .matched user tag request duplicate, .done =>
    q.post (.call (.creating user tag request (some (.duplicate duplicate))))
  | .creating _ _ _ none, .created _ => q.pump c
  | .reading purpose _ user, .row (some job) => q.post (.call (.hydrating purpose job user))
  | .hydrating (.retry tag) job user, .done => q.enqueue c user tag job.request
  | .hydrating .cancel job _, .done => q.cancel job
  | .hydrating (.resolve action) job _, .done => q.resolveAlert job action
  | .hydrating .delete job user, .done => q.post (.call (.deleting job.id user.username))
  | .requeueing job _, .done => q.post (.call (.noting job.id))
  | .noting _, .done => q.pump c
  | _, _ => q

/-- An answer is picked up by what waits for it. -/
def resume (c : Config) (q : Queue) : Waiter → Reply → Queue
  | .claim, .claimed (some id) => q.post (.read id)
  | .claim, _ => q.endPump c
  | .read _, .row (some job) => q.post (.hydrate job)
  | .read _, _ => q.endPump c
  | .hydrate job, .done => if q.stopped then q.post (.putBack job.id) else q.startJob c job
  | .hydrate _, _ => q.endPump c
  | .putBack _, _ => q.endPump c
  | .call call, reply => q.returned c call reply
  | .worker task ask, reply => q.follow c (task.answered c q.stopped ask reply)
  | .progress _, _ => q

/-- The queue of a service that starts over a table as it was left. -/
def start (c : Config) (now : Nat) (db : Db) : Queue := { db := db.markInterrupted now : Queue }.pump c

end Queue

inductive Event
  | enqueue (user : User) (tag : Nat) (request : CreateJobRequest)
  | call (purpose : Purpose) (id : Nat) (user : User)
  | clearHistory (username : String)
  | database (now : Nat)
  | deliver
  | happen (i : Nat) (outcome : Outcome)
  | progress (i : Nat)
  | stop
  deriving DecidableEq, Repr

def Queue.step (c : Config) (q : Queue) : Event → Queue
  | .enqueue user tag request => q.enqueue c user tag request
  | .call purpose id user => q.post (.call (.reading purpose id user))
  | .clearHistory username => q.post (.call (.clearing username))
  | .database now => match q.posted with
    | [] => q
    | w :: rest =>
      let (db, reply) := q.db.handle now w.query
      { q with db := db, posted := rest, answered := q.answered ++ [(w, reply)] }
  | .deliver => match q.answered with
    | [] => q
    | (w, reply) :: rest => { q with answered := rest }.resume c w reply
  | .happen i outcome => match q.outside[i]? with
    | some (task, act) =>
      { q with outside := q.outside.eraseIdx i }.follow c (task.happened q.stopped act outcome)
    | none => q
  | .progress i => match q.outside[i]? with
    | some (task, .downloading _) => q.post (.progress task.job.id)
    | _ => q
  | .stop =>
    if q.stopped then q
    else { q with
      stopped := true
      pumpRequested := false
      outside := q.outside.map fun worker => Queue.kill worker.1.job.id worker }

end NixHomeServer.Downloader
