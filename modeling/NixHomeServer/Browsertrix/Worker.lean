import NixHomeServer.Browsertrix.Custody

/-! The crawl worker: its recovery, its loop and its captures and file operations, one
transaction or file-system step at a time, among the requests of users. -/
namespace NixHomeServer.Browsertrix

open NixHomeServer.Library

/-- Where a publication returns to. -/
inductive Return
  | boot (rest : List Nat)
  | reconcile (id : Nat) (rest : List Nat)
  | captured (id : Nat) (rt : JobRuntime) (final : JobStatus)
  | operated (id : Nat)
  deriving DecidableEq, Repr

/-- What the crawler left when it exited; `packaged` is the presence of the WACZ. -/
structure Outcome where
  warcBytes : Nat := 0
  runtimeSeconds : Nat := 0
  pagesDone : Nat := 0
  reason : Option StopReason := none
  policyReady : Bool := true
  packaged : Bool := true
  success : Bool := true
  deriving DecidableEq, Repr

/-- What follows a status that the worker has set. -/
inductive After
  | top | scratch | fail
  deriving DecidableEq, Repr

/-- The place of the worker in its program, with the copies of rows it holds. -/
inductive Pc
  | stopped
  | pending (k : Return)
  | admitting (id : Nat) (intent : PublicationIntent) (k : Return)
  | place (step : Placing) (id : Nat) (intent : PublicationIntent) (k : Return)
  | finalize (id : Nat) (intent : PublicationIntent) (k : Return)
  | interrupt
  | list (ids : List Nat) (jobs : List (Nat × Job)) (boot : Bool)
  | each (jobs : List (Nat × Job)) (boot : Bool)
  | clock (id : Nat) (job : Job) (rest : List (Nat × Job))
  | checkpoint (id : Nat) (rest : List (Nat × Job))
  | restore (id : Nat) (saved : String) (rest : List (Nat × Job))
  | cleanup (id : Nat) (rest : List (Nat × Job)) (boot : Bool)
  | cleaned (id : Nat) (rest : List (Nat × Job)) (boot : Bool)
  | top
  | dispatch
  | claim
  | claimed (id : Nat)
  | prepare (id : Nat) (job : Job)
  | before (id : Nat) (job : Job)
  | begin (id : Nat) (job : Job) (rt : JobRuntime)
  | reread (id : Nat)
  | crawling (id : Nat) (job : Job) (rt : JobRuntime) (reason : Option StopReason)
  | settle (id : Nat) (job : Job) (rt : JobRuntime) (outcome : Outcome)
  | drop (id : Nat) (rt : JobRuntime)
  | latest (id : Nat) (job : Job) (rt : JobRuntime) (outcome : Outcome)
  | reason (id : Nat) (job : Job) (rt : JobRuntime) (outcome : Outcome)
  | package (id : Nat) (job : Job) (rt : JobRuntime) (outcome : Outcome)
  | inspect (id : Nat) (job : Job) (rt : JobRuntime) (final : JobStatus)
  | estimate (id : Nat) (rt : JobRuntime) (intent : PublicationIntent) (final : JobStatus)
  | put (intent : PublicationIntent) (k : Return)
  | tidy (id : Nat) (rt : JobRuntime)
  | published (id : Nat) (rt : JobRuntime)
  | record (id : Nat) (rt : JobRuntime)
  | operate (id : Nat) (job : Job)
  | working (id : Nat) (job : Job)
  | document (id : Nat) (rt : JobRuntime)
  | status (id : Nat) (status : JobStatus) (after : After)
  | inbox (id : Nat)
  | scratch (id : Nat)
  | fail (id : Nat)
  deriving DecidableEq, Repr

structure System where
  db : Db := {}
  /-- The checkpoint directories, each with the last saved state in it. -/
  directories : Nat → Option (Option String) := fun _ => none
  store : Store := {}
  pc : Pc := .stopped

/-- What a step of the worker meets outside the database; `diagnostics` are kept in the scratch directory. -/
inductive Input
  | step
  | random (number : Nat)
  | torn (content : Content)
  | poll (limit : Option StopReason)
  | sync (warcBytes runtimeSeconds pagesDone : Nat)
  | exit (outcome : Outcome)
  | inspected (archive : Archive) (report : ArchiveReport) (source : String) (coverage : List String)
  | existing (archive : Nat)
  | verified (archive : Nat) (document : Archive)
  | diagnostics
  deriving DecidableEq, Repr

def Input.number : Input → Nat
  | .random number => number
  | _ => 0

def Input.content : Input → Option Content
  | .torn content => some content
  | _ => none

/-- `find_checkpoint`. -/
def System.findCheckpoint (s : System) (id : Nat) : Option String := (s.directories id).join

def System.setDirectory (s : System) (id : Nat) (directory : Option (Option String)) : System :=
  { s with directories := Function.update s.directories id directory }

/-- The place after an archive of a publication is in the catalogue. -/
def Return.next : Return → Pc
  | .boot rest => .pending (.boot rest)
  | .reconcile id rest => .pending (.reconcile id rest)
  | .captured id rt final => if final = .completed then .tidy id rt else .top
  | .operated id => .inbox id

def Return.failed : Return → Pc
  | .boot _ => .stopped
  | .reconcile id _ | .captured id _ _ | .operated id => .fail id

def After.pc (id : Nat) : After → Pc
  | .top => .top
  | .scratch => .scratch id
  | .fail => .fail id

/-- Where an error of the next step leads: out of the worker, or to the failure of its job. -/
def Pc.failed : Pc → Pc
  | .admitting _ _ k | .place _ _ _ k | .finalize _ _ k | .put _ k | .pending k => k.failed
  | .prepare id _ | .before id _ | .begin id _ _ | .reread id | .crawling id _ _ _ | .settle id _ _ _
  | .drop id _ | .latest id _ _ _ | .reason id _ _ _ | .package id _ _ _ | .inspect id _ _ _
  | .estimate id _ _ _ | .tidy id _ | .published id _ | .record id _ | .operate id _ | .working id _
  | .document id _ | .status id _ _ | .inbox id | .scratch id => .fail id
  | _ => .stopped

/-- What an interrupted job has used of its time when it is recovered. -/
def Job.clocked (job : Job) (now : Nat) : JobRuntime :=
  match job.runtime.attemptDeadline with
  | none => job.runtime
  | some deadline => { job.runtime with
      runtimeSeconds := max job.runtime.runtimeSeconds (job.request.timeLimitMinutes * 60 - (deadline - now))
      attemptDeadline := none }

/-- The runtime of a new attempt. -/
def Job.attempting (job : Job) (now : Nat) : JobRuntime :=
  { job.runtime with
    attempt := job.runtime.attempt + 1
    control := none
    canResume := false
    attemptDeadline := some (now + (job.request.timeLimitMinutes * 60 - job.runtime.runtimeSeconds)) }

/-- The runtime when the crawler has exited; only a poll stops a capture to discard it. -/
def JobRuntime.exited (rt : JobRuntime) (saved : Option String) (reason : Option StopReason)
    (outcome : Outcome) : JobRuntime :=
  { rt with
    runtimeSeconds := outcome.runtimeSeconds
    attemptDeadline := none
    warcBytes := outcome.warcBytes
    coverage := some outcome.pagesDone
    resumeConfig := saved
    canResume := saved.isSome
    stopReason := reason <|> outcome.reason.filter (· != .discard) }

def finish (rt : JobRuntime) (outcome : Outcome) : JobStatus :=
  if rt.stopReason = some .pause then .paused
  else if rt.stopReason.isSome ∨ outcome.success = false then .partly
  else .completed

section Steps

variable (sha256 : Content → String)

/-- The worker's next step. -/
def work (s : System) (now : Nat) (input : Input) : System :=
  match s.pc with
  | .stopped => s
  | .pending (.boot []) => { s with pc := .interrupt }
  | .pending (.reconcile id []) => { s with pc := .status id .completed .scratch }
  | .pending (.boot (id :: rest)) =>
    match pendingIntent s.db id with
    | none => { s with pc := .pending (.boot rest) }
    | some intent => { s with pc := .admitting id intent (.boot rest) }
  | .pending (.reconcile job (id :: rest)) =>
    match pendingIntent s.db id with
    | none => { s with pc := .pending (.reconcile job rest) }
    | some intent => { s with pc := .admitting id intent (.reconcile job rest) }
  | .pending k => { s with pc := k.failed }
  | .admitting id intent k =>
    match admitPendingPublication s.db id intent with
    | none => { s with pc := k.failed }
    | some (db, false) => { s with db := db, pc := k.next }
    | some (db, true) => { s with db := db, pc := .place .destination id intent k }
  | .place step id intent k =>
    match place sha256 s.store id intent.archive intent.source input.number input.content step with
    | (store, .next step) => { s with store := store, pc := .place step id intent k }
    | (store, .done) => { s with store := store, pc := .finalize id intent k }
    | (store, .failed) => { s with store := store, pc := k.failed }
  | .finalize id intent k =>
    match finalizeIntent s.db id intent with
    | none => { s with pc := k.failed }
    | some db => { s with db := db, pc := k.next }
  | .interrupt =>
    let db := markWorkerInterrupted s.db
    { s with db := db, pc := .list (listJobsForRecovery db) [] true }
  | .list [] jobs boot => { s with pc := .each jobs boot }
  | .list (id :: ids) jobs boot =>
    match s.db.jobs.get id with
    | none => { s with pc := .list ids jobs boot }
    | some job => { s with pc := .list ids (jobs ++ [(id, job)]) boot }
  | .each [] boot => { s with pc := if boot then .top else .dispatch }
  | .each ((id, job) :: rest) boot =>
    if boot = false ∨ job.runtime.control = some .discard then { s with pc := .cleanup id rest boot }
    else if job.runtime.attemptDeadline.isSome then { s with pc := .clock id job rest }
    else { s with pc := .checkpoint id rest }
  | .clock id job rest =>
    { s with db := setRuntimePreservingControl s.db id (job.clocked now), pc := .checkpoint id rest }
  | .checkpoint id rest =>
    match s.findCheckpoint id with
    | none => { s with pc := .each rest true }
    | some saved => { s with pc := .restore id saved rest }
  | .restore id saved rest => { s with db := restoreCheckpoint s.db id saved, pc := .each rest true }
  | .cleanup id rest boot => { s.setDirectory id none with pc := .cleaned id rest boot }
  | .cleaned id rest boot => { s with db := finishDiscardCleanup s.db id, pc := .each rest boot }
  | .top => { s with pc := .list (discardedJobs s.db) [] false }
  | .dispatch => { s with db := (dispatchDueSchedules s.db now).1, pc := .claim }
  | .claim =>
    match claimNextQueuedJob s.db with
    | (db, none) => { s with db := db, pc := .top }
    | (db, some id) => { s with db := db, pc := .claimed id }
  | .claimed id =>
    match s.db.jobs.get id with
    | none => { s with pc := .top }
    | some job =>
      { s with pc := if job.runtime.operation.isCapture then .prepare id job else .operate id job }
  | .prepare id job =>
    let s := s.setDirectory id (some ((s.directories id).getD none))
    if job.runtime.operation ≠ .repair ∧
        job.request.timeLimitMinutes * 60 ≤ job.runtime.runtimeSeconds then { s with pc := .fail id }
    else if 0 < job.runtime.attempt ∧ s.findCheckpoint id = none then { s with pc := .fail id }
    else { s with pc := .before id job }
  | .before id job =>
    match s.db.jobs.get id with
    | none => { s with pc := .fail id }
    | some current =>
      if current.status = .cancelling then { s with pc := .status id .cancelled .top }
      else if current.runtime.control.isSome then { s with pc := .status id .paused .top }
      else { s with pc := .begin id job (job.attempting now) }
  | .begin id job rt =>
    match beginCapture s.db id rt with
    | (db, true) => { s with db := db, pc := .crawling id job rt none }
    | (db, false) => { s with db := db, pc := .reread id }
  | .reread id =>
    match s.db.jobs.get id with
    | none => { s with pc := .fail id }
    | some current =>
      { s with pc := .status id (if current.status = .cancelling then .cancelled else .paused) .top }
  | .crawling id job rt reason =>
    match input with
    | .poll limit =>
      match s.db.jobs.get id with
      | none => { s with pc := .fail id }
      | some current =>
        let next :=
          if current.status = .cancelling then some .discard
          else match current.runtime.control with
            | some .pause => some .pause
            | some .stop => some .stopAndSave
            | _ => limit.filter (· != .discard)
        { s with pc := .crawling id job rt (reason <|> next) }
    | .sync warcBytes runtimeSeconds pagesDone =>
      let rt := { rt with
        warcBytes := warcBytes, runtimeSeconds := runtimeSeconds
        coverage := some pagesDone, resumeConfig := s.findCheckpoint id }
      { s with db := setRuntimePreservingControl s.db id rt, pc := .crawling id job rt reason }
    | .exit outcome =>
      { s with pc := .settle id job (rt.exited (s.findCheckpoint id) reason outcome) outcome }
    | _ => s
  | .settle id job rt outcome =>
    let db := setRuntimePreservingControl s.db id rt
    if rt.stopReason = some .discard then { s with db := db, pc := .drop id { rt with canResume := false } }
    else { s with db := db, pc := .latest id job rt outcome }
  | .drop id rt =>
    { s with db := setRuntimePreservingControl s.db id rt, pc := .status id .cancelled .top }
  | .latest id job rt outcome =>
    match s.db.jobs.get id with
    | none => { s with pc := .fail id }
    | some current =>
      if current.status = .cancelling then { s with pc := .status id .cancelled .top }
      else
        let rt := { rt with control := current.runtime.control }
        if rt.stopReason = none then
          { s with pc := .reason id job { rt with stopReason := Control.reason rt.control none } outcome }
        else { s with pc := .package id job rt outcome }
  | .reason id job rt outcome =>
    { s with db := setRuntimePreservingControl s.db id rt, pc := .package id job rt outcome }
  | .package id job rt outcome =>
    if outcome.policyReady = false then { s with pc := .fail id }
    else if outcome.packaged = false then
      { s with pc := if rt.canResume then .status id .paused .top else .status id .failed .fail }
    else
      match preparePublication s.db id rt with
      | none => { s with pc := .fail id }
      | some (db, none) => { s with db := db, pc := .status id .cancelled .top }
      | some (db, some frozen) => { s with db := db, pc := .inspect id job frozen (finish frozen outcome) }
  | .inspect id job rt final =>
    match input with
    | .inspected archive report source coverage =>
      let intent : PublicationIntent := {
        archive := { archive with createdBy := job.createdBy }
        report := report, source := source, jobId := some id, finalStatus := final, coverage := coverage }
      if job.runtime.operation = .sample then { s with pc := .estimate id rt intent final }
      else { s with pc := .put intent (.captured id rt final) }
    | _ => s
  | .estimate id rt intent final =>
    { s with db := setRuntime s.db id rt, pc := .put intent (.captured id rt final) }
  | .put intent k =>
    if intent.archive.sha256.length ≠ 64 ∨ intent.report.sha256 ≠ intent.archive.sha256 then
      { s with pc := k.failed }
    else
      match putIntent s.db intent with
      | none => { s with pc := k.failed }
      | some db => { s with db := db, pc := .admitting s.db.intents.next intent k }
  | .tidy id rt => { s.setDirectory id none with pc := .published id rt }
  | .published id rt =>
    match s.db.jobs.get id with
    | none => { s with pc := .fail id }
    | some current =>
      { s with pc := .record id { rt with
          canResume := false, resumeConfig := none
          archiveId := current.runtime.archiveId, bytesStored := current.runtime.bytesStored } }
  | .record id rt => { s with db := setRuntime s.db id rt, pc := .top }
  | .operate id job =>
    match beginFileOperation s.db id job.createdBy with
    | (db, false) => { s with db := db, pc := .top }
    | (db, true) =>
      { s.setDirectory id (some ((s.directories id).getD none)) with db := db, pc := .working id job }
  | .working id job =>
    match job.runtime.operation, input with
    | .importArchive, .inspected archive report source coverage
    | .exportArchive, .inspected archive report source coverage =>
      { s with pc := .put {
          archive := { archive with createdBy := job.createdBy }
          report := report, source := source, jobId := some id, finalStatus := .completed
          coverage := coverage } (.operated id) }
    | .importArchive, .existing archive =>
      match (s.db.archives archive).filter fun row => row.owner == job.createdBy with
      | none => { s with pc := .fail id }
      | some row => { s with pc := .document id { job.runtime with
          archiveId := some archive, bytesStored := row.document.archiveBytes } }
    | .verify, .verified archive document =>
      match (s.db.archives archive).filter fun row => row.owner == job.createdBy && row.sha256 == document.sha256 with
      | none => { s with pc := .fail id }
      | some row => { s with
          db := saveArchiveMetadata s.db archive { document with
            createdBy := row.owner, archiveFile := row.document.archiveFile, visibility := row.document.visibility }
          pc := .document id { job.runtime with archiveId := some archive } }
    | .profileImport, .step => { s with pc := .status id .completed .scratch }
    | .reconcile, .step => { s with pc := .pending (.reconcile id (pendingIntentIds s.db)) }
    | _, _ => s
  | .document id rt => { s with db := setRuntime s.db id rt, pc := .status id .completed .scratch }
  | .status id status after => { s with db := setStatus s.db id status, pc := after.pc id }
  | .inbox id => { s with pc := .scratch id }
  | .scratch id => if input = .diagnostics then { s with pc := .top } else { s.setDirectory id none with pc := .top }
  | .fail id => { s with db := setStatus s.db id .failed, pc := .top }

/-- What a cut or a failing step of a publication has written. -/
def System.spilled (s : System) (torn : Option Content) : System :=
  match s.pc with
  | .place step id intent _ => { s with store := spill s.store id intent.archive torn step }
  | _ => s

/-- Requests of users, steps of the worker, its death at any point and its start, and what the
crawler and other programs do to checkpoints, sources and free payload names meanwhile. -/
inductive Event
  | create (now : Nat) (owner : String) (request : CreateJobRequest)
  | batch (now : Nat) (owner : String) (requests : List CreateJobRequest)
  | operation (now : Nat) (owner : String) (request : CreateJobRequest) (operation : Operation)
  | control (id : Nat) (owner : String) (stop : Bool)
  | resume (id : Nat) (owner : String) (ext : ResumeOptions)
  | cancel (id : Nat)
  | delete (id : Nat) (owner : String)
  | clear (owner : String)
  | records (recipes : Table Recipe) (schedules : Table Schedule)
  | edit (id : Nat) (document : Archive)
  | start
  | work (now : Nat) (input : Input)
  | fail (torn : Option Content)
  | crash (torn : Option Content)
  | crawler (id : Nat) (saved : Option String)
  | source (path : String) (content : Option Content)
  | outside (at_root : Root) (archive : Nat) (name : String) (content : Content)

def System.step (s : System) : Event → System
  | .create now owner request => { s with db := (createUniqueCapture s.db now owner request).1 }
  | .batch now owner requests => { s with db := queueBatch s.db now owner requests }
  | .operation now owner request operation => { s with db := queueOperation s.db now owner request operation }
  | .control id owner stop =>
    { s with db := (requestControl s.db id owner (if stop then .stop else .pause)).getD s.db }
  | .resume id owner ext => { s with db := (Browsertrix.resume s.db id owner ext).getD s.db }
  | .cancel id => { s with db := (requestCancel s.db id).1 }
  | .delete id owner => { s with db := (deleteJob s.db id owner).1 }
  | .clear owner => { s with db := clearHistory s.db owner }
  | .records recipes schedules => { s with db := { s.db with recipes := recipes, schedules := schedules } }
  | .edit id document =>
    match s.db.archives id with
    | none => s
    | some row => { s with db := saveArchiveMetadata s.db id { document with
        createdBy := row.owner, sha256 := row.sha256
        archiveFile := row.document.archiveFile, visibility := row.document.visibility } }
  | .start => if s.pc = .stopped then { s with pc := .pending (.boot (pendingIntentIds s.db)) } else s
  | .work now input => work sha256 s now input
  | .fail torn => { s.spilled torn with pc := s.pc.failed }
  | .crash torn => { s.spilled torn with pc := .stopped }
  | .crawler id saved =>
    { s with directories := Function.update s.directories id ((s.directories id).map fun _ => saved) }
  | .source path content =>
    { s with store := { s.store with sources := Function.update s.store.sources path content } }
  | .outside at_root archive name content =>
    match s.store.files at_root (.payload archive name) with
    | none => { s with store := s.store.put at_root (.payload archive name) (some content) }
    | some _ => s

end Steps

end NixHomeServer.Browsertrix
