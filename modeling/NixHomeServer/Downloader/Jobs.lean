import Mathlib.Data.List.Basic

/-! Download jobs and the table they are kept in. The database answers one
request after the other. -/
namespace NixHomeServer.Downloader

inductive Status
  | queued | alert | probing | running | postprocessing | completed | failed | cancelled
  deriving DecidableEq, Repr

/-- A job that is finished can be deleted. -/
def Status.terminal : Status → Bool
  | .completed | .failed | .cancelled => true
  | _ => false

inductive Destination
  | personal | shared
  deriving DecidableEq, Repr

inductive MediaType
  | audio | video
  deriving DecidableEq, Repr

structure CreateJobRequest where
  url : String
  destination : Destination := .personal
  mediaType : MediaType := .audio
  splitChapters : Option Bool := none
  includeChannel : Bool := false
  includeDate : Bool := false
  saveAudioToAudiobooks : Bool := false
  duplicateConfirmed : Bool := false
  chaptersConfirmed : Bool := false
  outputFolderCollisionConfirmed : Bool := false
  deriving DecidableEq, Repr

def CreateJobRequest.splits (request : CreateJobRequest) : Bool := request.splitChapters.getD false

/-- What the probe of a link reports; of its chapters only their number. -/
structure ProbeResponse where
  title : String
  channel : Option String := none
  uploader : Option String := none
  releaseDate : Option String := none
  uploadDate : Option String := none
  effectiveDate : Option String := none
  chapters : Nat := 0
  deriving DecidableEq, Repr

inductive Alert
  | duplicate (duplicateJobId : Nat)
  | chapters
  | folderCollision
  deriving DecidableEq, Repr

inductive ChapterGate
  | download | singleFile | alert
  deriving DecidableEq, Repr

def chapterGateFor (request : CreateJobRequest) (source : ProbeResponse) : ChapterGate :=
  if request.splits && source.chapters == 0 then .singleFile
  else if !request.splits && source.chapters > 0 && !request.chaptersConfirmed then .alert
  else .download

inductive AlertAction
  | downloadAgain | splitChapters | singleFile | cancel
  deriving DecidableEq, Repr

/-- The request that a confirmed alert goes on with. -/
def Alert.confirmed : Alert → AlertAction → CreateJobRequest → Option CreateJobRequest
  | .duplicate _, .downloadAgain, request => some { request with duplicateConfirmed := true }
  | .chapters, .splitChapters, request =>
    some { request with splitChapters := some true, chaptersConfirmed := true }
  | .chapters, .singleFile, request =>
    some { request with splitChapters := some false, chaptersConfirmed := true }
  | .folderCollision, .downloadAgain, request => some { request with outputFolderCollisionConfirmed := true }
  | _, _, _ => none

/-- What is set up outside the queue: the rules for links, and how many jobs may run at a time. -/
structure Config where
  concurrency : Nat
  normalizeDownloadUrl : String → String
  validateRequest : CreateJobRequest → Bool

def normalizeCreateJobRequest (request : CreateJobRequest) : CreateJobRequest :=
  { request with splitChapters := some (request.splitChapters.getD true) }

def Config.normalize (c : Config) (request : CreateJobRequest) : CreateJobRequest :=
  normalizeCreateJobRequest { request with url := c.normalizeDownloadUrl request.url }

/-- A row of `jobs`. Its id is random; `tag` is its place among the ids in their order as texts. -/
structure Job where
  id : Nat
  createdAt : Nat
  updatedAt : Nat
  tag : Nat
  createdBy : String
  status : Status
  request : CreateJobRequest
  alert : Option Alert
  /-- How often it has waited for the user, as its events tell. -/
  alerts : Nat
  deriving DecidableEq, Repr

/-- The order in which queued jobs are claimed. -/
def Job.before (a b : Job) : Bool := a.createdAt < b.createdAt || (a.createdAt == b.createdAt && a.tag < b.tag)

structure Db where
  rows : List Job := []
  next : Nat := 0
  deriving DecidableEq, Repr

inductive Query
  | createJob (createdBy : String) (tag : Nat) (request : CreateJobRequest) (alert : Option Alert)
  | claim
  | getJob (id : Nat)
  | getJobForUser (id : Nat) (createdBy : String)
  | files (id : Nat)
  | completedDownloads (createdBy : String)
  | setStatus (id : Nat) (status : Status)
  | setAlert (id : Nat) (alert : Alert)
  | requeue (id : Nat) (request : CreateJobRequest)
  | updateRequest (id : Nat) (request : CreateJobRequest)
  /-- A write of columns that the queue does not read back. -/
  | update (id : Nat)
  /-- A new row that refers to the job. -/
  | insert (id : Nat)
  | deleteJob (id : Nat) (createdBy : String)
  | clearHistory (createdBy : String)
  deriving DecidableEq, Repr

inductive Reply
  | done
  | failed
  | created (id : Nat)
  | claimed (id : Option Nat)
  | row (job : Option Job)
  | rows (jobs : List Job)
  deriving DecidableEq, Repr

namespace Db

def find (db : Db) (id : Nat) : Option Job := db.rows.find? fun job => job.id = id

def modify (now : Nat) (db : Db) (id : Nat) (change : Job → Job) : Db :=
  { db with rows := db.rows.map fun job => if job.id = id then { change job with updatedAt := now } else job }

/-- A transaction that changes the row and inserts an event that refers to it. -/
def withEvent (now : Nat) (db : Db) (id : Nat) (change : Job → Job) : Db × Reply :=
  match db.find id with
  | some _ => (db.modify now id change, .done)
  | none => (db, .failed)

def first : List Job → Option Job
  | [] => none
  | job :: rest => match first rest with
    | some best => if best.before job then some best else some job
    | none => some job

def setStatus (status : Status) (job : Job) : Job :=
  { job with status := status, alert := if status = .alert then job.alert else none }

def setAlert (alert : Alert) (job : Job) : Job :=
  { job with status := .alert, alert := some alert, alerts := job.alerts + 1 }

/-- The jobs of a user that were completed last. -/
def completed (db : Db) (createdBy : String) : List Job :=
  ((db.rows.filter fun job => job.status = .completed && job.createdBy = createdBy).mergeSort fun a b =>
    b.updatedAt < a.updatedAt || (b.updatedAt == a.updatedAt && b.createdAt ≤ a.createdAt)).take 200

def handle (now : Nat) (db : Db) : Query → Db × Reply
  | .createJob createdBy tag request alert =>
    let status := if alert.isSome then .alert else .queued
    let alerts := if alert.isSome then 1 else 0
    ({ rows := db.rows ++ [⟨db.next, now, now, tag, createdBy, status, request, alert, alerts⟩], next := db.next + 1 },
      .created db.next)
  | .claim => match first (db.rows.filter fun job => job.status = .queued) with
    | some job => (db.modify now job.id fun job => { job with status := .probing }, .claimed (some job.id))
    | none => (db, .claimed none)
  | .getJob id => (db, .row (db.find id))
  | .getJobForUser id createdBy => (db, .row ((db.find id).filter fun job => job.createdBy = createdBy))
  | .files _ => (db, .done)
  | .completedDownloads createdBy => (db, .rows (db.completed createdBy))
  | .setStatus id status => db.withEvent now id (setStatus status)
  | .setAlert id alert => db.withEvent now id (setAlert alert)
  | .requeue id request => match db.find id with
    | some job =>
      if job.status = .alert then
        (db.modify now id fun job => { job with status := .queued, request := request, alert := none }, .done)
      else (db, .done)
    | none => (db, .done)
  | .updateRequest id request => (db.modify now id fun job => { job with request := request }, .done)
  | .update id => (db.modify now id fun job => job, .done)
  | .insert id => (db, if (db.find id).isSome then .done else .failed)
  | .deleteJob id createdBy =>
    ({ db with rows := db.rows.filter fun job =>
        !(job.id = id && job.createdBy = createdBy && job.status.terminal) }, .done)
  | .clearHistory createdBy =>
    ({ db with rows := db.rows.filter fun job => !(job.createdBy = createdBy && job.status.terminal) }, .done)

/-- Jobs that were under way when the service ended. -/
def markInterrupted (now : Nat) (db : Db) : Db :=
  { db with rows := db.rows.map fun job =>
      if job.status = .probing || job.status = .running || job.status = .postprocessing then
        { job with status := .failed, updatedAt := now }
      else job }

section Handling

variable {db : Db} {now id : Nat} {job : Job} {change : Job → Job}

theorem find_some (found : db.find id = some job) : job ∈ db.rows ∧ job.id = id :=
  ⟨List.mem_of_find?_eq_some found, of_decide_eq_true (@List.find?_some _ (fun job : Job => decide (job.id = id)) _ _ found)⟩

theorem find_isSome : (db.find id).isSome = true ↔ ∃ job ∈ db.rows, job.id = id := by
  simp only [find, List.find?_isSome, decide_eq_true_eq]

theorem mem_modify : job ∈ (db.modify now id change).rows ↔
    (∃ old ∈ db.rows, old.id = id ∧ job = { change old with updatedAt := now }) ∨
      (job ∈ db.rows ∧ job.id ≠ id) := by
  simp only [modify, List.mem_map]
  constructor
  · rintro ⟨old, member, rfl⟩
    by_cases same : old.id = id
    · rw [if_pos same]
      exact Or.inl ⟨old, member, same, rfl⟩
    · rw [if_neg same]
      exact Or.inr ⟨member, same⟩
  · rintro (⟨old, member, same, rfl⟩ | ⟨member, other⟩)
    · exact ⟨old, member, if_pos same⟩
    · exact ⟨job, member, if_neg other⟩

/-- A row is what an event's transaction has made of it, or it is another job's. -/
theorem mem_withEvent (member : job ∈ (db.withEvent now id change).1.rows) :
    ((db.withEvent now id change).2 = .done ∧ ∃ old ∈ db.rows, old.id = id ∧ job = { change old with updatedAt := now }) ∨
      (job ∈ db.rows ∧ job.id ≠ id) := by
  unfold withEvent at member ⊢
  cases found : db.find id with
  | none =>
    rw [found] at member
    have absent := mt find_isSome.mpr (by rw [found]; decide)
    exact Or.inr ⟨member, fun same => absent ⟨job, member, same⟩⟩
  | some _ =>
    rw [found] at member
    exact (mem_modify.mp member).imp_left fun made => ⟨rfl, made⟩

theorem first_mem {jobs : List Job} (found : first jobs = some job) : job ∈ jobs := by
  induction jobs generalizing job with
  | nil => cases found
  | cons head rest ih =>
    unfold first at found
    cases later : first rest with
    | none =>
      rw [later] at found
      exact Option.some.inj found ▸ List.mem_cons_self
    | some best =>
      rw [later] at found
      dsimp only at found
      split at found
      · exact Option.some.inj found ▸ List.mem_cons_of_mem _ (ih later)
      · exact Option.some.inj found ▸ List.mem_cons_self

theorem first_none {jobs : List Job} (nothing : first jobs = none) : jobs = [] := by
  cases jobs with
  | nil => rfl
  | cons head rest =>
    unfold first at nothing
    split at nothing
    · split at nothing <;> cases nothing
    · cases nothing

theorem handle_claim (now : Nat) (db : Db) :
    (db.handle now .claim = (db, .claimed none) ∧ ∀ job ∈ db.rows, job.status ≠ .queued) ∨
      ∃ job ∈ db.rows, job.status = .queued ∧ db.handle now .claim =
        (db.modify now job.id fun job => { job with status := .probing }, .claimed (some job.id)) := by
  unfold handle
  cases found : first (db.rows.filter fun job => job.status = .queued) with
  | none =>
    refine Or.inl ⟨rfl, fun job member queued => ?_⟩
    have kept : job ∈ db.rows.filter fun job => job.status = .queued :=
      List.mem_filter.mpr ⟨member, decide_eq_true queued⟩
    rw [first_none found] at kept
    exact List.not_mem_nil kept
  | some job =>
    have kept := List.mem_filter.mp (first_mem found)
    exact Or.inr ⟨job, kept.1, of_decide_eq_true kept.2, rfl⟩

/-- Where a row that waits for the pump or for the user comes from. -/
theorem handle_open {query : Query} (member : job ∈ (db.handle now query).1.rows)
    (waits : job.status = .queued ∨ job.status = .alert) :
    (∃ old ∈ db.rows, old.id = job.id ∧ (old.status = .queued ∨ old.status = .alert) ∧
        (job.status = .queued → old.status = .queued ∨ ∃ request, query = .requeue job.id request) ∧
        (db.handle now query).2 ≠ .claimed (some job.id)) ∨
      (job.status = .alert ∧ ∃ alert, query = .setAlert job.id alert ∧ (db.handle now query).2 = .done) ∨
      (job.id = db.next ∧ ∃ createdBy tag request alert, query = .createJob createdBy tag request alert ∧
        (job.status = .queued → alert = none)) ∨
      ∃ status, query = .setStatus job.id status ∧ (status = .queued ∨ status = .alert) := by
  have same : job ∈ db.rows → (db.handle now query).2 ≠ .claimed (some job.id) →
      ∃ old ∈ db.rows, old.id = job.id ∧ (old.status = .queued ∨ old.status = .alert) ∧
        (job.status = .queued → old.status = .queued ∨ ∃ request, query = .requeue job.id request) ∧
        (db.handle now query).2 ≠ .claimed (some job.id) :=
    fun old unclaimed => ⟨job, old, rfl, waits, Or.inl, unclaimed⟩
  have touched : ∀ {change : Job → Job}, (∀ old, (change old).status = old.status ∧ (change old).id = old.id) →
      ∀ {id}, job ∈ (db.modify now id change).rows → (db.handle now query).2 ≠ .claimed (some job.id) →
      ∃ old ∈ db.rows, old.id = job.id ∧ (old.status = .queued ∨ old.status = .alert) ∧
        (job.status = .queued → old.status = .queued ∨ ∃ request, query = .requeue job.id request) ∧
        (db.handle now query).2 ≠ .claimed (some job.id) := by
    intro change keeps id changed unclaimed
    rcases mem_modify.mp changed with ⟨old, there, at_id, rfl⟩ | ⟨there, _⟩
    · have status := (keeps old).1
      dsimp only at waits ⊢
      rw [status] at waits ⊢
      exact ⟨old, there, (keeps old).2.symm, waits, Or.inl, unclaimed⟩
    · exact same there unclaimed
  cases query with
  | createJob createdBy tag request alert =>
    rcases List.mem_append.mp member with old | new
    · exact Or.inl (same old nofun)
    · obtain rfl := List.mem_singleton.mp new
      refine Or.inr (Or.inr (Or.inl ⟨rfl, createdBy, tag, request, alert, rfl, fun queued => ?_⟩))
      cases alert with
      | none => rfl
      | some _ => cases queued
  | claim =>
    rcases handle_claim now db with ⟨nothing, none_queued⟩ | ⟨claimed, there, queued, taken⟩
    · rw [nothing] at member
      exact Or.inl (same member (by rw [nothing]; nofun))
    · rw [taken] at member
      rcases mem_modify.mp member with ⟨old, _, _, rfl⟩ | ⟨old, other⟩
      · rcases waits with waits | waits <;> cases waits
      · refine Or.inl (same old ?_)
        rw [taken]
        exact fun equal => other (Option.some.inj (Reply.claimed.inj equal)).symm
  | setStatus id status =>
    rcases mem_withEvent member with ⟨_, old, there, at_id, rfl⟩ | ⟨old, other⟩
    · exact Or.inr (Or.inr (Or.inr ⟨status, congrArg (fun id => Query.setStatus id status) at_id.symm, waits⟩))
    · refine Or.inl (same old ?_)
      unfold handle withEvent
      dsimp only
      split <;> nofun
  | setAlert id alert =>
    rcases mem_withEvent member with ⟨done, old, there, at_id, rfl⟩ | ⟨old, other⟩
    · exact Or.inr (Or.inl ⟨rfl, alert, congrArg (fun id => Query.setAlert id alert) at_id.symm, done⟩)
    · refine Or.inl (same old ?_)
      unfold handle withEvent
      dsimp only
      split <;> nofun
  | requeue id request =>
    unfold handle at member ⊢
    dsimp only at member ⊢
    cases found : db.find id with
    | none =>
      rw [found] at member
      exact Or.inl ⟨job, member, rfl, waits, Or.inl, nofun⟩
    | some row =>
      rw [found] at member
      dsimp only at member ⊢
      by_cases alert : row.status = .alert
      · rw [if_pos alert] at member ⊢
        rcases mem_modify.mp member with ⟨old, there, at_id, rfl⟩ | ⟨old, other⟩
        · have rowId := (find_some found).2
          exact Or.inl ⟨row, (find_some found).1, rowId.trans at_id.symm, Or.inr alert,
            fun _ => Or.inr ⟨request, congrArg (fun id => Query.requeue id request) at_id.symm⟩, nofun⟩
        · exact Or.inl ⟨job, old, rfl, waits, Or.inl, nofun⟩
      · rw [if_neg alert] at member ⊢
        exact Or.inl ⟨job, member, rfl, waits, Or.inl, nofun⟩
  | updateRequest id request =>
    exact Or.inl (@touched (fun job => { job with request := request }) (fun _ => ⟨rfl, rfl⟩) id member nofun)
  | update id => exact Or.inl (@touched (fun job => job) (fun _ => ⟨rfl, rfl⟩) id member nofun)
  | deleteJob id createdBy => exact Or.inl (same (List.mem_filter.mp member).1 nofun)
  | clearHistory createdBy => exact Or.inl (same (List.mem_filter.mp member).1 nofun)
  | insert id =>
    refine Or.inl (same member ?_)
    unfold handle
    dsimp only
    split <;> nofun
  | getJob id => exact Or.inl (same member nofun)
  | getJobForUser id createdBy => exact Or.inl (same member nofun)
  | files id => exact Or.inl (same member nofun)
  | completedDownloads createdBy => exact Or.inl (same member nofun)

/-- A row is one that was there, or the new one. -/
theorem handle_ids {query : Query} (member : job ∈ (db.handle now query).1.rows) :
    (∃ old ∈ db.rows, old.id = job.id) ∨ (job.id = db.next ∧ (db.handle now query).1.next = db.next + 1) := by
  have modified : ∀ {id change}, (∀ old, (change old).id = old.id) → job ∈ (db.modify now id change).rows →
      ∃ old ∈ db.rows, old.id = job.id := by
    intro id change keeps changed
    rcases mem_modify.mp changed with ⟨old, there, _, rfl⟩ | ⟨there, _⟩
    · exact ⟨old, there, (keeps old).symm⟩
    · exact ⟨job, there, rfl⟩
  have evented : ∀ {id change}, (∀ old, (change old).id = old.id) → job ∈ (db.withEvent now id change).1.rows →
      ∃ old ∈ db.rows, old.id = job.id := by
    intro id change keeps changed
    rcases mem_withEvent changed with ⟨_, old, there, _, rfl⟩ | ⟨there, _⟩
    · exact ⟨old, there, (keeps old).symm⟩
    · exact ⟨job, there, rfl⟩
  cases query with
  | createJob createdBy tag request alert =>
    rcases List.mem_append.mp member with old | new
    · exact Or.inl ⟨job, old, rfl⟩
    · exact Or.inr ⟨congrArg Job.id (List.mem_singleton.mp new), rfl⟩
  | claim =>
    rcases handle_claim now db with ⟨nothing, _⟩ | ⟨claimed, _, _, taken⟩
    · rw [nothing] at member
      exact Or.inl ⟨job, member, rfl⟩
    · rw [taken] at member
      exact Or.inl (@modified claimed.id (fun job => { job with status := .probing }) (fun _ => rfl) member)
  | setStatus id status => exact Or.inl (@evented id (setStatus status) (fun _ => rfl) member)
  | setAlert id alert =>
    exact Or.inl (@evented id (setAlert alert) (fun _ => rfl) member)
  | requeue id request =>
    unfold handle at member
    dsimp only at member
    split at member
    · split at member
      · exact Or.inl (@modified id (fun job => { job with status := .queued, request := request, alert := none })
          (fun _ => rfl) member)
      · exact Or.inl ⟨job, member, rfl⟩
    · exact Or.inl ⟨job, member, rfl⟩
  | updateRequest id request =>
    exact Or.inl (@modified id (fun job => { job with request := request }) (fun _ => rfl) member)
  | update id => exact Or.inl (@modified id (fun job => job) (fun _ => rfl) member)
  | deleteJob id createdBy => exact Or.inl ⟨job, (List.mem_filter.mp member).1, rfl⟩
  | clearHistory createdBy => exact Or.inl ⟨job, (List.mem_filter.mp member).1, rfl⟩
  | insert id => exact Or.inl ⟨job, member, rfl⟩
  | getJob id => exact Or.inl ⟨job, member, rfl⟩
  | getJobForUser id createdBy => exact Or.inl ⟨job, member, rfl⟩
  | files id => exact Or.inl ⟨job, member, rfl⟩
  | completedDownloads createdBy => exact Or.inl ⟨job, member, rfl⟩

theorem handle_next (now : Nat) (db : Db) (query : Query) : db.next ≤ (db.handle now query).1.next := by
  cases query with
  | createJob => exact Nat.le_succ _
  | claim =>
    rcases handle_claim now db with ⟨nothing, _⟩ | ⟨claimed, _, _, taken⟩
    · exact Nat.le_of_eq (by rw [nothing])
    · rw [taken]
      exact Nat.le_refl _
  | setStatus id status =>
    unfold handle withEvent
    dsimp only
    split <;> exact Nat.le_refl _
  | setAlert id alert =>
    unfold handle withEvent
    dsimp only
    split <;> exact Nat.le_refl _
  | requeue id request =>
    unfold handle
    dsimp only
    split
    · split <;> exact Nat.le_refl _
    · exact Nat.le_refl _
  | _ => exact Nat.le_refl _

/-- Ids are drawn only once. -/
def Known (db : Db) : Prop := ∀ job ∈ db.rows, job.id < db.next

theorem Known.handle (known : db.Known) (now : Nat) (query : Query) : (db.handle now query).1.Known := by
  intro job member
  rcases handle_ids member with ⟨old, there, same⟩ | ⟨new, next⟩
  · exact Nat.lt_of_lt_of_le (same ▸ known old there) (handle_next now db query)
  · omega

end Handling

end Db

end NixHomeServer.Downloader
