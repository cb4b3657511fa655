import NixHomeServer.Library.Runs
import NixHomeServer.Browsertrix.Worker

/-! What a request can do to a row of the queue, and the facts about rows that no request undoes. -/
namespace NixHomeServer.Browsertrix

open NixHomeServer.Library

/-- A row keeps its discard mark and its status together, and a mark for clean-up comes with them. -/
structure RowOk (job : Job) : Prop where
  discarded : job.runtime.control = some .discard ↔ job.status = .cancelling ∨ job.status = .cancelled
  final : job.runtime.control = some .discard → job.runtime.canResume = false
  flagged : job.discardCleanupPending = true → job.runtime.control = some .discard

/-- What one request can make of a row. -/
inductive Requested (job : Job) : Job → Prop
  | same : Requested job job
  | controlled (control : Control) (accepted : job.status = .queued ∨ job.status = .starting ∨ job.status = .running)
      (capture : job.runtime.operation.isCapture = true) (stop : control ≠ .discard) :
      Requested job (job.controlled control)
  | resumed (request : CreateJobRequest) (kept : job.runtime.control ≠ some .discard)
      (accepted : job.status = .partly ∨ job.status = .paused) (same : request.url = job.request.url) :
      Requested job (job.resumed request)
  | ended (accepted : job.status = .queued ∨ job.status = .paused ∨ job.status = .partly) :
      Requested job (job.discarded .cancelled)
  | ending (accepted : job.status = .starting ∨ job.status = .running) :
      Requested job (job.discarded .cancelling)

/-- A row that an insert has just made. -/
structure Fresh (job : Job) : Prop where
  status : job.status = .queued
  runtime : job.runtime = { operation := job.runtime.operation }
  unflagged : job.discardCleanupPending = false

theorem Job.new_fresh (now : Nat) (owner : String) (request : CreateJobRequest) (operation : Operation) :
    Fresh (Job.new now owner request operation) := ⟨rfl, rfl, rfl⟩

theorem Fresh.ok {job : Job} (fresh : Fresh job) : RowOk job := by
  have control : job.runtime.control = none := by rw [fresh.runtime]
  constructor
  · rw [control, fresh.status]
    simp
  · rw [control]
    intro impossible
    cases impossible
  · rw [fresh.unflagged]
    intro impossible
    cases impossible

theorem Requested.ok {job job' : Job} (ok : RowOk job) (requested : Requested job job') : RowOk job' := by
  cases requested with
  | same => exact ok
  | controlled control accepted _ stop =>
    have other : some control ≠ some Control.discard := fun same => stop (Option.some.inj same)
    constructor
    · constructor
      · exact fun same => absurd same other
      · intro ended
        exfalso
        rcases accepted with status | status | status <;> simp [Job.controlled, status] at ended
    · exact fun same => absurd same other
    · intro impossible
      cases impossible
  | resumed request kept accepted same =>
    constructor
    · simp [Job.resumed, Job.store]
    · intro impossible
      cases impossible
    · intro impossible
      cases impossible
  | ended accepted => exact ⟨⟨fun _ => Or.inr rfl, fun _ => rfl⟩, fun _ => rfl, fun _ => rfl⟩
  | ending accepted => exact ⟨⟨fun _ => Or.inl rfl, fun _ => rfl⟩, fun _ => rfl, fun _ => rfl⟩

/-- The rows after some step that only requests take part in. -/
structure Requests (db db' : Db) : Prop where
  next : db.jobs.next ≤ db'.jobs.next
  rows : ∀ id job', db'.jobs.get id = some job' →
    (∃ job, db.jobs.get id = some job ∧ Requested job job') ∨ (db.jobs.next ≤ id ∧ Fresh job')
  kept : ∀ id job, db.jobs.get id = some job → job.deletable = true ∨ ∃ job', db'.jobs.get id = some job'
  intents : db'.intents.next = db.intents.next
  invalidated : ∀ id intent, db.intents.get id = some intent →
    db'.intents.get id = some intent ∨
      (intent.completed = .pending ∧ db'.intents.get id = some { intent with completed := .invalidated } ∧
        ∃ owner job, intent.jobId = some owner ∧ db.jobs.get owner = some job ∧ job.status ≠ .packaging)
  absent : ∀ id, db.intents.get id = none → db'.intents.get id = none
  discards : ∀ id job job', db.jobs.get id = some job → db'.jobs.get id = some job' →
    job.runtime.control ≠ some .discard → job'.runtime.control = some .discard →
    ∀ a intent, db'.intents.get a = some intent → intent.jobId = some id → intent.completed ≠ .pending
  archives : ∀ id, db.archives id = none → db'.archives id = none

theorem Requests.refl (db : Db) : Requests db db where
  next := Nat.le_refl _
  rows _ job' found := Or.inl ⟨job', found, .same⟩
  kept _ job found := Or.inr ⟨job, found⟩
  intents := rfl
  invalidated _ _ found := Or.inl found
  absent _ none := none
  discards id job job' before after kept discarded := by
    cases before.symm.trans after
    exact absurd discarded kept
  archives _ none := none

/-- A change of one row that a request can make without a discard. -/
theorem Requests.modify {db : Db} {id : Nat} {job : Job} {f : Job → Job} (found : db.jobs.get id = some job)
    (requested : Requested job (f job)) (calm : (f job).runtime.control ≠ some .discard) :
    Requests db (db.modifyJob id f) where
  next := Nat.le_refl _
  rows x job' found' := by
    obtain ⟨old, was, rfl⟩ := Table.get_modify_cases _ _ _ _ _ found'
    refine Or.inl ⟨old, was, ?_⟩
    split
    · rename_i same
      subst same
      cases found.symm.trans was
      exact requested
    · exact .same
  kept _ _ there := Or.inr (Table.exists_get_modify _ _ _ there)
  intents := rfl
  invalidated _ _ there := Or.inl there
  absent _ none := none
  discards x old job' before after kept discarded := by
    obtain ⟨was, there, rfl⟩ := Table.get_modify_cases _ _ _ _ _ after
    cases before.symm.trans there
    split at discarded
    · rename_i same
      subst same
      cases found.symm.trans before
      exact absurd discarded calm
    · exact absurd discarded kept
  archives _ none := none

/-- New rows, and nothing else. -/
structure Inserted (db db' : Db) : Prop where
  next : db.jobs.next ≤ db'.jobs.next
  kept : ∀ id job, db.jobs.get id = some job → db'.jobs.get id = some job
  rows : ∀ id job, db'.jobs.get id = some job →
    db.jobs.get id = some job ∨ (db.jobs.next ≤ id ∧ Fresh job)
  intents : db'.intents = db.intents
  archives : db'.archives = db.archives

theorem Inserted.refl (db : Db) : Inserted db db where
  next := Nat.le_refl _
  kept _ _ found := found
  rows _ _ found := Or.inl found
  intents := rfl
  archives := rfl

theorem Inserted.insert (db : Db) {job : Job} (fresh : Fresh job) : Inserted db (db.insertJob job) where
  next := Nat.le_succ _
  kept id old found := Table.get_insert_of_get _ _ id old found
  rows id new found := by
    rcases Table.get_insert_cases _ _ _ _ found with old | ⟨rfl, rfl⟩
    · exact Or.inl old
    · exact Or.inr ⟨Nat.le_refl _, fresh⟩
  intents := rfl
  archives := rfl

theorem Inserted.trans {a b c : Db} (first : Inserted a b) (second : Inserted b c) : Inserted a c where
  next := Nat.le_trans first.next second.next
  kept id job found := second.kept id job (first.kept id job found)
  rows id job found := by
    rcases second.rows id job found with there | ⟨high, fresh⟩
    · exact first.rows id job there
    · exact Or.inr ⟨Nat.le_trans first.next high, fresh⟩
  intents := second.intents.trans first.intents
  archives := second.archives.trans first.archives

theorem Inserted.requests {db db' : Db} (inserted : Inserted db db') : Requests db db' where
  next := inserted.next
  rows id job found := by
    rcases inserted.rows id job found with old | fresh
    · exact Or.inl ⟨job, old, .same⟩
    · exact Or.inr fresh
  kept id job found := Or.inr ⟨job, inserted.kept id job found⟩
  intents := by rw [inserted.intents]
  invalidated id intent found := Or.inl (by rw [inserted.intents]; exact found)
  absent id none := by rw [inserted.intents]; exact none
  discards id job job' before after kept discarded := by
    cases (inserted.kept id job before).symm.trans after
    exact absurd discarded kept
  archives id none := by rw [inserted.archives]; exact none

theorem createUniqueCapture_inserted (db : Db) (now : Nat) (owner : String) (request : CreateJobRequest) :
    Inserted db (createUniqueCapture db now owner request).1 := by
  unfold createUniqueCapture
  split
  · exact .insert db (Job.new_fresh ..)
  · exact .refl db

theorem queueBatch_inserted (db : Db) (now : Nat) (owner : String) (requests : List CreateJobRequest) :
    Inserted db (queueBatch db now owner requests) := by
  induction requests generalizing db with
  | nil => exact .refl db
  | cons request rest ih => exact (Inserted.insert db (Job.new_fresh ..)).trans (ih _)

theorem queueOperation_inserted (db : Db) (now : Nat) (owner : String) (request : CreateJobRequest)
    (operation : Operation) : Inserted db (queueOperation db now owner request operation) :=
  .insert db (Job.new_fresh ..)

theorem dispatchOne_inserted (now : Nat) (dispatched : Db × Nat) (due : Nat × Schedule) :
    Inserted dispatched.1 (dispatchOne now dispatched due).1 := by
  have plain : ∀ (db : Db) (schedules : Table Schedule), Inserted db { db with schedules := schedules } :=
    fun db _ => ⟨Nat.le_refl _, fun _ _ found => found, fun _ _ found => Or.inl found, rfl, rfl⟩
  obtain ⟨db, count⟩ := dispatched
  obtain ⟨id, schedule⟩ := due
  simp only [dispatchOne]
  split
  · exact .refl _
  · split
    · exact plain _ _
    · split
      · exact plain _ _
      · exact (Inserted.insert _ (Job.new_fresh ..)).trans (plain _ _)

theorem dispatchDueSchedules_inserted (db : Db) (now : Nat) :
    Inserted db (dispatchDueSchedules db now).1 := by
  unfold dispatchDueSchedules
  generalize ((db.schedules.select _).take 10) = due
  have all : ∀ dispatched : Db × Nat, Inserted dispatched.1 (due.foldl (dispatchOne now) dispatched).1 := by
    induction due with
    | nil => exact fun dispatched => .refl _
    | cons first rest ih => exact fun dispatched => (dispatchOne_inserted now dispatched first).trans (ih _)
  exact all (db, 0)

theorem requestControl_requests (db : Db) (id : Nat) (owner : String) (control : Control)
    (stop : control ≠ .discard) : Requests db ((requestControl db id owner control).getD db) := by
  unfold requestControl
  cases found : db.jobs.get id with
  | none => exact .refl db
  | some job =>
    by_cases other : job.createdBy ≠ owner
    · simp only [if_pos other]
      exact .refl db
    simp only [if_neg other]
    cases capture : job.runtime.operation.isCapture with
    | false =>
      cases status : job.status <;> exact .refl db
    | true =>
      have accept (accepted : job.status = .queued ∨ job.status = .starting ∨ job.status = .running) :
          Requests db (db.modifyJob id fun job => job.controlled control) :=
        .modify (f := fun job => job.controlled control) found (.controlled control accepted capture stop)
          (fun same => stop (Option.some.inj same))
      cases status : job.status with
      | queued => exact accept (Or.inl status)
      | starting => exact accept (Or.inr (Or.inl status))
      | running => exact accept (Or.inr (Or.inr status))
      | _ => exact .refl db

theorem Job.extended_accepted {job : Job} {ext : ResumeOptions} {request : CreateJobRequest}
    (extended : job.extended ext = some request) :
    job.runtime.control ≠ some .discard ∧ (job.status = .partly ∨ job.status = .paused) ∧
      request.url = job.request.url := by
  unfold Job.extended at extended
  split at extended
  · cases extended
  · rename_i accepted
    have kept : job.runtime.control ≠ some .discard := fun same => accepted (Or.inl same)
    have status : job.status = .partly ∨ job.status = .paused := by
      by_contra other
      exact accepted (Or.inr (Or.inl other))
    simp only [] at extended
    split at extended
    · cases extended
    split at extended
    · cases extended
    split at extended
    · cases extended
    · cases extended
      exact ⟨kept, status, rfl⟩

theorem resume_requests (db : Db) (id : Nat) (owner : String) (ext : ResumeOptions) :
    Requests db ((Browsertrix.resume db id owner ext).getD db) := by
  unfold Browsertrix.resume
  cases found : db.jobs.get id with
  | none => exact .refl db
  | some job =>
    by_cases other : job.createdBy ≠ owner
    · simp only [if_pos other]
      exact .refl db
    simp only [if_neg other]
    cases extended : job.extended ext with
    | none => exact .refl db
    | some request =>
      obtain ⟨kept, accepted, same⟩ := Job.extended_accepted extended
      exact .modify (f := fun job => job.resumed request) found (.resumed request kept accepted same)
        (fun impossible => by cases impossible)

theorem Requests.discard {db : Db} {id : Nat} {job : Job} {next : JobStatus} (found : db.jobs.get id = some job)
    (requested : Requested job (job.discarded next)) (status : job.status ≠ .packaging) :
    Requests db { db with
      jobs := db.jobs.modify id fun job => job.discarded next
      intents := db.intents.mapRows fun _ intent => intent.invalidated id } where
  next := Nat.le_refl _
  rows x job' found' := by
    obtain ⟨old, was, rfl⟩ := Table.get_modify_cases _ _ _ _ _ found'
    refine Or.inl ⟨old, was, ?_⟩
    split
    · rename_i same
      subst same
      cases found.symm.trans was
      exact requested
    · exact .same
  kept _ _ there := Or.inr (Table.exists_get_modify _ _ _ there)
  intents := rfl
  invalidated x intent there := by
    simp only [Table.get_mapRows, there, Option.map_some, PublicationIntent.invalidated]
    split
    · rename_i both
      exact Or.inr ⟨both.1, rfl, id, job, both.2, found, status⟩
    · exact Or.inl rfl
  absent x none := by simp only [Table.get_mapRows, none, Option.map_none]
  discards x old job' before after kept discarded a intent there owned pending := by
    obtain ⟨was, unchanged, rfl⟩ := Table.get_modify_cases _ _ _ _ _ after
    cases before.symm.trans unchanged
    split at discarded
    · rename_i same
      subst same
      simp only [Table.get_mapRows] at there
      obtain ⟨stored, _, rfl⟩ := Option.map_eq_some_iff.mp there
      unfold PublicationIntent.invalidated at owned pending
      split at pending
      · cases pending
      · rename_i other
        rw [if_neg other] at owned
        exact other ⟨pending, owned⟩
    · exact absurd discarded kept
  archives _ none := none

theorem requestCancel_requests (db : Db) (id : Nat) : Requests db (requestCancel db id).1 := by
  unfold requestCancel
  cases found : db.jobs.get id with
  | none => exact .refl db
  | some job =>
    simp only []
    cases status : job.status with
    | queued => exact .discard found (.ended (Or.inl status)) (by simp [status])
    | paused => exact .discard found (.ended (Or.inr (Or.inl status))) (by simp [status])
    | partly => exact .discard found (.ended (Or.inr (Or.inr status))) (by simp [status])
    | starting => exact .discard found (.ending (Or.inl status)) (by simp [status])
    | running => exact .discard found (.ending (Or.inr status)) (by simp [status])
    | _ => exact .refl db

theorem Requests.filter (db : Db) (keep : Nat → Job → Bool)
    (old : ∀ id job, db.jobs.get id = some job → keep id job = false → job.deletable = true) :
    Requests db { db with jobs := db.jobs.filterRows keep } where
  next := Nat.le_refl _
  rows _ job' found := Or.inl ⟨job', ((Table.get_filterRows _ _ _ _).mp found).1, .same⟩
  kept x job found := by
    cases kept : keep x job with
    | false => exact Or.inl (old x job found kept)
    | true => exact Or.inr ⟨job, (Table.get_filterRows _ _ _ _).mpr ⟨found, kept⟩⟩
  intents := rfl
  invalidated _ _ there := Or.inl there
  absent _ none := none
  discards x job job' before after kept discarded := by
    cases before.symm.trans ((Table.get_filterRows _ _ _ _).mp after).1
    exact absurd discarded kept
  archives _ none := none

theorem deleteJob_requests (db : Db) (id : Nat) (owner : String) : Requests db (deleteJob db id owner).1 := by
  unfold deleteJob
  cases found : db.jobs.get id with
  | none => exact .refl db
  | some job =>
    by_cases old : job.createdBy = owner ∧ job.deletable = true
    · simp only [if_pos old]
      apply Requests.filter
      intro x other there removed
      have same : x = id := by simpa using removed
      subst same
      cases found.symm.trans there
      exact old.2
    · simp only [if_neg old]
      exact .refl db

theorem clearHistory_requests (db : Db) (owner : String) : Requests db (clearHistory db owner) := by
  apply Requests.filter
  intro x job _ removed
  simp only [Bool.not_eq_false', Bool.and_eq_true] at removed
  exact removed.2

end NixHomeServer.Browsertrix
