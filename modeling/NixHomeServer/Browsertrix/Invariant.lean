import NixHomeServer.Browsertrix.Phases

/-! What a step of the worker can do to a row and to an intent, and that every event of the system
keeps the facts of the queue and of the worker's place. -/
namespace NixHomeServer.Browsertrix

open NixHomeServer.Library

/-- What one step of the worker can make of a row; `gone` is the absence of its checkpoint directory,
`admits` that the worker admits an intent of this job, `records` the status that it sets. -/
inductive Worked (gone admits : Prop) (records : Option JobStatus) (job : Job) : Job → Prop
  | same : Worked gone admits records job job
  | claimed (queued : job.status = .queued) : Worked gone admits records job { job with status := .starting }
  | begun (rt : JobRuntime) (starting : job.status = .starting) (free : ¬Discarded job)
      (control : rt.control = none) (fresh : rt.canResume = false) (kind : rt.operation = job.runtime.operation) :
      Worked gone admits records job { job.store rt with status := .running }
  | preserved (rt : JobRuntime) (place : Running job ∨ Recovered job)
      (kind : rt.operation = job.runtime.operation) : Worked gone admits records job (job.preserving rt)
  | frozen (rt : JobRuntime) (running : job.status = .running) (free : ¬Discarded job)
      (control : rt.control = job.runtime.control) (kind : rt.operation = job.runtime.operation) :
      Worked gone admits records job { job.store rt with status := .packaging }
  | operating (starting : job.status = .starting) (free : ¬Discarded job) :
      Worked gone admits records job { job with status := .packaging }
  | dropped (discarded : Discarded job) : Worked gone admits records job { job with status := .cancelled }
  | refused (discarded : Discarded job) : Worked gone admits records job { job with
      status := .cancelled
      runtime := { job.runtime with control := some .discard, canResume := false }
      discardCleanupPending := true }
  | admitted (here : admits) (free : ¬Discarded job) : Worked gone admits records job { job with status := .packaging }
  | finalized (a : Nat) (intent : PublicationIntent) (here : records = some intent.finalStatus)
      (packaging : Packaging job) (final : Final intent.finalStatus) :
      Worked gone admits records job (job.finalized a intent)
  | stored (rt : JobRuntime) (place : Packaging job ∨ Finished job ∧ rt.canResume = false)
      (control : rt.control ≠ some .discard) (kind : rt.operation = job.runtime.operation) :
      Worked gone admits records job (job.store rt)
  | status (status : JobStatus) (here : records = some status)
      (other : status = .paused ∨ status = .completed ∨ status = .failed) (free : ¬Discarded job) : Worked gone admits records job { job with status := status }
  | interrupted (here : records = some (if 0 < job.runtime.attempt then .paused else .failed))
      (alive : job.status = .starting ∨ job.status = .running ∨ job.status = .packaging)
      (free : ¬Discarded job) :
      Worked gone admits records job { job with status := if 0 < job.runtime.attempt then .paused else .failed }
  | restored (saved : String) (paused : job.status = .paused) (free : ¬Discarded job) :
      Worked gone admits records job { job with runtime := { job.runtime with
        canResume := true, resumeConfig := some saved, stopReason := some .workerRestart } }
  | cleaned (empty : gone) (discarded : Discarded job) : Worked gone admits records job { job with
      runtime := { job.runtime with
        canResume := false, resumeConfig := none, attemptDeadline := none, stopReason := some .discard }
      discardCleanupPending := false }

section Rows

variable {gone admits : Prop} {records : Option JobStatus} {job job' : Job}

theorem Worked.ok (ok : RowOk job) (worked : Worked gone admits records job job') : RowOk job' := by
  have plain : ∀ {job : Job}, ¬Discarded job → job.status ≠ .cancelling → job.status ≠ .cancelled →
      job.discardCleanupPending = false → RowOk job := by
    intro job free first second unflagged
    constructor
    · constructor
      · exact fun same => absurd same free
      · rintro (same | same)
        · exact absurd same first
        · exact absurd same second
    · exact fun same => absurd same free
    · rw [unflagged]
      intro impossible
      cases impossible
  have clean : ¬Discarded job → job.discardCleanupPending = false := by
    intro free
    cases flag : job.discardCleanupPending with
    | false => rfl
    | true => exact absurd (ok.flagged flag) free
  have discard : ∀ {job : Job}, Discarded job → job.status = .cancelled → job.runtime.canResume = false →
      RowOk job := fun discarded status final =>
    ⟨⟨fun _ => Or.inr status, fun _ => discarded⟩, fun _ => final, fun _ => discarded⟩
  cases worked with
  | same => exact ok
  | claimed queued =>
    have free : ¬Discarded job := fun discarded => by
      rcases ok.discarded.mp discarded with status | status <;> simp [queued] at status
    exact plain free (by simp) (by simp) (clean free)
  | begun rt starting free control _ _ =>
    exact plain (by simp [Discarded, Job.store, control]) (by simp) (by simp) rfl
  | preserved rt _ _ =>
    refine ⟨ok.discarded, ?_, ok.flagged⟩
    intro discarded
    have same : job.runtime.control = some .discard := discarded
    simp only [Job.preserving, same, if_true]
  | frozen rt running free control _ =>
    have kept : ¬Discarded { job.store rt with status := .packaging } := fun discarded =>
      free (control.symm.trans discarded)
    exact plain kept (by simp) (by simp) rfl
  | operating _ free => exact plain free (by simp) (by simp) (clean free)
  | dropped discarded => exact discard discarded rfl (ok.final discarded)
  | refused discarded => exact discard rfl rfl rfl
  | admitted _ free => exact plain free (by simp) (by simp) (clean free)
  | finalized a intent _ packaging final =>
    have status : job.status = .packaging := packaging
    have free : ¬Discarded job := fun discarded => by
      rcases ok.discarded.mp discarded with same | same <;> simp [status] at same
    unfold Job.finalized
    split
    · rcases final with same | same | same <;> exact plain free (by simp [same]) (by simp [same]) rfl
    · exact ok
  | stored rt place control _ =>
    have status : job.status ≠ .cancelling ∧ job.status ≠ .cancelled := by
      rcases place with packaging | ⟨finished, _⟩
      · have status : job.status = .packaging := packaging
        simp [status]
      · have status : job.status = .completed := finished
        simp [status]
    exact plain control status.1 status.2 rfl
  | status status _ other free =>
    rcases other with rfl | rfl | rfl <;> exact plain free (by simp) (by simp) (clean free)
  | interrupted _ _ free =>
    refine plain free ?_ ?_ (clean free)
    · show (if 0 < job.runtime.attempt then JobStatus.paused else .failed) ≠ .cancelling
      split <;> simp
    · show (if 0 < job.runtime.attempt then JobStatus.paused else .failed) ≠ .cancelled
      split <;> simp
  | restored saved paused free => exact ⟨ok.discarded, fun discarded => absurd discarded free, ok.flagged⟩
  | cleaned empty discarded =>
    exact ⟨ok.discarded, fun _ => rfl, fun impossible => by cases impossible⟩

theorem Worked.discarded (worked : Worked gone admits records job job') (ok : RowOk job) : Discarded job' ↔ Discarded job := by
  cases worked with
  | begun rt _ free control _ _ =>
    constructor
    · intro discarded
      cases control.symm.trans discarded
    · exact fun discarded => absurd discarded free
  | frozen rt _ free control _ =>
    simp only [Discarded, Job.store, control]
  | finalized a intent _ packaging final =>
    unfold Job.finalized
    split <;> exact Iff.rfl
  | stored rt place control _ =>
    have free : ¬Discarded job := by
      intro discarded
      rcases ok.discarded.mp discarded with status | status <;> rcases place with same | ⟨same, _⟩
      · exact absurd (status.symm.trans same) (by simp)
      · exact absurd (status.symm.trans same) (by simp)
      · exact absurd (status.symm.trans same) (by simp)
      · exact absurd (status.symm.trans same) (by simp)
    constructor
    · exact fun same => absurd same control
    · exact fun discarded => absurd discarded free
  | refused discarded => exact ⟨fun _ => discarded, fun _ => rfl⟩
  | _ => exact Iff.rfl

/-- No step of the worker changes whose job a row is, what it archives or how. -/
theorem Worked.identity (worked : Worked gone admits records job job') :
    job'.createdBy = job.createdBy ∧ job'.request = job.request ∧
      job'.runtime.operation = job.runtime.operation := by
  cases worked with
  | begun rt _ _ _ _ kind => exact ⟨rfl, rfl, kind⟩
  | preserved rt _ kind => exact ⟨rfl, rfl, kind⟩
  | frozen rt _ _ _ kind => exact ⟨rfl, rfl, kind⟩
  | stored rt _ _ kind => exact ⟨rfl, rfl, kind⟩
  | finalized a intent _ _ _ =>
    unfold Job.finalized
    split <;> exact ⟨rfl, rfl, rfl⟩
  | _ => exact ⟨rfl, rfl, rfl⟩

/-- A mark for clean-up goes only with the directory gone. -/
theorem Worked.flagged (worked : Worked gone admits records job job') (ok : RowOk job)
    (flagged : job.discardCleanupPending = true) : job'.discardCleanupPending = true ∨ gone := by
  have discarded : Discarded job := ok.flagged flagged
  have ended := ok.discarded.mp discarded
  cases worked with
  | begun _ _ free _ _ _ => exact absurd discarded free
  | frozen _ _ free _ _ => exact absurd discarded free
  | finalized _ _ _ packaging _ =>
    have status : job.status = .packaging := packaging
    simp [status] at ended
  | stored _ place _ _ =>
    rcases place with same | ⟨same, _⟩
    · have status : job.status = .packaging := same
      simp [status] at ended
    · have status : job.status = .completed := same
      simp [status] at ended
  | refused _ => exact Or.inl rfl
  | cleaned empty _ => exact Or.inr empty
  | _ => exact Or.inl flagged

end Rows

/-- The job whose intent the worker is about to take up. -/
def Pc.admits : Pc → Nat → Prop
  | .admitting _ intent _ => fun id => intent.jobId = some id
  | _ => fun _ => False

theorem Pc.admits_iff {pc : Pc} {id : Nat} :
    pc.admits id ↔ ∃ a intent k, pc = .admitting a intent k ∧ intent.jobId = some id := by
  constructor
  · intro admits
    cases pc with
    | admitting a intent k => exact ⟨a, intent, k, rfl, admits⟩
    | _ => exact admits.elim
  · rintro ⟨a, intent, k, rfl, here⟩
    exact here

/-- The status that the worker is about to set of a job, where the job was not discarded. -/
def Pc.records : Pc → Nat → Job → Option JobStatus
  | .finalize _ intent _, id, _ => if intent.jobId = some id then some intent.finalStatus else none
  | .status x next _, id, _ => if x = id then some next else none
  | .fail x, id, _ => if x = id then some .failed else none
  | .interrupt, _, job =>
    match job.status with
    | .starting | .running | .packaging => some (if 0 < job.runtime.attempt then .paused else .failed)
    | _ => none
  | _, _, _ => none

/-- What one step of the worker at a place can do to the queue and the catalogue. -/
structure Works (directories : Nat → Option (Option String)) (pc : Pc) (db db' : Db) : Prop where
  next : db.jobs.next ≤ db'.jobs.next
  rows : ∀ id job', db'.jobs.get id = some job' →
    (∃ job, db.jobs.get id = some job ∧ Worked (directories id = none) (pc.admits id) (pc.records id job) job job') ∨
      (pc = .dispatch ∧ db.jobs.next ≤ id ∧ Fresh job')
  kept : ∀ id job, db.jobs.get id = some job → ∃ job', db'.jobs.get id = some job'
  intents : ∀ a intent', db'.intents.get a = some intent' →
    (∃ intent, db.intents.get a = some intent ∧ intent'.jobId = intent.jobId ∧
      intent'.finalStatus = intent.finalStatus ∧
      (intent'.completed = .pending → intent.completed = .pending)) ∨
    (Final intent'.finalStatus ∧ ∀ id, intent'.jobId = some id →
      id < db.jobs.next ∧ ∃ job, db.jobs.get id = some job ∧ ¬Discarded job)
  archives : ∀ a, db.archives a = none → db'.archives a ≠ none →
    ∃ intent, db.intents.get a = some intent ∧ intent.completed = .pending

section Steps

variable {directories : Nat → Option (Option String)} {pc : Pc} {db db' : Db} {id x : Nat}

theorem Works.refl : Works directories pc db db where
  next := Nat.le_refl _
  rows _ job' found := Or.inl ⟨job', found, .same⟩
  kept _ job found := ⟨job, found⟩
  intents _ intent' found := Or.inl ⟨intent', found, rfl, rfl, fun same => same⟩
  archives _ none some := absurd none some

theorem Works.modify {f : Job → Job}
    (worked : ∀ job, db.jobs.get id = some job → Worked (directories id = none) (pc.admits id) (pc.records id job) job (f job)) :
    Works directories pc db (db.modifyJob id f) where
  next := Nat.le_refl _
  rows y job' found := by
    obtain ⟨job, was, rfl⟩ := Table.get_modify_cases _ _ _ _ _ found
    refine Or.inl ⟨job, was, ?_⟩
    split
    · rename_i same
      subst same
      exact worked job was
    · exact .same
  kept _ _ found := Table.exists_get_modify _ _ _ found
  intents _ intent' found := Or.inl ⟨intent', found, rfl, rfl, fun same => same⟩
  archives _ none some := absurd none some

theorem Inserted.works (inserted : Inserted db db') (dispatching : pc = .dispatch) :
    Works directories pc db db' where
  next := inserted.next
  rows y job' found := by
    rcases inserted.rows y job' found with old | fresh
    · exact Or.inl ⟨job', old, .same⟩
    · exact Or.inr ⟨dispatching, fresh⟩
  kept y job found := ⟨job, inserted.kept y job found⟩
  intents a intent' found := by
    rw [inserted.intents] at found
    exact Or.inl ⟨intent', found, rfl, rfl, fun same => same⟩
  archives a none some := by
    rw [inserted.archives] at some
    exact absurd none some

theorem Holds.works {p : Job → Prop} (works : Works directories pc db db') (held : Holds db x p)
    (kept : ∀ job job', db.jobs.get x = some job → Worked (directories x = none) (pc.admits x) (pc.records x job) job job' → p job → p job') :
    Holds db' x p := by
  refine ⟨Nat.lt_of_lt_of_le held.1 works.next, ?_⟩
  intro job' found
  rcases works.rows x job' found with ⟨job, was, worked⟩ | ⟨_, high, _⟩
  · exact kept job job' was worked (held.2 job was)
  · exact absurd held.1 (Nat.not_lt.mpr high)

theorem Holds.works_discarded (ok : DbOk db) (works : Works directories pc db db') (held : Holds db x Discarded) :
    Holds db' x Discarded :=
  held.works works fun job _ found worked discarded => (worked.discarded (ok.rows x job found)).mpr discarded

theorem Holds.works_kind {operation : Operation} (works : Works directories pc db db')
    (held : Holds db x (OfKind operation)) : Holds db' x (OfKind operation) :=
  held.works works fun _ _ _ worked kind => worked.identity.2.2.trans kind

theorem DbOk.works (ok : DbOk db) (works : Works directories pc db db') : DbOk db' where
  rows y job' found := by
    rcases works.rows y job' found with ⟨job, was, worked⟩ | ⟨_, _, fresh⟩
    · exact worked.ok (ok.rows y job was)
    · exact fresh.ok
  finals a intent' found := by
    rcases works.intents a intent' found with ⟨intent, was, _, same, _⟩ | ⟨final, _⟩
    · rw [same]
      exact ok.finals a intent was
    · exact final
  owned a intent' found y owner := by
    rcases works.intents a intent' found with ⟨intent, was, same, _⟩ | ⟨_, fresh⟩
    · exact Nat.lt_of_lt_of_le (ok.owned a intent was y (same.symm.trans owner)) works.next
    · exact Nat.lt_of_lt_of_le (fresh y owner).1 works.next

end Steps

/-- One step of the worker: what it can do to the queue, and the facts of the place it reaches. -/
structure Stepped (s s' : System) : Prop where
  works : Works s.directories s.pc s.db s'.db
  pc : PcOk s'.db s'.directories s'.pc

section Publication

variable {s : System} {a : Nat} {intent : PublicationIntent} {k : Return} {db : Db}

theorem Return.Ok.job (before : k.Ok db a intent) {id : Nat} (same : k.failed = .fail id) :
    id < db.jobs.next := by
  cases k with
  | boot _ => cases same
  | reconcile _ _ =>
    cases same
    exact before
  | captured _ _ _ =>
    cases same
    exact (before.2.2.2.2.2 id before.1).1
  | operated _ =>
    cases same
    exact (before.2.2 id before.1).1

theorem Return.Ok.failed (before : k.Ok db a intent)
    (directories : Nat → Option (Option String)) : PcOk db directories k.failed := by
  cases k with
  | boot _ => trivial
  | _ => exact before.job rfl

theorem Admitted.packaging (admitted : Admitted db a intent) {id : Nat} (owner : intent.jobId = some id) :
    Holds db id Packaging := (admitted.2 id owner).mono fun _ both => both.1

theorem Known.pending (known : Known db a intent)
    (pending : (db.intents.get a).any (fun stored => stored.completed == .pending) = true) :
    db.intents.get a = some { intent with completed := .pending } := by
  obtain ⟨completed, found⟩ := known
  simp only [found, Option.any_some, beq_iff_eq] at pending
  rw [found, pending]

theorem admit_stepped (ok : DbOk s.db) (at_pc : s.pc = .admitting a intent k) (known : Known s.db a intent)
    (before : k.Ok s.db a intent) (sha256 : Content → String) (now : Nat) (input : Input) :
    Stepped s (work sha256 s now input) := by
  simp only [work, at_pc]
  cases result : admitPendingPublication s.db a intent with
  | none => exact ⟨.refl, before.failed _⟩
  | some both =>
    obtain ⟨db, admission⟩ := both
    unfold admitPendingPublication at result
    split at result
    case isFalse =>
      cases result
      refine ⟨.refl, ?_⟩
      rename_i gone
      have lost : ¬Admitted s.db a intent := fun admitted => gone (by simp [admitted.1])
      cases k with
      | boot _ => trivial
      | reconcile _ _ => exact before
      | captured _ _ _ => exact absurd before.2.2.2.2 lost
      | operated _ => exact absurd before.2 lost
    case isTrue pending =>
      have stored := known.pending pending
      have finish : Works s.directories s.pc s.db db →
          (∀ id, intent.jobId = some id →
            Holds db id (fun job => Packaging job ∧ job.createdBy = intent.archive.createdBy)) →
          db.intents = s.db.intents → Stepped s { s with db := db, pc := .place .destination a intent k } := by
        intro works packaging same
        have admitted : Admitted db a intent := ⟨by rw [same]; exact stored, packaging⟩
        refine ⟨works, admitted, ?_⟩
        cases k with
        | boot _ => trivial
        | reconcile id _ => exact Nat.lt_of_lt_of_le before works.next
        | captured id rt final =>
          exact ⟨before.1, before.2.1, before.2.2.1, before.2.2.2.1.works_kind works, admitted⟩
        | operated id => exact ⟨before.1, admitted⟩
      cases owner : intent.jobId with
      | none =>
        simp only [owner, Option.some.injEq, Prod.mk.injEq] at result
        obtain ⟨rfl, rfl⟩ := result
        exact finish .refl (fun id same => by cases owner.symm.trans same) rfl
      | some id =>
        simp only [owner] at result
        have bound := ok.owned a _ stored id owner
        cases found : s.db.jobs.get id with
        | none =>
          simp only [found, Option.some.injEq, Prod.mk.injEq] at result
          obtain ⟨rfl, rfl⟩ := result
          refine finish .refl (fun other same => ?_) rfl
          cases owner.symm.trans same
          refine ⟨bound, fun job there => ?_⟩
          cases found.symm.trans there
        | some job =>
          simp only [found] at result
          split at result
          · cases result
          · rename_i same
            have owned : job.createdBy = intent.archive.createdBy := by
              by_contra other
              exact same other
            split at result
            · rename_i ended
              have discarded : Discarded job := by
                rcases ended with status | status | control
                · exact (ok.rows id job found).discarded.mpr (Or.inl status)
                · exact (ok.rows id job found).discarded.mpr (Or.inr status)
                · exact control
              cases k with
              | captured _ _ _ =>
                have held := (before.2.2.2.2.packaging owner).2 job found
                have status : job.status = .packaging := held
                rcases (ok.rows id job found).discarded.mp discarded with same | same <;>
                  simp [status] at same
              | operated _ =>
                have held := (before.2.packaging owner).2 job found
                have status : job.status = .packaging := held
                rcases (ok.rows id job found).discarded.mp discarded with same | same <;>
                  simp [status] at same
              | _ =>
                cases result
                refine ⟨?_, ?_⟩
                · have rows : Works s.directories s.pc s.db (s.db.modifyJob id fun job => { job with
                      status := .cancelled
                      runtime := { job.runtime with control := some .discard, canResume := false }
                      discardCleanupPending := true }) := by
                    apply Works.modify
                    intro old there
                    cases found.symm.trans there
                    exact .refused discarded
                  refine ⟨rows.next, rows.rows, rows.kept, ?_, rows.archives⟩
                  intro x intent' there
                  obtain ⟨old, was, rfl⟩ := Table.get_modify_cases _ _ _ _ _ there
                  refine Or.inl ⟨old, was, ?_⟩
                  split
                  · exact ⟨rfl, rfl, fun impossible => by cases impossible⟩
                  · exact ⟨rfl, rfl, fun same => same⟩
                · exact before
            · rename_i free
              have calm : ¬Discarded job := fun discarded => free (Or.inr (Or.inr discarded))
              cases result
              refine finish (.modify fun old there => ?_) (fun other same => ?_) rfl
              · cases found.symm.trans there
                exact .admitted (by rw [at_pc]; exact owner) calm
              · cases owner.symm.trans same
                refine ⟨bound, fun row there => ?_⟩
                obtain ⟨old, was, rfl⟩ := Table.get_modify_cases _ _ _ _ _ there
                cases found.symm.trans was
                rw [if_pos rfl]
                exact ⟨rfl, owned⟩

/-- The jobs after a finalization. -/
def finalizedJobs (db : Db) (a : Nat) (intent : PublicationIntent) : Table Job :=
  match intent.jobId with
  | none => db.jobs
  | some job => db.jobs.modify job fun row => row.finalized a intent

theorem finalize_stepped (ok : DbOk s.db) (at_pc : s.pc = .finalize a intent k) (admitted : Admitted s.db a intent)
    (before : k.Ok s.db a intent) (sha256 : Content → String) (now : Nat) (input : Input) :
    Stepped s (work sha256 s now input) := by
  simp only [work, at_pc]
  cases result : finalizeIntent s.db a intent with
  | none => exact ⟨.refl, before.failed _⟩
  | some db =>
    have final : Final intent.finalStatus := ok.finals a { intent with completed := .pending } admitted.1
    unfold finalizeIntent at result
    simp only [] at result
    split at result
    case isFalse => cases result
    case isTrue =>
      cases result
      have works : Works s.directories s.pc s.db { s.db with
          archives := Function.update s.db.archives a (some (intent.row (s.db.archives a)))
          jobs := finalizedJobs s.db a intent
          intents := s.db.intents.modify a fun stored => { stored with completed := .finalized } } := by
        unfold finalizedJobs
        refine ⟨?_, ?_, ?_, ?_, ?_⟩
        · cases intent.jobId <;> exact Nat.le_refl _
        · intro id job' found
          cases owner : intent.jobId with
          | none =>
            simp only [owner] at found
            exact Or.inl ⟨job', found, .same⟩
          | some owned =>
            simp only [owner] at found
            obtain ⟨job, was, rfl⟩ := Table.get_modify_cases _ _ _ _ _ found
            refine Or.inl ⟨job, was, ?_⟩
            split
            · rename_i same
              subst same
              exact .finalized a intent (by simp only [at_pc, Pc.records, owner, if_true]) ((admitted.packaging owner).2 job was) final
            · exact .same
        · intro id job found
          cases owner : intent.jobId with
          | none => exact ⟨job, found⟩
          | some owned => exact Table.exists_get_modify _ _ _ found
        · intro x intent' there
          obtain ⟨old, was, rfl⟩ := Table.get_modify_cases _ _ _ _ _ there
          refine Or.inl ⟨old, was, ?_⟩
          split
          · exact ⟨rfl, rfl, fun impossible => by cases impossible⟩
          · exact ⟨rfl, rfl, fun same => same⟩
        · intro x none some
          by_cases same : x = a
          · subst same
            exact ⟨_, admitted.1, rfl⟩
          · simp only [Function.update_of_ne same] at some
            exact absurd none some
      refine ⟨works, ?_⟩
      cases k with
      | boot _ => trivial
      | reconcile id _ => exact Nat.lt_of_lt_of_le before works.next
      | operated id => exact Nat.lt_of_lt_of_le (before.2.packaging before.1).1 works.next
      | captured id rt status =>
        obtain ⟨owner, same, control, kind, _⟩ := before
        by_cases completed : status = .completed
        · simp only [Return.next, if_pos completed]
          refine ⟨⟨Nat.lt_of_lt_of_le (admitted.packaging owner).1 works.next, ?_⟩, kind.works_kind works, control⟩
          intro row found
          simp only [owner] at found
          obtain ⟨job, was, rfl⟩ := Table.get_modify_cases _ _ _ _ _ found
          have owned := ((admitted.2 id owner).2 job was).2
          rw [if_pos rfl]
          simp only [Job.finalized, if_pos owned, Finished]
          exact same.symm.trans completed
        · simp only [Return.next, if_neg completed]
          trivial

theorem place_stepped {step : Placing} (at_pc : s.pc = .place step a intent k)
    (admitted : Admitted s.db a intent) (before : k.Ok s.db a intent) (sha256 : Content → String) (now : Nat)
    (input : Input) : Stepped s (work sha256 s now input) := by
  simp only [work, at_pc]
  split
  · exact ⟨.refl, admitted, before⟩
  · exact ⟨.refl, admitted, before⟩
  · exact ⟨.refl, before.failed _⟩

theorem pending_stepped (at_pc : s.pc = .pending k) (before : PcOk s.db s.directories s.pc)
    (sha256 : Content → String) (now : Nat) (input : Input) : Stepped s (work sha256 s now input) := by
  rw [at_pc] at before
  have known : ∀ id intent, pendingIntent s.db id = some intent → Known s.db id intent := by
    intro id intent found
    exact ⟨intent.completed, (Option.filter_eq_some_iff.mp found).1⟩
  cases k with
  | boot rest =>
    cases rest with
    | nil =>
      simp only [work, at_pc]
      exact ⟨.refl, trivial⟩
    | cons id rest =>
      simp only [work, at_pc]
      cases found : pendingIntent s.db id with
      | none => exact ⟨.refl, trivial⟩
      | some intent => exact ⟨.refl, known id intent found, trivial⟩
  | reconcile job rest =>
    cases rest with
    | nil =>
      simp only [work, at_pc]
      exact ⟨.refl, before, Or.inl (Or.inr (Or.inl rfl))⟩
    | cons id rest =>
      simp only [work, at_pc]
      cases found : pendingIntent s.db id with
      | none => exact ⟨.refl, before⟩
      | some intent => exact ⟨.refl, known id intent found, before⟩
  | captured _ _ _ => exact before.elim
  | operated _ => exact before.elim

theorem putIntent_some {db db' : Db} (result : putIntent db intent = some db') :
    db' = { db with intents := db.intents.insert { intent with completed := .pending } } ∧
      ∀ id, intent.jobId = some id → ∃ job, db.jobs.get id = some job ∧
        job.createdBy = intent.archive.createdBy ∧ Packaging job ∧ ¬Discarded job := by
  unfold putIntent at result
  split at result
  · rename_i allowed
    cases result
    refine ⟨rfl, ?_⟩
    intro id owner
    simp only [PublicationIntent.allowed, owner] at allowed
    cases found : db.jobs.get id with
    | none => simp [found] at allowed
    | some job =>
      simp only [found, Option.any_some, Bool.and_eq_true, beq_iff_eq, bne_iff_ne] at allowed
      exact ⟨job, rfl, allowed.1.1, allowed.1.2, allowed.2⟩
  · cases result

theorem put_stepped (at_pc : s.pc = .put intent k) (before : PcOk s.db s.directories s.pc)
    (sha256 : Content → String) (now : Nat) (input : Input) : Stepped s (work sha256 s now input) := by
  rw [at_pc] at before
  have failed : PcOk s.db s.directories k.failed := by
    cases k with
    | captured id rt final => exact before.1.1
    | operated id => exact before.1.1
    | _ => exact before.elim
  have final : Final intent.finalStatus := by
    cases k with
    | captured id rt final =>
      obtain ⟨_, _, _, _, same, final⟩ := before
      rw [same]
      exact final
    | operated id => exact Or.inl before.2.2
    | _ => exact before.elim
  simp only [work, at_pc]
  split
  · exact ⟨.refl, failed⟩
  · cases result : putIntent s.db intent with
    | none => exact ⟨.refl, failed⟩
    | some db =>
      obtain ⟨rfl, allowed⟩ := putIntent_some result
      have works : Works s.directories s.pc s.db
          { s.db with intents := s.db.intents.insert { intent with completed := .pending } } := by
        refine ⟨Nat.le_refl _, fun id job' found => Or.inl ⟨job', found, .same⟩, fun id job found => ⟨job, found⟩,
          ?_, fun a none some => absurd none some⟩
        intro x intent' found
        rcases Table.get_insert_cases _ _ _ _ found with old | ⟨_, rfl⟩
        · exact Or.inl ⟨intent', old, rfl, rfl, fun same => same⟩
        · refine Or.inr ⟨final, fun id owner => ?_⟩
          obtain ⟨job, there, _, _, free⟩ := allowed id owner
          exact ⟨Table.lt_next_of_get _ _ _ there, job, there, free⟩
      have admitted : Admitted
          { s.db with intents := s.db.intents.insert { intent with completed := .pending } }
          s.db.intents.next intent := by
        refine ⟨Table.get_insert_self _ _, fun id owner => ?_⟩
        obtain ⟨job, there, same, packaging, _⟩ := allowed id owner
        refine ⟨Table.lt_next_of_get _ _ _ there, fun row found => ?_⟩
        cases there.symm.trans found
        exact ⟨packaging, same⟩
      refine ⟨works, ⟨.pending, admitted.1⟩, ?_⟩
      cases k with
      | captured id rt final =>
        obtain ⟨_, kind, control, owner, same, _⟩ := before
        exact ⟨owner, same.symm, control, kind.works_kind works, admitted⟩
      | operated id => exact ⟨before.2.1, admitted⟩
      | _ => exact before.elim

end Publication

end NixHomeServer.Browsertrix
