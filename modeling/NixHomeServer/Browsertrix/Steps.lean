import NixHomeServer.Browsertrix.Invariant

/-! The steps of recovery, of the worker's loop, of captures and of file operations, and the
invariant of the whole system. -/
namespace NixHomeServer.Browsertrix

open NixHomeServer.Library

theorem Copied.modify {db : Db} {id : Nat} {f : Job → Job} {boot : Bool} {copy : Nat × Job}
    (same : ∀ job, db.jobs.get id = some job → (f job).status = job.status ∧
      (f job).runtime.control = job.runtime.control ∧ (f job).runtime.operation = job.runtime.operation)
    (copied : Copied db boot copy) : Copied (db.modifyJob id f) boot copy := by
  have discarded : ∀ {x : Nat}, Holds db x Discarded → Holds (db.modifyJob id f) x Discarded :=
    fun held => held.modify_keep fun job found discarded => (same job found).2.1.trans discarded
  refine ⟨?_, ?_, fun copy => discarded (copied.2.2 copy)⟩
  · cases boot with
    | true =>
      apply Holds.modify_keep copied.1
      intro job found recovered
      have status := (same job found).1
      have before : Recovered job := recovered
      show Recovered (f job)
      unfold Recovered at before ⊢
      rw [status]
      exact before
    | false => exact discarded copied.1
  · apply Holds.modify_keep copied.2.1
    intro job found kind
    exact (same job found).2.2.trans kind

/-- A fold over `older` finds a row that no other one is older than. -/
theorem older_spec (rows : List (Nat × Job)) (best : Option (Nat × Job)) :
    (rows.foldl older best = none → best = none ∧ rows = []) ∧
      ∀ found, rows.foldl older best = some found → (found ∈ rows ∨ best = some found) ∧
        (∀ row ∈ rows, found.2.createdAt ≤ row.2.createdAt) ∧
        ∀ old, best = some old → found.2.createdAt ≤ old.2.createdAt := by
  induction rows generalizing best with
  | nil =>
    refine ⟨fun none => ⟨none, rfl⟩, ?_⟩
    intro found same
    refine ⟨Or.inr same, List.forall_mem_nil _, ?_⟩
    intro old start
    cases start.symm.trans same
    exact Nat.le_refl _
  | cons first rest ih =>
    obtain ⟨empty, later⟩ := ih (older best first)
    simp only [List.foldl_cons]
    have some_first : ∃ kept, older best first = some kept ∧ (kept = first ∨ best = some kept) ∧
        kept.2.createdAt ≤ first.2.createdAt ∧ ∀ old, best = some old → kept.2.createdAt ≤ old.2.createdAt := by
      cases best with
      | none => exact ⟨first, rfl, Or.inl rfl, Nat.le_refl _, fun old impossible => by cases impossible⟩
      | some old =>
        by_cases younger : first.2.createdAt < old.2.createdAt
        · refine ⟨first, by simp only [older, if_pos younger], Or.inl rfl, Nat.le_refl _, ?_⟩
          intro other same
          cases same
          omega
        · refine ⟨old, by simp only [older, if_neg younger], Or.inr rfl, by omega, ?_⟩
          intro other same
          cases same
          exact Nat.le_refl _
    obtain ⟨kept, chosen, from_where, least, before⟩ := some_first
    constructor
    · intro none
      cases chosen.symm.trans (empty none).1
    · intro found same
      obtain ⟨place, all, start⟩ := later found same
      have below := start kept chosen
      refine ⟨?_, ?_, ?_⟩
      · rcases place with member | same
        · exact Or.inl (List.mem_cons_of_mem _ member)
        · cases chosen.symm.trans same
          rcases from_where with rfl | best
          · exact Or.inl List.mem_cons_self
          · exact Or.inr best
      · intro row member
        rcases List.mem_cons.mp member with rfl | member
        · omega
        · exact all row member
      · intro old best
        have bound := before old best
        omega

/-- The oldest queued job, if there is a queued one. -/
theorem oldestQueued_spec (db : Db) :
    (∀ id, oldestQueued db = some id → ∃ job, db.jobs.get id = some job ∧ job.status = .queued ∧
      ∀ x other, db.jobs.get x = some other → other.status = .queued → job.createdAt ≤ other.createdAt) ∧
    (oldestQueued db = none → ∀ x other, db.jobs.get x = some other → other.status ≠ .queued) := by
  have listed : ∀ x other, db.jobs.get x = some other → other.status = .queued →
      (x, other) ∈ db.jobs.select (fun _ job => job.status == .queued) := by
    intro x other found same
    exact (Table.mem_select _ _ _ _).mpr ⟨found, beq_iff_eq.mpr same⟩
  obtain ⟨empty, least⟩ := older_spec (db.jobs.select fun _ job => job.status == .queued) none
  unfold oldestQueued
  constructor
  · intro id chosen
    obtain ⟨found, same, rfl⟩ := Option.map_eq_some_iff.mp chosen
    obtain ⟨place, all, _⟩ := least found same
    have member := place.resolve_right (fun impossible => by cases impossible)
    obtain ⟨there, status⟩ := (Table.mem_select _ _ _ _).mp member
    refine ⟨found.2, there, beq_iff_eq.mp status, ?_⟩
    intro x other found_other same
    exact all (x, other) (listed x other found_other same)
  · intro none x other found same
    have member := listed x other found same
    rw [(empty (Option.map_eq_none_iff.mp none)).2] at member
    cases member

section Recovery

variable {s : System} {id : Nat} {job : Job} {rest : List (Nat × Job)} {boot : Bool}
  (sha256 : Content → String) (now : Nat) (input : Input)

theorem interrupt_stepped (ok : DbOk s.db) (at_pc : s.pc = .interrupt) :
    Stepped s (work sha256 s now input) := by
  simp only [work, at_pc]
  refine ⟨⟨Nat.le_refl _, ?_, ?_, fun _ intent' found => Or.inl ⟨intent', found, rfl, rfl, fun same => same⟩,
    fun _ none some => absurd none some⟩, ?_, fun _ member => by cases member⟩
  · intro x job' found
    simp only [markWorkerInterrupted, Table.get_mapRows] at found
    obtain ⟨old, was, rfl⟩ := Option.map_eq_some_iff.mp found
    refine Or.inl ⟨old, was, ?_⟩
    have row := ok.rows x old was
    unfold Job.interrupted
    by_cases discarded : old.runtime.control = some .discard
    · rcases row.discarded.mp discarded with status | status
      · simp only [status, discarded, true_or, if_true]
        exact .refused discarded
      · simp only [status]
        exact .same
    · have alive : old.status ≠ .cancelling := fun same => discarded (row.discarded.mpr (Or.inl same))
      cases status : old.status with
      | starting =>
        simp only [discarded, reduceCtorEq, or_self, if_false]
        exact .interrupted (by simp only [at_pc, Pc.records, status]) (Or.inl status) discarded
      | running =>
        simp only [discarded, reduceCtorEq, or_self, if_false]
        exact .interrupted (by simp only [at_pc, Pc.records, status]) (Or.inr (Or.inl status)) discarded
      | packaging =>
        simp only [discarded, reduceCtorEq, or_self, if_false]
        exact .interrupted (by simp only [at_pc, Pc.records, status]) (Or.inr (Or.inr status)) discarded
      | cancelling => exact absurd status alive
      | _ => exact .same
  · intro x job found
    exact ⟨job.interrupted, by simp only [markWorkerInterrupted, Table.get_mapRows, found, Option.map_some]⟩
  · intro x member
    obtain ⟨⟨y, row⟩, chosen, same⟩ := List.mem_map.mp (List.mem_of_mem_take member)
    cases same
    obtain ⟨found, status⟩ := (Table.mem_select _ _ _ _).mp chosen
    refine ⟨Table.lt_next_of_get _ _ _ found, fun other there => ?_⟩
    cases found.symm.trans there
    simp only [Bool.or_eq_true, Bool.and_eq_true, beq_iff_eq] at status
    rcases status with paused | ⟨cancelled, _⟩
    · exact Or.inl paused
    · exact Or.inr (Or.inr cancelled)

theorem list_stepped {ids : List Nat} (at_pc : s.pc = .list ids rest boot)
    (before : PcOk s.db s.directories s.pc) : Stepped s (work sha256 s now input) := by
  rw [at_pc] at before
  obtain ⟨listed, copied⟩ := before
  cases ids with
  | nil =>
    simp only [work, at_pc]
    exact ⟨.refl, copied⟩
  | cons id ids =>
    simp only [work, at_pc]
    have later : ∀ x ∈ ids, Holds s.db x (Listed boot) := fun x member => listed x (List.mem_cons_of_mem _ member)
    cases found : s.db.jobs.get id with
    | none => exact ⟨.refl, later, copied⟩
    | some job =>
      refine ⟨.refl, later, ?_⟩
      intro copy member
      rcases List.mem_append.mp member with old | new
      · exact copied copy old
      · cases List.mem_singleton.mp new
        have held := listed id List.mem_cons_self
        have row : ∀ {p : Job → Prop}, p job → Holds s.db id p := by
          intro p holds
          refine ⟨held.1, fun other there => ?_⟩
          cases found.symm.trans there
          exact holds
        exact ⟨held, row rfl, fun discarded => row discarded⟩

theorem each_stepped (at_pc : s.pc = .each rest boot) (before : PcOk s.db s.directories s.pc) :
    Stepped s (work sha256 s now input) := by
  rw [at_pc] at before
  have copied : ∀ copy ∈ rest, Copied s.db boot copy := before
  cases rest with
  | nil =>
    simp only [work, at_pc]
    cases boot <;> exact ⟨.refl, trivial⟩
  | cons copy rest =>
    obtain ⟨id, job⟩ := copy
    have later : ∀ copy ∈ rest, Copied s.db boot copy := fun copy member =>
      copied copy (List.mem_cons_of_mem _ member)
    obtain ⟨listed, kind, discard⟩ := copied (id, job) List.mem_cons_self
    simp only [work, at_pc]
    by_cases clean : boot = false ∨ job.runtime.control = some .discard
    · rw [if_pos clean]
      refine ⟨.refl, ?_, later⟩
      rcases clean with rfl | discarded
      · exact listed
      · exact discard discarded
    · rw [if_neg clean]
      have booting : boot = true := by
        cases boot with
        | true => rfl
        | false => exact absurd (Or.inl rfl) clean
      subst booting
      split
      · exact ⟨.refl, listed, kind, later⟩
      · exact ⟨.refl, later⟩

theorem clock_stepped (at_pc : s.pc = .clock id job rest) (before : PcOk s.db s.directories s.pc) :
    Stepped s (work sha256 s now input) := by
  rw [at_pc] at before
  obtain ⟨recovered, kind, copied⟩ := before
  simp only [work, at_pc]
  have operation : (job.clocked now).operation = job.runtime.operation := by
    unfold Job.clocked
    split <;> rfl
  refine ⟨.modify fun row found => ?_, fun copy member => (copied copy member).modify fun row found => ?_⟩
  · exact .preserved _ (Or.inr (recovered.2 row found)) (operation.trans (kind.2 row found).symm)
  · exact ⟨rfl, rfl, operation.trans (kind.2 row found).symm⟩

theorem restore_stepped {saved : String} (at_pc : s.pc = .restore id saved rest)
    (before : PcOk s.db s.directories s.pc) : Stepped s (work sha256 s now input) := by
  rw [at_pc] at before
  simp only [work, at_pc]
  refine ⟨.modify fun row found => ?_, fun copy member => Copied.modify (fun row found => ?_) (before copy member)⟩
  · split
    · rename_i both
      exact .restored saved both.1 both.2
    · exact .same
  · split
    · exact ⟨rfl, rfl, rfl⟩
    · exact ⟨rfl, rfl, rfl⟩

theorem cleaned_stepped (at_pc : s.pc = .cleaned id rest boot) (before : PcOk s.db s.directories s.pc) :
    Stepped s (work sha256 s now input) := by
  rw [at_pc] at before
  obtain ⟨gone, discarded, copied⟩ := before
  simp only [work, at_pc]
  refine ⟨.modify fun row found => ?_, fun copy member => Copied.modify (fun row found => ?_) (copied copy member)⟩
  · split
    · exact .cleaned gone (discarded.2 row found)
    · exact .same
  · split
    · exact ⟨rfl, rfl, rfl⟩
    · exact ⟨rfl, rfl, rfl⟩

theorem top_stepped (ok : DbOk s.db) (at_pc : s.pc = .top) : Stepped s (work sha256 s now input) := by
  simp only [work, at_pc]
  refine ⟨.refl, ?_, fun _ member => by cases member⟩
  intro x member
  obtain ⟨⟨y, row⟩, chosen, same⟩ := List.mem_map.mp (List.mem_of_mem_take member)
  cases same
  obtain ⟨found, status⟩ := (Table.mem_select _ _ _ _).mp chosen
  simp only [Bool.and_eq_true, beq_iff_eq] at status
  refine ⟨Table.lt_next_of_get _ _ _ found, fun other there => ?_⟩
  cases found.symm.trans there
  exact (ok.rows y row found).discarded.mpr (Or.inr status.1)

theorem claim_stepped (at_pc : s.pc = .claim) : Stepped s (work sha256 s now input) := by
  simp only [work, at_pc, claimNextQueuedJob]
  cases chosen : oldestQueued s.db with
  | none => exact ⟨.refl, trivial⟩
  | some id =>
    obtain ⟨job, found, queued, _⟩ := (oldestQueued_spec s.db).1 id chosen
    have drawn := Table.lt_next_of_get _ _ _ found
    refine ⟨.modify fun row there => ?_, drawn, fun row there => ?_⟩
    · cases found.symm.trans there
      exact .claimed queued
    · obtain ⟨old, _, rfl⟩ := Table.get_modify_cases _ _ _ _ _ there
      rw [if_pos rfl]
      exact Or.inl rfl

end Recovery

section Capture

variable {s : System} {id : Nat} {job : Job} {rt : JobRuntime}
  (sha256 : Content → String) (now : Nat) (input : Input)

/-- What is read from a row holds of it. -/
theorem Holds.read {db : Db} {p : Job → Prop} (found : db.jobs.get id = some job) (holds : p job) :
    Holds db id p := by
  refine ⟨Table.lt_next_of_get _ _ _ found, fun other there => ?_⟩
  cases found.symm.trans there
  exact holds

theorem claimed_stepped (at_pc : s.pc = .claimed id) (before : PcOk s.db s.directories s.pc) :
    Stepped s (work sha256 s now input) := by
  rw [at_pc] at before
  simp only [work, at_pc]
  cases found : s.db.jobs.get id with
  | none => exact ⟨.refl, trivial⟩
  | some job =>
    have facts : Holds s.db id Starting ∧ Holds s.db id (OfKind job.runtime.operation) ∧
        (Discarded job → Holds s.db id Discarded) :=
      ⟨before, .read found rfl, fun discarded => .read found discarded⟩
    cases capture : job.runtime.operation.isCapture with
    | true =>
      simp only [capture, if_true]
      exact ⟨.refl, facts⟩
    | false =>
      simp only [capture, Bool.false_eq_true, if_false]
      exact ⟨.refl, facts⟩

theorem prepare_stepped (at_pc : s.pc = .prepare id job) (before : PcOk s.db s.directories s.pc) :
    Stepped s (work sha256 s now input) := by
  rw [at_pc] at before
  simp only [work, at_pc]
  split
  · exact ⟨.refl, before.1.1⟩
  · split
    · exact ⟨.refl, before.1.1⟩
    · exact ⟨.refl, before⟩

theorem cancelled_discarded {current : Job} (ok : DbOk s.db) (found : s.db.jobs.get id = some current)
    (status : current.status = .cancelling) : Holds s.db id Discarded :=
  .read found ((ok.rows id current found).discarded.mpr (Or.inl status))

theorem before_stepped (ok : DbOk s.db) (at_pc : s.pc = .before id job)
    (before : PcOk s.db s.directories s.pc) : Stepped s (work sha256 s now input) := by
  rw [at_pc] at before
  obtain ⟨starting, kind, _⟩ := before
  simp only [work, at_pc]
  cases found : s.db.jobs.get id with
  | none => exact ⟨.refl, starting.1⟩
  | some current =>
    simp only []
    split
    · rename_i status
      exact ⟨.refl, starting.1, Or.inr ⟨rfl, cancelled_discarded ok found status⟩⟩
    · split
      · exact ⟨.refl, starting.1, Or.inl (Or.inl rfl)⟩
      · exact ⟨.refl, starting, kind, rfl, rfl⟩

theorem begin_stepped (at_pc : s.pc = .begin id job rt) (before : PcOk s.db s.directories s.pc) :
    Stepped s (work sha256 s now input) := by
  rw [at_pc] at before
  obtain ⟨starting, kind, control, fresh⟩ := before
  simp only [work, at_pc, beginCapture]
  cases found : s.db.jobs.get id with
  | none => exact ⟨.refl, starting⟩
  | some row =>
    by_cases free : row.status = .starting ∧ row.runtime.control = none
    · simp only [if_pos free]
      have works : Works s.directories s.pc s.db
          (s.db.modifyJob id fun job => { job.store rt with status := .running }) := by
        apply Works.modify
        intro old there
        cases found.symm.trans there
        exact .begun rt free.1 (by simp [Discarded, free.2]) control fresh (kind.2 row found).symm
      refine ⟨works, starting.modify_self fun _ _ _ => Or.inl rfl, kind.works_kind works,
        fun impossible => by cases impossible⟩
    · simp only [if_neg free]
      exact ⟨.refl, starting⟩

theorem reread_stepped (ok : DbOk s.db) (at_pc : s.pc = .reread id) (before : PcOk s.db s.directories s.pc) :
    Stepped s (work sha256 s now input) := by
  rw [at_pc] at before
  have starting : Holds s.db id Starting := before
  simp only [work, at_pc]
  cases found : s.db.jobs.get id with
  | none => exact ⟨.refl, starting.1⟩
  | some current =>
    simp only []
    by_cases status : current.status = .cancelling
    · rw [if_pos status]
      exact ⟨.refl, starting.1, Or.inr ⟨rfl, cancelled_discarded ok found status⟩⟩
    · rw [if_neg status]
      exact ⟨.refl, starting.1, Or.inl (Or.inl rfl)⟩

/-- A document written over a running job, or one that is being cancelled, with the discard mark kept. -/
theorem Works.preserving (running : Holds s.db id Running) (kind : Holds s.db id (OfKind rt.operation)) :
    Works s.directories s.pc s.db (setRuntimePreservingControl s.db id rt) :=
  .modify fun row found => .preserved rt (Or.inl (running.2 row found)) (kind.2 row found).symm

theorem Holds.preserving {p : Job → Prop} {db : Db} {x : Nat} (held : Holds db x p)
    (kept : ∀ job : Job, p job → p (job.preserving rt)) : Holds (setRuntimePreservingControl db id rt) x p :=
  held.modify_keep fun job _ holds => kept job holds

theorem crawling_stepped {reason : Option StopReason} (ok : DbOk s.db) (at_pc : s.pc = .crawling id job rt reason)
    (before : PcOk s.db s.directories s.pc) : Stepped s (work sha256 s now input) := by
  have after := before
  rw [at_pc] at before
  obtain ⟨running, kind, discard⟩ := before
  cases input with
  | poll limit =>
    simp only [work, at_pc]
    cases found : s.db.jobs.get id with
    | none => exact ⟨.refl, running.1⟩
    | some current =>
      refine ⟨.refl, running, kind, ?_⟩
      intro chosen
      cases reason with
      | some reason => exact discard (by simpa using chosen)
      | none =>
        by_cases status : current.status = .cancelling
        · exact cancelled_discarded ok found status
        · simp only [if_neg status, Option.orElse_eq_orElse, Option.orElse_eq_or, Option.none_or] at chosen
          exfalso
          split at chosen
          · cases chosen
          · cases chosen
          · have kept := (Option.filter_eq_some_iff.mp chosen).2
            simp at kept
  | sync warcBytes runtimeSeconds pagesDone =>
    simp only [work, at_pc]
    exact ⟨.preserving running kind, running.preserving fun _ same => same,
      kind.works_kind (.preserving running kind),
      fun same => (discard same).preserving fun _ discarded => discarded⟩
  | exit outcome =>
    simp only [work, at_pc]
    refine ⟨.refl, running, kind, ?_⟩
    intro chosen
    cases reason with
    | some reason => exact discard (by simpa [JobRuntime.exited] using chosen)
    | none =>
      simp only [JobRuntime.exited, Option.orElse_eq_orElse, Option.orElse_eq_or, Option.none_or] at chosen
      have kept := (Option.filter_eq_some_iff.mp chosen).2
      simp at kept
  | _ =>
    simp only [work, at_pc]
    exact ⟨.refl, after⟩

theorem settle_stepped {outcome : Outcome} (at_pc : s.pc = .settle id job rt outcome)
    (before : PcOk s.db s.directories s.pc) : Stepped s (work sha256 s now input) := by
  rw [at_pc] at before
  obtain ⟨running, kind, discard⟩ := before
  have works := Works.preserving running kind
  have running' : Holds (setRuntimePreservingControl s.db id rt) id Running := running.preserving fun _ same => same
  simp only [work, at_pc]
  split
  · rename_i chosen
    exact ⟨works, running', kind.works_kind works, (discard chosen).preserving fun _ same => same⟩
  · exact ⟨works, running', kind.works_kind works⟩

theorem drop_stepped (at_pc : s.pc = .drop id rt) (before : PcOk s.db s.directories s.pc) :
    Stepped s (work sha256 s now input) := by
  rw [at_pc] at before
  obtain ⟨running, kind, discarded⟩ := before
  simp only [work, at_pc]
  exact ⟨.preserving running kind, running.1, Or.inr ⟨rfl, discarded.preserving fun _ same => same⟩⟩

theorem latest_stepped {outcome : Outcome} (ok : DbOk s.db) (at_pc : s.pc = .latest id job rt outcome)
    (before : PcOk s.db s.directories s.pc) : Stepped s (work sha256 s now input) := by
  rw [at_pc] at before
  obtain ⟨running, kind⟩ := before
  simp only [work, at_pc]
  cases found : s.db.jobs.get id with
  | none => exact ⟨.refl, running.1⟩
  | some current =>
    simp only []
    split
    · rename_i status
      exact ⟨.refl, running.1, Or.inr ⟨rfl, cancelled_discarded ok found status⟩⟩
    · split
      · exact ⟨.refl, running, kind⟩
      · exact ⟨.refl, running, kind⟩

theorem reason_stepped {outcome : Outcome} (at_pc : s.pc = .reason id job rt outcome)
    (before : PcOk s.db s.directories s.pc) : Stepped s (work sha256 s now input) := by
  rw [at_pc] at before
  obtain ⟨running, kind⟩ := before
  simp only [work, at_pc]
  exact ⟨.preserving running kind, running.preserving fun _ same => same,
    kind.works_kind (.preserving running kind)⟩

theorem finish_final (rt : JobRuntime) (outcome : Outcome) : Final (finish rt outcome) := by
  unfold finish
  split
  · exact Or.inr (Or.inr rfl)
  · split
    · exact Or.inr (Or.inl rfl)
    · exact Or.inl rfl

theorem package_stepped {outcome : Outcome} (ok : DbOk s.db) (at_pc : s.pc = .package id job rt outcome)
    (before : PcOk s.db s.directories s.pc) : Stepped s (work sha256 s now input) := by
  rw [at_pc] at before
  obtain ⟨running, kind⟩ := before
  simp only [work, at_pc]
  split
  · exact ⟨.refl, running.1⟩
  split
  · cases rt.canResume with
    | true => exact ⟨.refl, running.1, Or.inl (Or.inl rfl)⟩
    | false => exact ⟨.refl, running.1, Or.inl (Or.inr (Or.inr rfl))⟩
  unfold preparePublication
  cases found : s.db.jobs.get id with
  | none => exact ⟨.refl, running.1⟩
  | some row =>
    simp only []
    rcases running.2 row found with status | status
    · simp only [status]
      have free : ¬Discarded row := fun discarded => by
        rcases (ok.rows id row found).discarded.mp discarded with same | same <;> simp [status] at same
      have works : Works s.directories s.pc s.db (s.db.modifyJob id fun job => { job.store { rt with
          control := row.runtime.control
          stopReason := Control.reason row.runtime.control rt.stopReason } with status := .packaging }) := by
        apply Works.modify
        intro old there
        cases found.symm.trans there
        exact .frozen _ status free rfl (kind.2 row found).symm
      exact ⟨works, running.modify_self fun _ _ _ => rfl, kind.works_kind works, free, finish_final _ _⟩
    · simp only [status]
      exact ⟨.refl, running.1, Or.inr ⟨rfl, cancelled_discarded ok found status⟩⟩

theorem inspect_stepped {final : JobStatus} (at_pc : s.pc = .inspect id job rt final)
    (before : PcOk s.db s.directories s.pc) : Stepped s (work sha256 s now input) := by
  have after := before
  rw [at_pc] at before
  obtain ⟨packaging, kind, control, ends⟩ := before
  cases input with
  | inspected archive report source coverage =>
    simp only [work, at_pc]
    split
    · exact ⟨.refl, packaging, kind, control, rfl, rfl, ends⟩
    · exact ⟨.refl, packaging, kind, control, rfl, rfl, ends⟩
  | _ =>
    simp only [work, at_pc]
    exact ⟨.refl, after⟩

theorem estimate_stepped {intent : PublicationIntent} {final : JobStatus}
    (at_pc : s.pc = .estimate id rt intent final) (before : PcOk s.db s.directories s.pc) :
    Stepped s (work sha256 s now input) := by
  rw [at_pc] at before
  obtain ⟨packaging, kind, control, facts⟩ := before
  simp only [work, at_pc]
  have works : Works s.directories s.pc s.db (setRuntime s.db id rt) :=
    .modify fun row found => .stored rt (Or.inl (packaging.2 row found)) control (kind.2 row found).symm
  exact ⟨works, packaging.modify_keep fun _ _ same => same, kind.works_kind works, control, facts⟩

theorem published_stepped (at_pc : s.pc = .published id rt) (before : PcOk s.db s.directories s.pc) :
    Stepped s (work sha256 s now input) := by
  rw [at_pc] at before
  obtain ⟨finished, kind, control⟩ := before
  simp only [work, at_pc]
  cases found : s.db.jobs.get id with
  | none => exact ⟨.refl, finished.1⟩
  | some current => exact ⟨.refl, finished, kind, control, rfl⟩

theorem record_stepped (at_pc : s.pc = .record id rt) (before : PcOk s.db s.directories s.pc) :
    Stepped s (work sha256 s now input) := by
  rw [at_pc] at before
  obtain ⟨finished, kind, control, resumes⟩ := before
  simp only [work, at_pc]
  refine ⟨.modify fun row found => ?_, trivial⟩
  exact .stored rt (Or.inr ⟨finished.2 row found, resumes⟩) control (kind.2 row found).symm

theorem setStatus_works {status : JobStatus}
    (place : (status = .paused ∨ status = .completed ∨ status = .failed) ∨
      status = .cancelled ∧ Holds s.db id Discarded)
    (here : ∀ job, s.pc.records id job = some status) :
    Works s.directories s.pc s.db (setStatus s.db id status) := by
  apply Works.modify
  intro row found
  by_cases discarded : row.runtime.control = some .discard
  · rw [if_pos discarded]
    exact .dropped discarded
  · rw [if_neg discarded]
    rcases place with other | ⟨_, held⟩
    · exact .status status (here row) other discarded
    · exact absurd (held.2 row found) discarded

theorem status_stepped {status : JobStatus} {after : After}
    (at_pc : s.pc = .status id status after) (before : PcOk s.db s.directories s.pc) :
    Stepped s (work sha256 s now input) := by
  rw [at_pc] at before
  simp only [work, at_pc]
  refine ⟨setStatus_works before.2 fun _ => by simp only [at_pc, Pc.records, if_true], ?_⟩
  cases after with
  | top => trivial
  | _ => exact before.1

theorem fail_stepped (at_pc : s.pc = .fail id) : Stepped s (work sha256 s now input) := by
  simp only [work, at_pc]
  exact ⟨setStatus_works (Or.inl (Or.inr (Or.inr rfl))) fun _ => by simp only [at_pc, Pc.records, if_true], trivial⟩

end Capture

section FileOperations

variable {s : System} {id : Nat} {job : Job} {rt : JobRuntime}
  (sha256 : Content → String) (now : Nat) (input : Input)

theorem operate_stepped (ok : DbOk s.db) (at_pc : s.pc = .operate id job)
    (before : PcOk s.db s.directories s.pc) : Stepped s (work sha256 s now input) := by
  rw [at_pc] at before
  obtain ⟨starting, kind, copy⟩ := before
  simp only [work, at_pc, beginFileOperation]
  cases found : s.db.jobs.get id with
  | none => exact ⟨.refl, trivial⟩
  | some row =>
    by_cases free : row.createdBy = job.createdBy ∧ row.status = .starting ∧ row.runtime.control = none
    · simp only [if_pos free]
      have calm : ¬Discarded row := by simp [Discarded, free.2.2]
      have works : Works s.directories s.pc s.db (s.db.modifyJob id fun job => { job with status := .packaging }) := by
        apply Works.modify
        intro old there
        cases found.symm.trans there
        exact .operating free.2.1 calm
      exact ⟨works, starting.modify_self fun _ _ _ => rfl, kind.works_kind works,
        fun discarded => calm ((copy discarded).2 row found)⟩
    · by_cases ended : row.createdBy = job.createdBy ∧ row.status = .cancelling
      · simp only [if_neg free, if_pos ended]
        refine ⟨.modify fun old there => ?_, trivial⟩
        cases found.symm.trans there
        exact .dropped ((ok.rows id row found).discarded.mpr (Or.inl ended.2))
      · simp only [if_neg free, if_neg ended]
        exact ⟨.refl, trivial⟩

theorem working_stepped (at_pc : s.pc = .working id job) (before : PcOk s.db s.directories s.pc) :
    Stepped s (work sha256 s now input) := by
  have after := before
  rw [at_pc] at before
  obtain ⟨packaging, kind, control⟩ := before
  have stay : ∀ s' : System, s' = s → Stepped s s' := fun s' same => by
    subst same
    exact ⟨.refl, after⟩
  cases operation : job.runtime.operation with
  | importArchive =>
    rw [operation] at kind
    cases input with
    | inspected archive report source coverage =>
      simp only [work, at_pc, operation]
      exact ⟨.refl, packaging, rfl, rfl⟩
    | existing archive =>
      simp only [work, at_pc, operation]
      split
      · exact ⟨.refl, packaging.1⟩
      · exact ⟨.refl, packaging, kind, control⟩
    | _ =>
      simp only [work, at_pc, operation]
      exact stay s rfl
  | exportArchive =>
    cases input with
    | inspected archive report source coverage =>
      simp only [work, at_pc, operation]
      exact ⟨.refl, packaging, rfl, rfl⟩
    | _ =>
      simp only [work, at_pc, operation]
      exact stay s rfl
  | verify =>
    rw [operation] at kind
    cases input with
    | verified archive document =>
      simp only [work, at_pc, operation]
      split
      · exact ⟨.refl, packaging.1⟩
      · rename_i row found
        have there : s.db.archives archive = some row := (Option.filter_eq_some_iff.mp found).1
        refine ⟨⟨Nat.le_refl _, fun id job' found => Or.inl ⟨job', found, .same⟩, fun id job found => ⟨job, found⟩,
          fun _ intent' found => Or.inl ⟨intent', found, rfl, rfl, fun same => same⟩, ?_⟩,
          packaging, kind, control⟩
        intro a none some
        by_cases same : a = archive
        · subst same
          cases none.symm.trans there
        · simp only [saveArchiveMetadata, Function.update_of_ne same] at some
          exact absurd none some
    | _ =>
      simp only [work, at_pc, operation]
      exact stay s rfl
  | profileImport =>
    cases input with
    | step =>
      simp only [work, at_pc, operation]
      exact ⟨.refl, packaging.1, Or.inl (Or.inr (Or.inl rfl))⟩
    | _ =>
      simp only [work, at_pc, operation]
      exact stay s rfl
  | reconcile =>
    cases input with
    | step =>
      simp only [work, at_pc, operation]
      exact ⟨.refl, packaging.1⟩
    | _ =>
      simp only [work, at_pc, operation]
      exact stay s rfl
  | _ =>
    simp only [work, at_pc, operation]
    exact stay s rfl

theorem document_stepped (at_pc : s.pc = .document id rt) (before : PcOk s.db s.directories s.pc) :
    Stepped s (work sha256 s now input) := by
  rw [at_pc] at before
  obtain ⟨packaging, kind, control⟩ := before
  simp only [work, at_pc]
  refine ⟨.modify fun row found => ?_, packaging.1, Or.inl (Or.inr (Or.inl rfl))⟩
  exact .stored rt (Or.inl (packaging.2 row found)) control (kind.2 row found).symm

end FileOperations

section System

variable {s : System} (sha256 : Content → String)

theorem work_stepped (ok : SystemOk s) (now : Nat) (input : Input) : Stepped s (work sha256 s now input) := by
  have before := ok.pc
  cases at_pc : s.pc with
  | stopped =>
    simp only [work, at_pc]
    exact ⟨.refl, before⟩
  | pending k => exact pending_stepped at_pc before sha256 now input
  | admitting a intent k =>
    rw [at_pc] at before
    exact admit_stepped ok.db at_pc before.1 before.2 sha256 now input
  | place step a intent k =>
    rw [at_pc] at before
    exact place_stepped at_pc before.1 before.2 sha256 now input
  | finalize a intent k =>
    rw [at_pc] at before
    exact finalize_stepped ok.db at_pc before.1 before.2 sha256 now input
  | interrupt => exact interrupt_stepped sha256 now input ok.db at_pc
  | list ids jobs boot => exact list_stepped sha256 now input at_pc before
  | each jobs boot => exact each_stepped sha256 now input at_pc before
  | clock id job rest => exact clock_stepped sha256 now input at_pc before
  | checkpoint id rest =>
    rw [at_pc] at before
    simp only [work, at_pc]
    split <;> exact ⟨.refl, before⟩
  | restore id saved rest => exact restore_stepped sha256 now input at_pc before
  | cleanup id rest boot =>
    rw [at_pc] at before
    simp only [work, at_pc]
    exact ⟨.refl, Function.update_self .., before⟩
  | cleaned id rest boot => exact cleaned_stepped sha256 now input at_pc before
  | top => exact top_stepped sha256 now input ok.db at_pc
  | dispatch =>
    simp only [work, at_pc]
    exact ⟨(dispatchDueSchedules_inserted s.db now).works at_pc, trivial⟩
  | claim => exact claim_stepped sha256 now input at_pc
  | claimed id => exact claimed_stepped sha256 now input at_pc before
  | prepare id job => exact prepare_stepped sha256 now input at_pc before
  | before id job => exact before_stepped sha256 now input ok.db at_pc before
  | begin id job rt => exact begin_stepped sha256 now input at_pc before
  | reread id => exact reread_stepped sha256 now input ok.db at_pc before
  | crawling id job rt reason => exact crawling_stepped sha256 now input ok.db at_pc before
  | settle id job rt outcome => exact settle_stepped sha256 now input at_pc before
  | drop id rt => exact drop_stepped sha256 now input at_pc before
  | latest id job rt outcome => exact latest_stepped sha256 now input ok.db at_pc before
  | reason id job rt outcome => exact reason_stepped sha256 now input at_pc before
  | package id job rt outcome => exact package_stepped sha256 now input ok.db at_pc before
  | inspect id job rt final => exact inspect_stepped sha256 now input at_pc before
  | estimate id rt intent final => exact estimate_stepped sha256 now input at_pc before
  | put intent k => exact put_stepped at_pc before sha256 now input
  | tidy id rt =>
    rw [at_pc] at before
    simp only [work, at_pc]
    exact ⟨.refl, before⟩
  | published id rt => exact published_stepped sha256 now input at_pc before
  | record id rt => exact record_stepped sha256 now input at_pc before
  | operate id job => exact operate_stepped sha256 now input ok.db at_pc before
  | working id job => exact working_stepped sha256 now input at_pc before
  | document id rt => exact document_stepped sha256 now input at_pc before
  | status id status after => exact status_stepped sha256 now input at_pc before
  | inbox id =>
    rw [at_pc] at before
    simp only [work, at_pc]
    exact ⟨.refl, before⟩
  | scratch id =>
    simp only [work, at_pc]
    split <;> exact ⟨.refl, trivial⟩
  | fail id => exact fail_stepped sha256 now input at_pc

/-- An error leads to a place that needs no more than the job's id. -/
theorem PcOk.failed {db : Db} {directories : Nat → Option (Option String)} {pc : Pc}
    (before : PcOk db directories pc) : PcOk db directories pc.failed := by
  cases pc with
  | pending k =>
    cases k with
    | boot _ => trivial
    | reconcile _ _ => exact before
    | _ => exact before.elim
  | admitting a intent k | place _ a intent k | finalize a intent k => exact before.2.failed directories
  | put intent k =>
    cases k with
    | captured _ _ _ => exact before.1.1
    | operated _ => exact before.1.1
    | _ => exact before.elim
  | prepare _ _ | before _ _ | begin _ _ _ | crawling _ _ _ _ | settle _ _ _ _ | drop _ _ | latest _ _ _ _
  | reason _ _ _ _ | package _ _ _ _ | inspect _ _ _ _ | estimate _ _ _ _ | tidy _ _ | published _ _
  | record _ _ | operate _ _ | working _ _ | document _ _ => exact before.1.1
  | reread _ | status _ _ _ => exact before.1
  | inbox _ | scratch _ => exact before
  | _ => trivial

@[simp] theorem System.spilled_db (torn : Option Content) : (s.spilled torn).db = s.db := by
  unfold System.spilled
  split <;> rfl

@[simp] theorem System.spilled_directories (torn : Option Content) :
    (s.spilled torn).directories = s.directories := by
  unfold System.spilled
  split <;> rfl

/-- An event is the worker's, or changes the queue as requests may and leaves the worker where it is. -/
theorem step_cases (event : Event) :
    (∃ now input, event = .work now input) ∨
      (Requests s.db (s.step sha256 event).db ∧
        (∀ id, s.directories id = none → (s.step sha256 event).directories id = none) ∧
        ((s.step sha256 event).pc = s.pc ∨ (s.step sha256 event).pc = s.pc.failed ∨
          (s.step sha256 event).pc = .stopped ∨
          (s.step sha256 event).pc = .pending (.boot (pendingIntentIds s.db)))) := by
  have here : ∀ db' : Db, Requests s.db db' → Requests s.db db' ∧
      (∀ id, s.directories id = none → s.directories id = none) ∧ (s.pc = s.pc ∨ s.pc = s.pc.failed ∨
        s.pc = .stopped ∨ s.pc = .pending (.boot (pendingIntentIds s.db))) :=
    fun _ requests => ⟨requests, fun _ none => none, Or.inl rfl⟩
  cases event with
  | work now input => exact Or.inl ⟨now, input, rfl⟩
  | create now owner request => exact Or.inr (here _ (createUniqueCapture_inserted s.db now owner request).requests)
  | batch now owner requests => exact Or.inr (here _ (queueBatch_inserted s.db now owner requests).requests)
  | operation now owner request operation =>
    exact Or.inr (here _ (queueOperation_inserted s.db now owner request operation).requests)
  | control id owner stop =>
    refine Or.inr (here _ (requestControl_requests s.db id owner _ ?_))
    cases stop <;> simp
  | resume id owner ext => exact Or.inr (here _ (resume_requests s.db id owner ext))
  | cancel id => exact Or.inr (here _ (requestCancel_requests s.db id))
  | delete id owner => exact Or.inr (here _ (deleteJob_requests s.db id owner))
  | clear owner => exact Or.inr (here _ (clearHistory_requests s.db owner))
  | records recipes schedules =>
    exact Or.inr (here _ (Inserted.requests
      ⟨Nat.le_refl _, fun _ _ found => found, fun _ _ found => Or.inl found, rfl, rfl⟩))
  | edit id document =>
    simp only [System.step]
    cases found : s.db.archives id with
    | none => exact Or.inr (here _ (.refl _))
    | some row =>
      have plain := Requests.refl s.db
      refine Or.inr (here _ ⟨plain.next, plain.rows, plain.kept, rfl, plain.invalidated, plain.absent, plain.discards, ?_⟩)
      intro x none
      have other : x ≠ id := fun same => by
        subst same
        cases none.symm.trans found
      simp only [saveArchiveMetadata, Function.update_of_ne other]
      exact none
  | start =>
    simp only [System.step]
    split
    · exact Or.inr ⟨.refl _, fun _ none => none, Or.inr (Or.inr (Or.inr rfl))⟩
    · exact Or.inr (here _ (.refl _))
  | fail torn =>
    refine Or.inr ⟨?_, ?_, Or.inr (Or.inl rfl)⟩
    · simp only [System.step, System.spilled_db]
      exact .refl _
    · simp only [System.step, System.spilled_directories]
      exact fun _ none => none
  | crash torn =>
    refine Or.inr ⟨?_, ?_, Or.inr (Or.inr (Or.inl rfl))⟩
    · simp only [System.step, System.spilled_db]
      exact .refl _
    · simp only [System.step, System.spilled_directories]
      exact fun _ none => none
  | crawler id saved =>
    refine Or.inr ⟨.refl _, ?_, Or.inl rfl⟩
    intro x none
    simp only [System.step]
    by_cases same : x = id
    · subst same
      rw [Function.update_self, none]
      rfl
    · rw [Function.update_of_ne same]
      exact none
  | source path content => exact Or.inr (here _ (.refl _))
  | outside at_root archive name content =>
    simp only [System.step]
    split
    · exact Or.inr (here _ (.refl _))
    · exact Or.inr (here _ (.refl _))

theorem step_ok (ok : SystemOk s) (event : Event) : SystemOk (s.step sha256 event) := by
  rcases step_cases (s := s) sha256 event with ⟨now, input, rfl⟩ | ⟨requests, missing, place⟩
  · have stepped := work_stepped sha256 ok now input
    exact ⟨ok.db.works stepped.works, stepped.pc⟩
  · refine ⟨ok.db.requests requests, ?_⟩
    rcases place with same | same | same | same
    · rw [same]
      exact ok.pc.requests ok.db requests missing
    · rw [same]
      exact (ok.pc.failed).requests ok.db requests missing
    · rw [same]
      trivial
    · rw [same]
      trivial

theorem start_ok : SystemOk {} := by
  refine ⟨⟨?_, ?_, ?_⟩, trivial⟩
  · intro id job found
    cases found
  · intro a intent found
    cases found
  · intro a intent found
    cases found

/-- Every state that the system reaches from an empty queue. -/
theorem run_ok (events : List Event) : SystemOk (Runs.run (System.step sha256) {} events) :=
  Runs.run_invariant _ SystemOk (fun _ event ok => step_ok sha256 ok event) {} events start_ok

end System

end NixHomeServer.Browsertrix
