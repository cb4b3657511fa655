import NixHomeServer.Library.Runs
import NixHomeServer.Groundwater.Intake

/-! No measurement is lost to duplicate suppression: over every run of intake
attempts each delivery has one row, and a delivery without an observation repeats
one that was stored before. -/
namespace NixHomeServer.Groundwater.Intake

open NixHomeServer.Library

variable {G : Type}

section Classification

/-- A prior observation of the same device at the same event time, within the receipt window. -/
def InWindow (o : Observation G) (recorded : Int) (prior : PriorObservation G) : Prop :=
  prior.device = o.device ∧ prior.recordedAt = some recorded ∧ 0 ≤ gap o prior ∧
    gap o prior ≤ minutes 15

theorem see_cases (o : Observation G) (recorded : Int) (seen : Seen G) (prior : PriorObservation G) :
    (¬InWindow o recorded prior ∧ (see o recorded seen prior).identical = seen.identical ∧
        (see o recorded seen prior).conflicting = seen.conflicting) ∨
      (InWindow o recorded prior ∧ prior.payloadDigest = o.payloadDigest ∧
        (see o recorded seen prior).identical = some prior ∧
        (see o recorded seen prior).conflicting = seen.conflicting) ∨
      (InWindow o recorded prior ∧ prior.payloadDigest ≠ o.payloadDigest ∧
        (see o recorded seen prior).identical = seen.identical ∧
        (see o recorded seen prior).conflicting = some prior) := by
  unfold see InWindow
  split
  · rename_i other
    refine Or.inl ⟨?_, rfl, rfl⟩
    rintro ⟨device, time, _⟩
    cases other with
    | inl different => exact different device
    | inr different => exact different time
  · rename_i same
    simp only [not_or, ne_eq, not_not] at same
    split
    · rename_i outside
      refine Or.inl ⟨?_, rfl, rfl⟩
      rintro ⟨_, _, early, late⟩
      omega
    · rename_i inside
      simp only [not_or, Int.not_lt] at inside
      split
      · rename_i digest
        exact Or.inr (Or.inl ⟨⟨same.1, same.2, inside.1, inside.2⟩, digest, rfl, rfl⟩)
      · rename_i digest
        exact Or.inr (Or.inr ⟨⟨same.1, same.2, inside.1, inside.2⟩, digest, rfl, rfl⟩)

theorem fold_identical (o : Observation G) (recorded : Int) (seen : Seen G)
    (history : List (PriorObservation G)) :
    (history.foldl (see o recorded) seen).identical.isSome = true ↔ seen.identical.isSome = true ∨
      ∃ p ∈ history, InWindow o recorded p ∧ p.payloadDigest = o.payloadDigest := by
  induction history generalizing seen with
  | nil => simp only [List.foldl_nil, List.not_mem_nil, false_and, exists_false, or_false]
  | cons prior rest ih =>
    rw [List.foldl_cons, ih, List.exists_mem_cons_iff]
    rcases see_cases o recorded seen prior with ⟨outside, identical, _⟩ | ⟨inside, digest, identical, _⟩ |
      ⟨inside, digest, identical, _⟩
    · rw [identical]
      simp only [outside, false_and, false_or]
    · rw [identical]
      simp only [inside, digest, and_self, true_or, or_true, Option.isSome_some]
    · rw [identical]
      simp only [digest, and_false, false_or]

theorem fold_conflicting (o : Observation G) (recorded : Int) (seen : Seen G)
    (history : List (PriorObservation G)) :
    (history.foldl (see o recorded) seen).conflicting.isSome = true ↔ seen.conflicting.isSome = true ∨
      ∃ p ∈ history, InWindow o recorded p ∧ p.payloadDigest ≠ o.payloadDigest := by
  induction history generalizing seen with
  | nil => simp only [List.foldl_nil, List.not_mem_nil, false_and, exists_false, or_false]
  | cons prior rest ih =>
    rw [List.foldl_cons, ih, List.exists_mem_cons_iff]
    rcases see_cases o recorded seen prior with ⟨outside, _, conflicting⟩ | ⟨inside, digest, _, conflicting⟩ |
      ⟨inside, digest, _, conflicting⟩
    · rw [conflicting]
      simp only [outside, false_and, false_or]
    · rw [conflicting]
      simp only [digest, ne_eq, not_true_eq_false, and_false, false_or]
    · rw [conflicting]
      simp only [inside, digest, ne_eq, not_false_eq_true, and_self, true_or, or_true,
        Option.isSome_some]

def Disagrees (o : Observation G) (history : List (PriorObservation G)) : Prop :=
  ∃ recorded, o.recordedAt = some recorded ∧
    ∃ p ∈ history, InWindow o recorded p ∧ p.payloadDigest ≠ o.payloadDigest

def Repeats (o : Observation G) (history : List (PriorObservation G)) : Prop :=
  ∃ recorded, o.recordedAt = some recorded ∧
    ∃ p ∈ history, InWindow o recorded p ∧ p.payloadDigest = o.payloadDigest

variable [Level G]

/-- A disagreement outranks a repeat, and everything else is new. -/
theorem classify_outcome (o : Observation G) (history : List (PriorObservation G)) :
    (Disagrees o history ∧ (classifyDuplicate o history).outcome = .conflict) ∨
      (¬Disagrees o history ∧ Repeats o history ∧
        (classifyDuplicate o history).outcome = .redeliveryCandidate) ∨
      (¬Disagrees o history ∧ ¬Repeats o history ∧ (classifyDuplicate o history).outcome = .new) := by
  unfold classifyDuplicate
  cases time : o.recordedAt with
  | none =>
    refine Or.inr (Or.inr ⟨?_, ?_, rfl⟩)
    · rintro ⟨recorded, known, _⟩
      rw [time] at known
      cases known
    · rintro ⟨recorded, known, _⟩
      rw [time] at known
      cases known
  | some recorded =>
    have identical := fold_identical o recorded {} history
    have conflicting := fold_conflicting o recorded {} history
    simp only [Option.isSome_none, Bool.false_eq_true, false_or] at identical conflicting
    have disagrees : Disagrees o history ↔
        (history.foldl (see o recorded) {}).conflicting.isSome = true := by
      rw [conflicting]
      constructor
      · rintro ⟨t, known, found⟩
        rw [time] at known
        cases known
        exact found
      · exact fun found => ⟨recorded, time, found⟩
    have repeats : Repeats o history ↔
        (history.foldl (see o recorded) {}).identical.isSome = true := by
      rw [identical]
      constructor
      · rintro ⟨t, known, found⟩
        rw [time] at known
        cases known
        exact found
      · exact fun found => ⟨recorded, time, found⟩
    rw [disagrees, repeats]
    simp only
    cases seen : (history.foldl (see o recorded) {}).conflicting with
    | some prior => exact Or.inl ⟨rfl, rfl⟩
    | none =>
      simp only [Option.isSome_none, Bool.false_eq_true, not_false_eq_true, true_and, false_and,
        false_or]
      split
      · rename_i found
        exact Or.inl ⟨found, rfl⟩
      · rename_i absent
        refine Or.inr ⟨absent, ?_⟩
        split <;> rfl

/-- The decision does not depend on the order of the rows. -/
theorem classify_perm (o : Observation G) (history history' : List (PriorObservation G))
    (permuted : history.Perm history') :
    (classifyDuplicate o history).outcome = (classifyDuplicate o history').outcome := by
  have disagrees : Disagrees o history ↔ Disagrees o history' := by
    simp only [Disagrees, permuted.mem_iff]
  have repeats : Repeats o history ↔ Repeats o history' := by
    simp only [Repeats, permuted.mem_iff]
  have left := classify_outcome o history
  have right := classify_outcome o history'
  rw [disagrees, repeats] at left
  rcases left with ⟨conflict, outcome⟩ | ⟨agree, again, outcome⟩ | ⟨agree, unseen, outcome⟩
  · rcases right with ⟨_, outcome'⟩ | ⟨agree, _⟩ | ⟨agree, _⟩
    · rw [outcome, outcome']
    · exact absurd conflict agree
    · exact absurd conflict agree
  · rcases right with ⟨conflict, _⟩ | ⟨_, _, outcome'⟩ | ⟨_, unseen, _⟩
    · exact absurd conflict agree
    · rw [outcome, outcome']
    · exact absurd again unseen
  · rcases right with ⟨conflict, _⟩ | ⟨_, again, _⟩ | ⟨_, _, outcome'⟩
    · exact absurd conflict agree
    · exact absurd again unseen
    · rw [outcome, outcome']

end Classification

section Keys

theorem utf8_injective (s t : String) (same : s.toUTF8.data.toList = t.toUTF8.data.toList) : s = t := by
  apply String.toByteArray_inj.mp
  apply ByteArray.ext
  exact Array.toList_inj.mp same

end Keys

section Steps

variable (sha256 : Bytes → String) [Level G]

def Attempt.bytes (a : Attempt G) : Bytes :=
  intakeBytes a.delivery.topic (sha256 a.delivery.payload) a.delivery.receivedAt

def Attempt.key (a : Attempt G) : String := sha256 (a.bytes sha256)

/-- The record is that of the delivery. -/
def Belongs (record : DeliveryRecord) (d : Delivery) : Prop :=
  record.topic = d.topic ∧ record.payloadDigest = sha256 d.payload ∧ record.receivedAt = d.receivedAt

omit [Level G] in
theorem evaluate_key (a : Attempt G) :
    intakeKey sha256 (evaluate sha256 a.delivery a.verdict).record = a.key sha256 := by
  unfold evaluate
  cases a.verdict <;> rfl

theorem judge_belongs (a : Attempt G) (s : Store G) :
    Belongs sha256 (judge sha256 a s).record a.delivery := by
  unfold judge evaluate
  cases a.verdict <;> exact ⟨rfl, rfl, rfl⟩

theorem judge_key (a : Attempt G) (s : Store G) :
    intakeKey sha256 (judge sha256 a s).record = a.key sha256 := by
  obtain ⟨topic, digest, receivedAt⟩ := judge_belongs sha256 a s
  rw [intakeKey, topic, digest, receivedAt]
  rfl

def history (a : Attempt G) (r : Reading G) (s : Store G) : List (PriorObservation G) :=
  priorObservations r.device r.recordedAt a.delivery.receivedAt s

def Attempt.observation (a : Attempt G) (r : Reading G) : Observation G where
  device := r.device
  recordedAt := r.recordedAt
  receivedAt := a.delivery.receivedAt
  gwl := r.gwl
  payloadDigest := sha256 a.delivery.payload

/-- The decision of an attempt on a reading, and what it leaves of the observation. -/
theorem judge_reading (a : Attempt G) (r : Reading G) (s : Store G) (read : a.verdict = .reading r) :
    ∃ decision, (judge sha256 a s).duplicate = some decision ∧
      decision.outcome = (classifyDuplicate (a.observation sha256 r) (history a r s)).outcome ∧
      (judge sha256 a s).observation =
        if decision.outcome = .redeliveryCandidate then none else some (a.observation sha256 r) := by
  refine ⟨classifyDuplicate (a.observation sha256 r) (a.order.arrange (history a r s)), ?_, ?_, ?_⟩
  · simp only [judge, evaluate, read, finalize]
    rfl
  · exact classify_perm _ _ _ (a.order.perm _)
  · simp only [judge, evaluate, read, finalize]
    rfl

theorem judge_observation (a : Attempt G) (s : Store G) (o : Observation G)
    (observed : (judge sha256 a s).observation = some o) :
    ∃ decision, (judge sha256 a s).duplicate = some decision := by
  cases verdict : a.verdict with
  | quarantined reason detail =>
    simp only [judge, evaluate, verdict, finalize, reduceCtorEq] at observed
  | reading r =>
    obtain ⟨decision, known, _⟩ := judge_reading sha256 a r s verdict
    exact ⟨decision, known⟩

omit [Level G] in
theorem existingIntake_none (key : String) (s : Store G) :
    existingIntake key s = none ↔
      ∀ id row, s.deliveries.get id = some row → row.ingestKey ≠ key := by
  rw [existingIntake, Option.map_eq_none_iff, List.head?_eq_none_iff, Table.select_eq_nil]
  simp only [decide_eq_false_iff_not, ne_eq]

omit [Level G] in
theorem existingIntake_some (key : String) (s : Store G) (id : Nat)
    (found : existingIntake key s = some id) :
    ∃ row, s.deliveries.get id = some row ∧ row.ingestKey = key := by
  obtain ⟨⟨id', row⟩, first, rfl⟩ := Option.map_eq_some_iff.mp found
  obtain ⟨there, same⟩ := (Table.mem_select ..).mp (List.mem_of_head? first)
  exact ⟨row, there, of_decide_eq_true same⟩

/-- The rows of a committed attempt. -/
structure Written (a : Attempt G) (s s' : Store G) : Prop where
  absent : ∀ id row, s.deliveries.get id = some row → row.ingestKey ≠ a.key sha256
  deliveries : s'.deliveries = s.deliveries.insert ⟨(judge sha256 a s).record, a.key sha256⟩
  observations : ((judge sha256 a s).observation = none ∧ s'.observations = s.observations) ∨
    ∃ o decision, (judge sha256 a s).observation = some o ∧
      (judge sha256 a s).duplicate = some decision ∧
      s'.observations = s.observations.insert (o.row s.deliveries.next decision)

/-- An attempt meets its own row, changes nothing, or writes its rows. -/
theorem handlePublish_cases (a : Attempt G) (s : Store G) :
    (handlePublish sha256 a s = (s, true) ∧
      ∃ id row, s.deliveries.get id = some row ∧ row.ingestKey = a.key sha256) ∨
    handlePublish sha256 a s = (s, false) ∨
    Written sha256 a s (handlePublish sha256 a s).1 := by
  unfold handlePublish
  rw [evaluate_key]
  simp only
  cases existing : existingIntake (a.key sha256) s with
  | some id =>
    obtain ⟨row, there, same⟩ := existingIntake_some (a.key sha256) s id existing
    exact Or.inl ⟨rfl, id, row, there, same⟩
  | none =>
    have absent := (existingIntake_none (a.key sha256) s).mp existing
    have written : Written sha256 a s (recordIntake sha256 (judge sha256 a s) s) := by
      simp only [recordIntake, judge_key, existing]
      cases observed : (judge sha256 a s).observation with
      | none => exact ⟨absent, rfl, Or.inl ⟨observed, rfl⟩⟩
      | some o =>
        obtain ⟨decision, known⟩ := judge_observation sha256 a s o observed
        rw [known]
        exact ⟨absent, rfl, Or.inr ⟨o, decision, observed, known, rfl⟩⟩
    simp only
    rcases commit_cases a.outcome s (some (recordIntake sha256 (judge sha256 a s) s, ())) with
      ⟨same, unanswered⟩ | ⟨s', answer, produced, same, _⟩
    · rw [same, unanswered]
      exact Or.inr (Or.inl rfl)
    · cases produced
      rw [same]
      exact Or.inr (Or.inr written)

end Steps

section Invariant

variable (sha256 : Bytes → String)

structure StoreOk (attempts : List (Attempt G)) (s : Store G) : Prop where
  belongs : ∀ id row, s.deliveries.get id = some row → row.ingestKey = intakeKey sha256 row.record ∧
    ∃ a ∈ attempts, Belongs sha256 row.record a.delivery
  unique : ∀ id row id' row', s.deliveries.get id = some row → s.deliveries.get id' = some row' →
    row.ingestKey = row'.ingestKey → id = id'
  owned : ∀ oid o, s.observations.get oid = some o → ∃ row, s.deliveries.get o.deliveryId = some row
  single : ∀ oid o oid' o', s.observations.get oid = some o → s.observations.get oid' = some o' →
    o.deliveryId = o'.deliveryId → oid = oid'

/-- Rows stay as they were written. -/
structure Extends (s s' : Store G) : Prop where
  deliveries : ∀ id row, s.deliveries.get id = some row → s'.deliveries.get id = some row
  observations : ∀ oid o, s.observations.get oid = some o → s'.observations.get oid = some o

theorem Extends.refl (s : Store G) : Extends s s := ⟨fun _ _ found => found, fun _ _ found => found⟩

theorem Extends.trans {s t u : Store G} (first : Extends s t) (second : Extends t u) : Extends s u where
  deliveries id row found := second.deliveries id row (first.deliveries id row found)
  observations oid o found := second.observations oid o (first.observations oid o found)

variable {sha256} [Level G] {attempts : List (Attempt G)}

theorem Written.extends {a : Attempt G} {s s' : Store G} (written : Written sha256 a s s') :
    Extends s s' := by
  constructor
  · intro id row found
    rw [written.deliveries]
    exact Table.get_insert_of_get _ _ _ _ found
  · intro oid o found
    rcases written.observations with ⟨_, same⟩ | ⟨_, _, _, _, inserted⟩
    · rw [same]
      exact found
    · rw [inserted]
      exact Table.get_insert_of_get _ _ _ _ found

theorem written_ok {a : Attempt G} {s s' : Store G} (member : a ∈ attempts)
    (ok : StoreOk sha256 attempts s) (written : Written sha256 a s s') : StoreOk sha256 attempts s' := by
  have delivery_cases : ∀ id row, s'.deliveries.get id = some row → s.deliveries.get id = some row ∨
      (id = s.deliveries.next ∧ row = ⟨(judge sha256 a s).record, a.key sha256⟩) := by
    intro id row found
    rw [written.deliveries] at found
    exact Table.get_insert_cases _ _ _ _ found
  have observation_cases : ∀ oid o, s'.observations.get oid = some o →
      s.observations.get oid = some o ∨
        (oid = s.observations.next ∧ o.deliveryId = s.deliveries.next) := by
    intro oid o found
    rcases written.observations with ⟨_, same⟩ | ⟨observed, decision, _, _, inserted⟩
    · rw [same] at found
      exact Or.inl found
    · rw [inserted] at found
      rcases Table.get_insert_cases _ _ _ _ found with old | ⟨new, rfl⟩
      · exact Or.inl old
      · exact Or.inr ⟨new, rfl⟩
  have earlier : ∀ oid o, s.observations.get oid = some o → o.deliveryId ≠ s.deliveries.next := by
    intro oid o found same
    obtain ⟨row, there⟩ := ok.owned oid o found
    rw [same, s.deliveries.above _ (Nat.le_refl _)] at there
    cases there
  constructor
  · intro id row found
    rcases delivery_cases id row found with old | ⟨_, rfl⟩
    · exact ok.belongs id row old
    · exact ⟨(judge_key sha256 a s).symm, a, member, judge_belongs sha256 a s⟩
  · intro id row id' row' found found' same
    rcases delivery_cases id row found with old | ⟨new, rfl⟩ <;>
      rcases delivery_cases id' row' found' with old' | ⟨new', rfl⟩
    · exact ok.unique id row id' row' old old' same
    · exact absurd same (written.absent id row old)
    · exact absurd same.symm (written.absent id' row' old')
    · rw [new, new']
  · intro oid o found
    rcases observation_cases oid o found with old | ⟨_, same⟩
    · obtain ⟨row, there⟩ := ok.owned oid o old
      exact ⟨row, written.extends.deliveries _ _ there⟩
    · rw [same, written.deliveries]
      exact ⟨_, Table.get_insert_self _ _⟩
  · intro oid o oid' o' found found' same
    rcases observation_cases oid o found with old | ⟨new, named⟩ <;>
      rcases observation_cases oid' o' found' with old' | ⟨new', named'⟩
    · exact ok.single oid o oid' o' old old' same
    · exact absurd (same.trans named') (earlier oid o old)
    · exact absurd (same.symm.trans named) (earlier oid' o' old')
    · rw [new, new']

theorem step_ok (s : Store G) (a : Attempt G) (member : a ∈ attempts) (ok : StoreOk sha256 attempts s) :
    StoreOk sha256 attempts (intakeStep sha256 s a) := by
  unfold intakeStep
  rcases handlePublish_cases sha256 a s with ⟨same, _⟩ | same | written
  · rw [same]
    exact ok
  · rw [same]
    exact ok
  · exact written_ok member ok written

omit [Level G] in
theorem empty_ok (attempts : List (Attempt G)) : StoreOk sha256 attempts {} := by
  constructor <;> intros <;> simp only [Table.get_empty, reduceCtorEq] at *

theorem run_ok (attempts : List (Attempt G)) :
    StoreOk sha256 attempts (Runs.run (intakeStep sha256) {} attempts) := by
  apply Runs.run_invariant_mem
  · exact fun s a member ok => step_ok s a member ok
  · exact empty_ok attempts

end Invariant

section Suppression

variable (sha256 : Bytes → String) [Level G]

/-- The row holds the measurement of the attempt. -/
structure Holds (a : Attempt G) (r : Reading G) (o : ObservationRow G) : Prop where
  device : o.device = r.device
  recordedAt : o.recordedAt = r.recordedAt
  gwl : o.gwl = r.gwl
  payloadDigest : o.payloadDigest = sha256 a.delivery.payload
  receivedAt : o.receivedAt = column a.delivery.receivedAt.nanoseconds

/-- The row is of the same device, event time and payload, received at most 15 minutes earlier. -/
structure Covers (a : Attempt G) (r : Reading G) (o : ObservationRow G) : Prop where
  device : o.device = r.device
  recordedAt : ∃ recorded, r.recordedAt = some recorded ∧ o.recordedAt = some recorded
  payloadDigest : o.payloadDigest = sha256 a.delivery.payload
  before : o.receivedAt ≤ a.delivery.receivedAt.nanoseconds
  within : a.delivery.receivedAt.nanoseconds - o.receivedAt ≤ minutes 15

/-- The delivery has an observation with the measurement, decided as given. -/
def Observed (a : Attempt G) (r : Reading G) (id : Nat) (outcome : DuplicateOutcome) (s : Store G) : Prop :=
  ∃ oid o, s.observations.get oid = some o ∧ o.deliveryId = id ∧ Holds sha256 a r o ∧
    o.duplicate.outcome = outcome

/-- The attempt writes the row. -/
def Writes (a : Attempt G) (s : Store G) (id : Nat) (row : DeliveryRow) : Prop :=
  s.deliveries.get id = none ∧ (handlePublish sha256 a s).1.deliveries.get id = some row

omit [Level G] in
/-- The day the query looks back leaves no row of the receipt window out. -/
theorem history_complete (a : Attempt G) (r : Reading G) (s : Store G) (recorded : Int) (oid : Nat)
    (o : ObservationRow G) (found : s.observations.get oid = some o)
    (canonical : canonicalDeviceId r.device = r.device) (device : o.device = r.device)
    (time : r.recordedAt = some recorded) (same : o.recordedAt = some recorded)
    (recent : a.delivery.receivedAt.nanoseconds - o.receivedAt ≤ minutes 15) :
    ∃ p ∈ history a r s, p.device = o.device ∧ p.recordedAt = some recorded ∧
      p.receivedAt = o.receivedAt ∧ p.payloadDigest = o.payloadDigest := by
  have cut : column a.delivery.receivedAt.nanoseconds - 1000 ≤ a.delivery.receivedAt.nanoseconds := by
    have remainder := Int.tmod_lt_of_pos (a.delivery.receivedAt.nanoseconds - epoch2000)
      (show (0 : Int) < 1000 by decide)
    have parts := Int.mul_tdiv_add_tmod (a.delivery.receivedAt.nanoseconds - epoch2000) 1000
    have low := Int.lt_tmod_of_pos (a.delivery.receivedAt.nanoseconds - epoch2000)
      (show (0 : Int) < 1000 by decide)
    unfold column
    omega
  have day : column a.delivery.receivedAt.nanoseconds - minutes 1440 ≤ o.receivedAt := by
    unfold minutes at *
    omega
  unfold history priorObservations
  rw [time]
  refine ⟨_, List.mem_map_of_mem ((Table.mem_select _ _ oid o).mpr ⟨found, ?_⟩), rfl, rfl, rfl, rfl⟩
  simp only [canonical, device, same, day, decide_true, Bool.and_self]

variable {sha256} {a : Attempt G} {s s' : Store G} {id : Nat} {row : DeliveryRow}

omit [Level G] in
theorem Observed.mono {r : Reading G} {outcome : DuplicateOutcome}
    (observed : Observed sha256 a r id outcome s) (more : Extends s s') :
    Observed sha256 a r id outcome s' := by
  obtain ⟨oid, o, found, rest⟩ := observed
  exact ⟨oid, o, more.observations oid o found, rest⟩

/-- What a delivery has in the database after a run. -/
structure Kept (sha256 : Bytes → String) (final : Store G) (a : Attempt G) (s : Store G) : Prop where
  answered : (handlePublish sha256 a s).2 = true →
    ∃ id row, final.deliveries.get id = some row ∧ Belongs sha256 row.record a.delivery
  observed : ∀ r id row, a.verdict = .reading r → Writes sha256 a s id row →
    (∃ outcome, Observed sha256 a r id outcome final) ∨
      ∃ oid o, s.observations.get oid = some o ∧ Covers sha256 a r o
  conflict : ∀ r id row, a.verdict = .reading r → Writes sha256 a s id row →
    Disagrees (a.observation sha256 r) (history a r s) → Observed sha256 a r id .conflict final

instance : Level Int := ⟨toString⟩

end Suppression

end NixHomeServer.Groundwater.Intake
