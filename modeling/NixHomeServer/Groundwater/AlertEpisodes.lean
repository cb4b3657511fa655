import NixHomeServer.Groundwater.Alerts

/-! The hysteresis machine without a table, and the alert table that shows it.
The machine keeps a list of closed episodes and at most one open episode.
`Shows` relates it to the rows of one device and to the remembered active id. -/
namespace NixHomeServer.Groundwater.Alerts

structure Trace (γ : Type) where
  closed : List (Episode γ)
  current : Option (Episode γ)

namespace Trace

variable {γ : Type}

def quiet : Trace γ := ⟨[], none⟩

def episodes (t : Trace γ) : List (Episode γ) := t.closed ++ t.current.toList

def kind (t : Trace γ) : Option AlertKind := t.current.map Episode.kind

end Trace

section Machine

variable {γ : Type} [Level γ]

def Episode.close (e : Episode γ) (instant : Instant) : Episode γ :=
  { e with state := .resolved, resolvedAt := some instant }

def Sample.opening (s : Sample γ) (kind : AlertKind) : Episode γ :=
  { kind := kind, openedAt := s.recordedAt, triggerValue := s.gwl, state := .open
    resolvedAt := none }

/-- One step of the machine: a change of kind closes the open episode and opens the next. -/
def Trace.advance (minLimit maxLimit : γ) (t : Trace γ) (s : Sample γ) : Trace γ :=
  let next := nextKind minLimit maxLimit s.gwl t.kind
  if next = t.kind then t
  else
    { closed := t.closed ++ (t.current.map (fun e => e.close s.recordedAt)).toList
      current := next.map s.opening }

theorem advance_current_open (minLimit maxLimit : γ) (t : Trace γ) (s : Sample γ)
    (opened : ∀ e, t.current = some e → e.state = .open) :
    ∀ e, (t.advance minLimit maxLimit s).current = some e → e.state = .open := by
  intro e current
  simp only [Trace.advance] at current
  split at current
  · exact opened e current
  · obtain ⟨kind, _, rfl⟩ := Option.map_eq_some_iff.mp current
    rfl

theorem fold_current_open (minLimit maxLimit : γ) (list : List (Sample γ)) :
    ∀ e, (list.foldl (Trace.advance minLimit maxLimit) Trace.quiet).current = some e →
      e.state = .open := by
  have general : ∀ t : Trace γ, (∀ e, t.current = some e → e.state = .open) →
      ∀ e, (list.foldl (Trace.advance minLimit maxLimit) t).current = some e →
        e.state = .open := by
    induction list with
    | nil => exact fun t opened => opened
    | cons s rest ih =>
      intro t opened
      exact ih _ (advance_current_open minLimit maxLimit t s opened)
  exact general Trace.quiet (fun e impossible => nomatch impossible)

theorem advance_opened_at (minLimit maxLimit : γ) (t : Trace γ) (s : Sample γ) :
    ∀ e ∈ (t.advance minLimit maxLimit s).episodes,
      e.openedAt = s.recordedAt ∨ ∃ old ∈ t.episodes, e.openedAt = old.openedAt := by
  intro e member
  simp only [Trace.advance] at member
  split at member
  · exact Or.inr ⟨e, member, rfl⟩
  · simp only [Trace.episodes, List.mem_append, Option.mem_toList, Option.map_eq_some_iff] at member
    rcases member with (old | ⟨open_, was, rfl⟩) | ⟨kind, _, rfl⟩
    · exact Or.inr ⟨e, List.mem_append_left _ old, rfl⟩
    · refine Or.inr ⟨open_, List.mem_append_right _ ?_, rfl⟩
      simp only [was, Option.toList_some, List.mem_singleton]
    · exact Or.inl rfl

/-- Every episode opens at an instant that was folded. -/
theorem fold_opened_at (minLimit maxLimit : γ) (list : List (Sample γ)) (t : Trace γ) :
    ∀ e ∈ (list.foldl (Trace.advance minLimit maxLimit) t).episodes,
      (∃ s ∈ list, e.openedAt = s.recordedAt) ∨ ∃ old ∈ t.episodes, e.openedAt = old.openedAt := by
  induction list generalizing t with
  | nil => exact fun e member => Or.inr ⟨e, member, rfl⟩
  | cons s rest ih =>
    intro e member
    rcases ih (t.advance minLimit maxLimit s) e member with ⟨later, inRest, same⟩ | ⟨old, was, same⟩
    · exact Or.inl ⟨later, List.mem_cons_of_mem _ inRest, same⟩
    · rcases advance_opened_at minLimit maxLimit t s old was with here | ⟨older, before, same'⟩
      · exact Or.inl ⟨s, List.mem_cons_self, same.trans here⟩
      · exact Or.inr ⟨older, before, same.trans same'⟩

end Machine

namespace AlertTable

variable {γ : Type}

theorem mem_rowsOf (t : AlertTable γ) (target : DeviceId) (a : Alert γ) :
    a ∈ t.rowsOf target ↔ a ∈ t.rows ∧ a.device = target := by
  simp only [rowsOf, List.mem_filter, decide_eq_true_eq]

theorem mem_live (t : AlertTable γ) (target : DeviceId) (e : Episode γ) :
    e ∈ t.live target ↔
      ∃ a ∈ t.rowsOf target, a.superseded = false ∧ a.toEpisode = e := by
  simp only [live, List.mem_map, List.mem_filter, Bool.not_eq_true', and_assoc]

theorem row_unique (t : AlertTable γ) {a b : Alert γ} (inA : a ∈ t.rows) (inB : b ∈ t.rows)
    (same : a.id = b.id) : a = b :=
  List.inj_on_of_nodup_map t.ids_distinct inA inB same

theorem find_key (t : AlertTable γ) (key : DeviceId × AlertKind × Instant) (old : Alert γ)
    (found : t.rows.find? (fun a => decide (a.key = key)) = some old) :
    old ∈ t.rows ∧ old.key = key := by
  have hit := List.find?_some found
  exact ⟨List.mem_of_find?_eq_some found, by simpa only [decide_eq_true_eq] using hit⟩

theorem mem_amend_rowsOf (t : AlertTable γ) (f : Alert γ → Alert γ)
    (same_id : ∀ a, (f a).id = a.id) (same_key : ∀ a, (f a).key = a.key) (target : DeviceId)
    (a : Alert γ) :
    a ∈ (t.amend f same_id same_key).rowsOf target ↔ ∃ old ∈ t.rowsOf target, f old = a := by
  simp only [mem_rowsOf, amend, List.mem_map]
  constructor
  · rintro ⟨⟨old, member, rfl⟩, device⟩
    exact ⟨old, ⟨member, (congrArg Prod.fst (same_key old)).symm.trans device⟩, rfl⟩
  · rintro ⟨old, ⟨member, device⟩, rfl⟩
    exact ⟨⟨old, member, rfl⟩, (congrArg Prod.fst (same_key old)).trans device⟩

/-- An update that does not touch a device's rows leaves them as they are. -/
theorem amend_rowsOf_frame (t : AlertTable γ) (f : Alert γ → Alert γ)
    (same_id : ∀ a, (f a).id = a.id) (same_key : ∀ a, (f a).key = a.key) (other : DeviceId)
    (untouched : ∀ a ∈ t.rows, a.device = other → f a = a) :
    (t.amend f same_id same_key).rowsOf other = t.rowsOf other := by
  have same_device : ∀ a, (f a).device = a.device := fun a => congrArg Prod.fst (same_key a)
  simp only [rowsOf, amend, List.filter_map, Function.comp_def, same_device]
  refine (List.map_congr_left ?_).trans (List.map_id _)
  intro a member
  have kept := List.mem_filter.mp member
  exact untouched a kept.1 (of_decide_eq_true kept.2)

theorem mem_supersede_rowsOf (t : AlertTable γ) (target : DeviceId) (a : Alert γ) :
    a ∈ (t.supersede target).rowsOf target ↔ ∃ old ∈ t.rowsOf target, old.supersede target = a :=
  t.mem_amend_rowsOf _ _ _ target a

theorem mem_resolve_rowsOf (t : AlertTable γ) (id : Nat) (instant : Instant) (target : DeviceId)
    (a : Alert γ) :
    a ∈ (t.resolve id instant).rowsOf target ↔ ∃ old ∈ t.rowsOf target, old.resolve id instant = a :=
  t.mem_amend_rowsOf _ _ _ target a

theorem mem_revive_rowsOf (t : AlertTable γ) (id : Nat) (value : γ) (target : DeviceId)
    (a : Alert γ) :
    a ∈ (t.revive id value).rowsOf target ↔ ∃ old ∈ t.rowsOf target, old.revive id value = a :=
  t.mem_amend_rowsOf _ _ _ target a

theorem supersede_rowsOf_frame (t : AlertTable γ) (target other : DeviceId)
    (different : other ≠ target) : (t.supersede target).rowsOf other = t.rowsOf other := by
  apply amend_rowsOf_frame
  intro a _ device
  have elsewhere : a.device ≠ target := fun same => different (device.symm.trans same)
  exact if_neg elsewhere

theorem resolve_rowsOf_frame (t : AlertTable γ) (id : Nat) (instant : Instant)
    (other : DeviceId) (elsewhere : ∀ a ∈ t.rows, a.id = id → a.device ≠ other) :
    (t.resolve id instant).rowsOf other = t.rowsOf other := by
  apply amend_rowsOf_frame
  intro a member device
  exact if_neg fun same => elsewhere a member same device

theorem drawId_rowsOf (t : AlertTable γ) (target : DeviceId) :
    t.drawId.rowsOf target = t.rowsOf target := rfl

theorem openEpisode_rowsOf_frame (t : AlertTable γ) (target other : DeviceId) (kind : AlertKind)
    (value : γ) (instant : Instant) (different : other ≠ target) :
    (t.openEpisode target kind value instant).1.rowsOf other = t.rowsOf other := by
  unfold openEpisode
  split
  · rename_i old found
    rw [drawId_rowsOf]
    apply amend_rowsOf_frame
    intro a member device
    have unnamed : a.id ≠ old.id := by
      intro same
      obtain ⟨old_row, key⟩ := t.find_key _ old found
      rw [t.row_unique member old_row same] at device
      exact different (device.symm.trans (congrArg Prod.fst key))
    exact if_neg unnamed
  · simp only [rowsOf, append, List.filter_append, List.filter_singleton]
    simp only [different.symm, decide_false, cond_false, List.append_nil]

end AlertTable

variable {γ : Type}

/-- The rows of `target` that are not superseded are exactly the trace, and `activeId` names
the open episode. -/
structure Shows (target : DeviceId) (table : AlertTable γ) (activeId : Option Nat)
    (t : Trace γ) : Prop where
  closed : ∀ e, e ∈ t.closed ↔ ∃ a ∈ table.rowsOf target,
    a.superseded = false ∧ activeId ≠ some a.id ∧ a.toEpisode = e
  current : ∀ e, t.current = some e ↔ ∃ a ∈ table.rowsOf target,
    a.superseded = false ∧ activeId = some a.id ∧ a.toEpisode = e
  idle : t.current = none → activeId = none

namespace Shows

theorem live_iff (target : DeviceId) (table : AlertTable γ) (activeId : Option Nat) (t : Trace γ)
    (shown : Shows target table activeId t) (e : Episode γ) :
    e ∈ table.live target ↔ e ∈ t.episodes := by
  simp only [AlertTable.mem_live, Trace.episodes, List.mem_append, Option.mem_toList,
    shown.closed, shown.current]
  constructor
  · rintro ⟨a, member, standing, same⟩
    by_cases named : activeId = some a.id
    · exact Or.inr ⟨a, member, standing, named, same⟩
    · exact Or.inl ⟨a, member, standing, named, same⟩
  · rintro (⟨a, member, standing, _, same⟩ | ⟨a, member, standing, _, same⟩)
    · exact ⟨a, member, standing, same⟩
    · exact ⟨a, member, standing, same⟩

theorem congr (target : DeviceId) (table table' : AlertTable γ) (activeId : Option Nat)
    (t : Trace γ) (shown : Shows target table activeId t)
    (same : table'.rowsOf target = table.rowsOf target) : Shows target table' activeId t :=
  ⟨same ▸ shown.closed, same ▸ shown.current, shown.idle⟩

/-- A full replay starts from the empty trace: it supersedes whatever stood before. -/
theorem supersede (target : DeviceId) (table : AlertTable γ) :
    Shows target (table.supersede target) none Trace.quiet := by
  have gone : ∀ a ∈ (table.supersede target).rowsOf target, a.superseded = true := by
    intro a member
    obtain ⟨old, before, rfl⟩ := (table.mem_supersede_rowsOf target a).mp member
    have device := ((AlertTable.mem_rowsOf ..).mp before).2
    rw [Alert.supersede, if_pos device]
  constructor
  · intro e
    constructor
    · intro impossible; cases impossible
    · rintro ⟨a, member, standing, _⟩
      rw [gone a member] at standing
      cases standing
  · intro e
    constructor
    · intro impossible; cases impossible
    · rintro ⟨a, _, _, impossible, _⟩
      cases impossible
  · exact fun _ => rfl

/-- Resolving the active row closes the open episode. -/
theorem resolve (target : DeviceId) (table : AlertTable γ) (id : Nat) (t : Trace γ)
    (instant : Instant) (e : Episode γ) (shown : Shows target table (some id) t)
    (opened : t.current = some e) :
    Shows target (table.resolve id instant) none ⟨t.closed ++ [e.close instant], none⟩ := by
  obtain ⟨active, inTable, standing, named, same⟩ := (shown.current e).mp opened
  have activeId : active.id = id := (Option.some.inj named).symm
  have active_row := ((AlertTable.mem_rowsOf ..).mp inTable).1
  have resolved : active.resolve id instant =
      { active with state := .resolved, resolvedAt := some instant } := if_pos activeId
  constructor
  · intro x
    simp only [List.mem_append, List.mem_singleton, shown.closed, AlertTable.mem_resolve_rowsOf]
    constructor
    · rintro (⟨a, member, kept, other, rfl⟩ | rfl)
      · have unnamed : a.id ≠ id := fun hit => other (congrArg some hit.symm)
        have unchanged : a.resolve id instant = a := if_neg unnamed
        exact ⟨a, ⟨a, member, unchanged⟩, kept, nofun, rfl⟩
      · refine ⟨_, ⟨active, inTable, resolved⟩, standing, nofun, ?_⟩
        rw [← same]
        rfl
    · rintro ⟨a, ⟨old, before, rfl⟩, kept, _, rfl⟩
      by_cases hit : old.id = id
      · right
        have old_row := ((AlertTable.mem_rowsOf ..).mp before).1
        have identical := table.row_unique old_row active_row (hit.trans activeId.symm)
        rw [identical, resolved, ← same]
        rfl
      · left
        have unchanged : old.resolve id instant = old := if_neg hit
        rw [unchanged] at kept ⊢
        exact ⟨old, before, kept, fun other => hit (Option.some.inj other).symm, rfl⟩
  · intro x
    constructor
    · intro impossible; cases impossible
    · rintro ⟨a, _, _, impossible, _⟩
      cases impossible
  · exact fun _ => rfl

/-- Opening an episode later than every closed one adds exactly that episode, whether its row is
new or a superseded row of the same key. -/
theorem openEpisode (target : DeviceId) (table : AlertTable γ) (closed : List (Episode γ))
    (kind : AlertKind) (value : γ) (instant : Instant)
    (shown : Shows target table none ⟨closed, none⟩)
    (later : ∀ e ∈ closed, e.openedAt < instant) :
    Shows target (table.openEpisode target kind value instant).1
      (some (table.openEpisode target kind value instant).2)
      ⟨closed, some ⟨kind, instant, value, .open, none⟩⟩ := by
  have standing_closed : ∀ a ∈ table.rowsOf target, a.superseded = false → a.openedAt < instant := by
    intro a member standing
    exact later _ ((shown.closed a.toEpisode).mpr ⟨a, member, standing, nofun, rfl⟩)
  unfold AlertTable.openEpisode
  split
  · rename_i old found
    obtain ⟨old_row, key⟩ := table.find_key _ old found
    have device : old.device = target := congrArg Prod.fst key
    have old_kind : old.kind = kind := congrArg (fun k => k.2.1) key
    have old_instant : old.openedAt = instant := congrArg (fun k => k.2.2) key
    have inTable : old ∈ table.rowsOf target := (AlertTable.mem_rowsOf ..).mpr ⟨old_row, device⟩
    have superseded : ∀ a ∈ table.rowsOf target, a.superseded = false → a.id ≠ old.id := by
      intro a member standing same
      have identical := table.row_unique ((AlertTable.mem_rowsOf ..).mp member).1 old_row same
      have before := standing_closed a member standing
      rw [identical, old_instant] at before
      exact lt_irrefl _ before
    have revived : old.revive old.id value =
        { old with state := .open, resolvedAt := none, triggerValue := value
                   superseded := false } := if_pos rfl
    constructor
    · intro x
      simp only [shown.closed, AlertTable.drawId_rowsOf, AlertTable.mem_revive_rowsOf]
      constructor
      · rintro ⟨a, member, standing, _, rfl⟩
        have unnamed := superseded a member standing
        have unchanged : a.revive old.id value = a := if_neg unnamed
        exact ⟨a, ⟨a, member, unchanged⟩, standing,
          fun hit => unnamed (Option.some.inj hit).symm, rfl⟩
      · rintro ⟨a, ⟨before, inBefore, rfl⟩, standing, other, rfl⟩
        rw [Alert.revive_id] at other
        have unnamed : before.id ≠ old.id := fun hit => other (congrArg some hit.symm)
        have unchanged : before.revive old.id value = before := if_neg unnamed
        rw [unchanged] at standing ⊢
        exact ⟨before, inBefore, standing, nofun, rfl⟩
    · intro x
      simp only [AlertTable.drawId_rowsOf, AlertTable.mem_revive_rowsOf]
      constructor
      · intro same
        refine ⟨_, ⟨old, inTable, revived⟩, rfl, rfl, ?_⟩
        simp only [old_kind, old_instant]
        exact Option.some.inj same
      · rintro ⟨a, ⟨before, inBefore, rfl⟩, _, hit, rfl⟩
        rw [Alert.revive_id] at hit
        have named : before.id = old.id := (Option.some.inj hit).symm
        have identical := table.row_unique ((AlertTable.mem_rowsOf ..).mp inBefore).1 old_row named
        rw [identical, revived]
        simp only [old_kind, old_instant]
    · intro impossible; cases impossible
  · rename_i absent
    have fresh_id : ∀ a ∈ table.rowsOf target, a.id ≠ table.nextId := by
      intro a member same
      have below := table.ids_below a ((AlertTable.mem_rowsOf ..).mp member).1
      omega
    have members : ∀ a : Alert γ,
        a ∈ (table.append
          { id := table.nextId, device := target, kind := kind, state := .open
            triggerValue := value, openedAt := instant, resolvedAt := none, superseded := false }
          rfl (by
            intro a member same
            exact List.find?_eq_none.mp absent a member (decide_eq_true same))).rowsOf target ↔
        a ∈ table.rowsOf target ∨
        a = { id := table.nextId, device := target, kind := kind, state := .open
              triggerValue := value, openedAt := instant, resolvedAt := none
              superseded := false } := by
      intro a
      simp only [AlertTable.mem_rowsOf, AlertTable.append, List.mem_append, List.mem_singleton]
      constructor
      · rintro ⟨old | new, device⟩
        · exact Or.inl ⟨old, device⟩
        · exact Or.inr new
      · rintro (⟨old, device⟩ | rfl)
        · exact ⟨Or.inl old, device⟩
        · exact ⟨Or.inr rfl, rfl⟩
    constructor
    · intro x
      simp only [shown.closed, members]
      constructor
      · rintro ⟨a, member, standing, _, rfl⟩
        exact ⟨a, Or.inl member, standing,
          fun hit => fresh_id a member (Option.some.inj hit).symm, rfl⟩
      · rintro ⟨a, old | rfl, standing, other, rfl⟩
        · exact ⟨a, old, standing, nofun, rfl⟩
        · exact absurd rfl other
    · intro x
      simp only [members]
      constructor
      · intro same
        exact ⟨_, Or.inr rfl, rfl, rfl, Option.some.inj same⟩
      · rintro ⟨a, old | rfl, _, hit, rfl⟩
        · exact absurd (Option.some.inj hit).symm (fresh_id a old)
        · rfl
    · intro impossible; cases impossible

end Shows

end NixHomeServer.Groundwater.Alerts
