import NixHomeServer.Groundwater.AlertEpisodes

/-! The resumed replay agrees with a full fold over all observations.
`Checkpoint` is what the triggers and the replay keep true of every device:
as long as no dirty instant lies at or below the cursor, the alert table shows
the fold of the samples up to the cursor under the current limits. -/
namespace NixHomeServer.Groundwater.Alerts

open NixHomeServer.Library

variable {γ : Type} [Level γ]

section Specification

def greatestPlausible (rows : List (Observation γ)) : Option Instant :=
  ((rows.filter (fun o => decide (o.timeQuality = .plausibleTime))).filterMap
    Observation.recordedAt).max?

/-- The sample of one instant: some row is plausible and all rows agree on the level. -/
def settled (instant : Instant) : List (Observation γ) → Option (Sample γ)
  | [] => none
  | o :: rest =>
    if (o :: rest).any (fun x => decide (x.timeQuality = .plausibleTime)) &&
        rest.all (fun x => decide (x.gwl = o.gwl)) then some ⟨instant, o.gwl⟩
    else none

def settledSamples (rows : List (Observation γ)) : List (Sample γ) :=
  Timeline.series Observation.recordedAt settled (upTo (greatestPlausible rows)) rows

def foldLimits (minLimit maxLimit : Option γ) (list : List (Sample γ)) : Trace γ :=
  match minLimit, maxLimit with
  | some low, some high =>
    if low < high then list.foldl (Trace.advance low high) Trace.quiet else Trace.quiet
  | _, _ => Trace.quiet

/-- One full left fold from the no-alert state over everything that was observed. -/
def fullFold (minLimit maxLimit : Option γ) (rows : List (Observation γ)) : Trace γ :=
  foldLimits minLimit maxLimit (settledSamples rows)

end Specification

section Grouping

theorem foldl_min_le (rest : List γ) (x : γ) :
    rest.foldl min x ≤ x ∧ ∀ y ∈ rest, rest.foldl min x ≤ y := by
  induction rest generalizing x with
  | nil => exact ⟨le_refl x, fun y impossible => nomatch impossible⟩
  | cons y rest ih =>
    obtain ⟨first, others⟩ := ih (min x y)
    refine ⟨le_trans first (min_le_left x y), ?_⟩
    intro z member
    cases member with
    | head => exact le_trans first (min_le_right x y)
    | tail _ later => exact others z later

theorem le_foldl_max (rest : List γ) (x : γ) :
    x ≤ rest.foldl max x ∧ ∀ y ∈ rest, y ≤ rest.foldl max x := by
  induction rest generalizing x with
  | nil => exact ⟨le_refl x, fun y impossible => nomatch impossible⟩
  | cons y rest ih =>
    obtain ⟨first, others⟩ := ih (max x y)
    refine ⟨le_trans (le_max_left x y) first, ?_⟩
    intro z member
    cases member with
    | head => exact le_trans (le_max_right x y) first
    | tail _ later => exact others z later

theorem foldl_same (rest : List γ) (x : γ) (same : ∀ y ∈ rest, y = x) :
    rest.foldl min x = x ∧ rest.foldl max x = x := by
  induction rest with
  | nil => exact ⟨rfl, rfl⟩
  | cons y rest ih =>
    have first : y = x := same y List.mem_cons_self
    subst first
    simp only [List.foldl_cons, min_self, max_self]
    exact ih (fun z member => same z (List.mem_cons_of_mem _ member))

theorem min_eq_max_iff (rest : List γ) (x : γ) :
    rest.foldl min x = rest.foldl max x ↔ ∀ y ∈ rest, y = x := by
  constructor
  · intro equal y member
    have low := foldl_min_le rest x
    have high := le_foldl_max rest x
    apply le_antisymm
    · exact le_trans (high.2 y member) (equal ▸ low.1)
    · exact le_trans high.1 (equal ▸ low.2 y member)
  · intro same
    rw [(foldl_same rest x same).1, (foldl_same rest x same).2]

/-- The aggregate test of the query is agreement of all rows of the instant. -/
theorem having_eq_settled (instant : Instant) (rows : List (Observation γ)) :
    having instant rows = settled instant rows := by
  cases rows with
  | nil => rfl
  | cons o rest =>
    have agree : (rest.map Observation.gwl).foldl min o.gwl =
        (rest.map Observation.gwl).foldl max o.gwl ↔ ∀ x ∈ rest, x.gwl = o.gwl := by
      rw [min_eq_max_iff]
      simp only [List.mem_map, forall_exists_index, and_imp, forall_apply_eq_imp_iff₂]
    have decided : decide ((rest.map Observation.gwl).foldl min o.gwl =
        (rest.map Observation.gwl).foldl max o.gwl) =
        rest.all (fun x => decide (x.gwl = o.gwl)) := by
      rw [Bool.eq_iff_iff]
      simp only [decide_eq_true_eq, List.all_eq_true, agree]
    simp only [having, settled, listMin, listMax, List.map_cons, decided]
    split
    · rename_i kept
      have same := of_decide_eq_true (decided.trans ((Bool.and_eq_true _ _).mp kept).2)
      rw [(foldl_same _ _ ((min_eq_max_iff _ _).mp same)).1]
    · rfl

theorem samples_eq_settled (window : Instant → Bool) (rows : List (Observation γ)) :
    samples window rows = Timeline.series Observation.recordedAt settled window rows := by
  simp only [samples, Timeline.series, having_eq_settled]

theorem samples_ascending (window : Instant → Bool) (rows : List (Observation γ)) :
    (samples window rows).Pairwise (fun a b => a.recordedAt < b.recordedAt) ∧
    ∀ s ∈ samples window rows, window s.recordedAt = true := by
  apply Timeline.series_pairwise
  intro k group s picked
  rw [having_eq_settled] at picked
  cases group with
  | nil => cases picked
  | cons o rest =>
    simp only [settled] at picked
    split at picked
    · cases picked; rfl
    · cases picked

/-- The cursor cuts the samples into what was replayed and what is new. -/
theorem samples_resume (cursor latest : Instant) (rows : List (Observation γ))
    (behind : cursor ≤ latest) :
    samples (upTo (some latest)) rows =
      samples (upTo (some cursor)) rows ++
        samples (fun t => upTo (some latest) t && after (some cursor) t) rows := by
  apply Timeline.series_append
  · intro t
    rw [Bool.eq_iff_iff]
    simp only [upTo, after, Bool.or_eq_true, Bool.and_eq_true, decide_eq_true_eq]
    constructor
    · intro bound
      cases le_or_gt t cursor with
      | inl early => exact Or.inl early
      | inr later => exact Or.inr ⟨bound, later⟩
    · intro cases_
      cases cases_ with
      | inl early => exact le_trans early behind
      | inr later => exact later.1
  · intro a b early later
    simp only [upTo, after, Bool.and_eq_true, decide_eq_true_eq] at early later
    exact lt_of_le_of_lt early later.2

theorem samples_insert (bound : Option Instant) (rows : List (Observation γ)) (o : Observation γ)
    (outside : ∀ t, o.recordedAt = some t → upTo bound t = false) :
    samples (upTo bound) (rows ++ [o]) = samples (upTo bound) rows := by
  apply Timeline.series_frame
  intro r member k named
  rw [List.mem_singleton.mp member] at named
  exact outside k named

omit [Level γ] in
theorem greatestPlausible_insert (rows : List (Observation γ)) (o : Observation γ) :
    greatestPlausible (rows ++ [o]) =
      if o.timeQuality = .plausibleTime then Option.merge max (greatestPlausible rows) o.recordedAt
      else greatestPlausible rows := by
  have max_snoc : ∀ (list : List Instant) (t : Instant),
      (list ++ [t]).max? = Option.merge max list.max? (some t) := by
    intro list t
    cases list with
    | nil => rfl
    | cons head rest =>
      simp only [List.cons_append, List.max?_cons', List.foldl_append, List.foldl_cons,
        List.foldl_nil]
      rfl
  unfold greatestPlausible
  rw [List.filter_append, List.filterMap_append]
  split
  · rename_i fits
    simp only [List.filter_cons, fits, decide_true, if_true, List.filter_nil]
    cases recorded : o.recordedAt with
    | none => simp only [List.filterMap_cons, recorded, List.filterMap_nil, List.append_nil,
        Option.merge_none_right]
    | some t => simp only [List.filterMap_cons, recorded, List.filterMap_nil, max_snoc]
  · rename_i unfit
    simp only [List.filter_cons, unfit, decide_false, Bool.false_eq_true, if_false,
      List.filter_nil, List.filterMap_nil, List.append_nil]

end Grouping

section Loop

omit [Level γ] in
/-- Ending the open episode, if there is one, as the loop does before it opens the next. -/
theorem resolve_shows (target : DeviceId) (table : AlertTable γ) (activeId : Option Nat)
    (t : Trace γ) (instant : Instant) (shown : Shows target table activeId t) :
    let resolved := match activeId with
      | some id => table.resolve id instant
      | none => table
    Shows target resolved none ⟨t.closed ++ (t.current.map (fun e => e.close instant)).toList, none⟩ ∧
      ∀ other, other ≠ target → resolved.rowsOf other = table.rowsOf other := by
  cases opened : t.current with
  | none =>
    have idle := shown.idle opened
    subst idle
    obtain ⟨closed, current⟩ := t
    cases opened
    refine ⟨?_, fun other _ => rfl⟩
    simpa only [Option.map_none, Option.toList_none, List.append_nil] using shown
  | some e =>
    obtain ⟨a, member, _, named, _⟩ := (shown.current e).mp opened
    subst named
    refine ⟨Shows.resolve target table a.id t instant e shown opened, ?_⟩
    intro other different
    apply AlertTable.resolve_rowsOf_frame
    intro b inTable same
    obtain ⟨a_row, device⟩ := (AlertTable.mem_rowsOf ..).mp member
    rw [table.row_unique inTable a_row same, device]
    exact different.symm

theorem replaySample_shows (target : DeviceId) (minLimit maxLimit : γ) (r : Replay γ)
    (t : Trace γ) (s : Sample γ) (shown : Shows target r.alerts r.activeId t)
    (kind : r.currentKind = t.kind) (later : ∀ e ∈ t.episodes, e.openedAt < s.recordedAt) :
    let r' := replaySample target minLimit maxLimit r s
    let t' := t.advance minLimit maxLimit s
    Shows target r'.alerts r'.activeId t' ∧ r'.currentKind = t'.kind ∧
      ∀ other, other ≠ target → r'.alerts.rowsOf other = r.alerts.rowsOf other := by
  simp only [replaySample, Trace.advance, kind]
  by_cases same : nextKind minLimit maxLimit s.gwl t.kind = t.kind
  · rw [if_pos same, if_pos same]
    exact ⟨shown, kind, fun other _ => rfl⟩
  · rw [if_neg same, if_neg same]
    obtain ⟨resolved_shows, frame⟩ := resolve_shows target r.alerts r.activeId t s.recordedAt shown
    cases next : nextKind minLimit maxLimit s.gwl t.kind with
    | none => exact ⟨resolved_shows, rfl, frame⟩
    | some kind' =>
      refine ⟨?_, rfl, ?_⟩
      · apply Shows.openEpisode _ _ _ _ _ _ resolved_shows
        intro e member
        rcases List.mem_append.mp member with old | ended
        · exact later e (List.mem_append_left _ old)
        · obtain ⟨open_, was, rfl⟩ := Option.map_eq_some_iff.mp (Option.mem_toList.mp ended)
          refine later open_ (List.mem_append_right _ ?_)
          simp only [was, Option.toList_some, List.mem_singleton]
      · intro other different
        rw [AlertTable.openEpisode_rowsOf_frame _ _ _ _ _ _ different]
        exact frame other different

/-- The whole loop simulates the fold of the machine and leaves other devices alone. -/
theorem replay_loop (target : DeviceId) (minLimit maxLimit : γ) (list : List (Sample γ))
    (r : Replay γ) (t : Trace γ) (shown : Shows target r.alerts r.activeId t)
    (kind : r.currentKind = t.kind)
    (sorted : list.Pairwise (fun a b => a.recordedAt < b.recordedAt))
    (later : ∀ e ∈ t.episodes, ∀ s ∈ list, e.openedAt < s.recordedAt) :
    let r' := list.foldl (replaySample target minLimit maxLimit) r
    Shows target r'.alerts r'.activeId (list.foldl (Trace.advance minLimit maxLimit) t) ∧
      ∀ other, other ≠ target → r'.alerts.rowsOf other = r.alerts.rowsOf other := by
  induction list generalizing r t with
  | nil => exact ⟨shown, fun other _ => rfl⟩
  | cons s rest ih =>
    obtain ⟨before, sorted_rest⟩ := List.pairwise_cons.mp sorted
    obtain ⟨shown', kind', frame⟩ := replaySample_shows target minLimit maxLimit r t s shown kind
      (fun e member => later e member s List.mem_cons_self)
    have later' : ∀ e ∈ (t.advance minLimit maxLimit s).episodes, ∀ x ∈ rest,
        e.openedAt < x.recordedAt := by
      intro e member x inRest
      rcases advance_opened_at minLimit maxLimit t s e member with here | ⟨old, was, same⟩
      · rw [here]
        exact before x inRest
      · rw [same]
        exact later old was x (List.mem_cons_of_mem _ inRest)
    obtain ⟨final, frame'⟩ := ih _ _ shown' kind' sorted_rest later'
    exact ⟨final, fun other different => (frame' other different).trans (frame other different)⟩

end Loop

/-- What holds of every device between two statements. -/
structure Checkpoint (db : Database γ) (target : DeviceId) : Prop where
  latest : (db.devices target).latestPlausibleAt =
    greatestPlausible (deviceRows db.observations target)
  behind : ∀ cursor, (db.devices target).alertsCursor = some cursor →
    ∃ latest, (db.devices target).latestPlausibleAt = some latest ∧ cursor ≤ latest
  clean : (db.devices target).alertsDirty = false →
    (db.devices target).alertsReplayAll = false ∧ (db.devices target).alertsDirtyFrom = none ∧
      (db.devices target).alertsCursor = (db.devices target).latestPlausibleAt
  resumes : (db.devices target).alertsReplayAll = false → late (db.devices target) = false →
    Shows target db.alerts (db.devices target).alertsActiveId
      (foldLimits (db.devices target).minLimit (db.devices target).maxLimit
        (samples (upTo (db.devices target).alertsCursor) (deviceRows db.observations target)))

section Statements

theorem foldLimits_current_open (minLimit maxLimit : Option γ) (list : List (Sample γ)) (e : Episode γ)
    (opened : (foldLimits minLimit maxLimit list).current = some e) : e.state = .open := by
  unfold foldLimits at opened
  split at opened
  · split at opened
    · exact fold_current_open _ _ list e opened
    · cases opened
  · cases opened

theorem foldLimits_opened_at (minLimit maxLimit : Option γ) (list : List (Sample γ)) :
    ∀ e ∈ (foldLimits minLimit maxLimit list).episodes, ∃ s ∈ list, e.openedAt = s.recordedAt := by
  intro e member
  unfold foldLimits at member
  split at member
  · split at member
    · rcases fold_opened_at _ _ list Trace.quiet e member with here | ⟨old, impossible, _⟩
      · exact here
      · cases impossible
    · cases member
  · cases member

omit [Level γ] in
/-- A resumed loop finds the open alert of the checkpoint and its kind. -/
theorem lookup_active (target : DeviceId) (table : AlertTable γ) (d : Device γ) (t : Trace γ)
    (shown : Shows target table d.alertsActiveId t)
    (opened : ∀ e, t.current = some e → e.state = .open) (resumed : replaysAll d = false) :
    startReplay table target d = ⟨table, d.alertsActiveId, t.kind⟩ := by
  simp only [startReplay, resumed, Bool.false_eq_true, if_false]
  split
  · rename_i a found
    have hit := List.find?_some found
    simp only [Bool.and_eq_true, decide_eq_true_eq, Bool.not_eq_true'] at hit
    obtain ⟨⟨named, _⟩, _⟩ := hit
    cases current : t.current with
    | none =>
      rw [shown.idle current] at named
      cases named
    | some e =>
      obtain ⟨b, member, _, named', same⟩ := (shown.current e).mp current
      have identical : a = b := table.row_unique (List.mem_of_find?_eq_some found)
        ((AlertTable.mem_rowsOf ..).mp member).1 (Option.some.inj (named.trans named'))
      subst identical
      simp only [Trace.kind, current, Option.map_some, ← same, named]
  · rename_i absent
    cases current : t.current with
    | none => simp only [Trace.kind, current, Option.map_none, shown.idle current]
    | some e =>
      obtain ⟨b, member, standing, named, same⟩ := (shown.current e).mp current
      have state : b.state = .open := (congrArg Episode.state same).trans (opened e current)
      have missed := List.find?_eq_none.mp absent b ((AlertTable.mem_rowsOf ..).mp member).1
      simp only [named, state, standing, decide_true, Bool.and_self, Bool.not_false, not_true] at missed

/-- Either way of starting, the loop ends in the fold of everything up to the latest
plausible instant. -/
theorem runReplay_shows (db : Database γ) (target : DeviceId) (kept : Checkpoint db target) :
    let d := db.devices target
    let rows := deviceRows db.observations target
    let r := runReplay target d rows (startReplay db.alerts target d)
    Shows target r.alerts r.activeId
        (foldLimits d.minLimit d.maxLimit (samples (upTo d.latestPlausibleAt) rows)) ∧
      ∀ other, other ≠ target → r.alerts.rowsOf other = db.alerts.rowsOf other := by
  intro d rows r
  by_cases full : replaysAll d = true
  · have start : startReplay db.alerts target d = ⟨db.alerts.supersede target, none, none⟩ := by
      rw [startReplay, if_pos full]
    have frame : ∀ other, other ≠ target →
        (db.alerts.supersede target).rowsOf other = db.alerts.rowsOf other :=
      fun other different => AlertTable.supersede_rowsOf_frame _ _ _ different
    have everything : samples (fun t => upTo d.latestPlausibleAt t && after none t) rows =
        samples (upTo d.latestPlausibleAt) rows := by
      apply Timeline.series_congr_window
      intro t
      exact Bool.and_true _
    have quiet := Shows.supersede target db.alerts
    simp only [r, runReplay, foldLimits, start, full, if_true, everything]
    cases d.minLimit with
    | none => exact ⟨quiet, frame⟩
    | some low =>
      cases d.maxLimit with
      | none => exact ⟨quiet, frame⟩
      | some high =>
        by_cases usable : low < high
        · simp only [if_pos usable]
          obtain ⟨final, frame'⟩ := replay_loop target low high _
            ⟨db.alerts.supersede target, none, none⟩ Trace.quiet quiet rfl
            (samples_ascending (upTo d.latestPlausibleAt) rows).1 (fun e impossible => by cases impossible)
          exact ⟨final, fun other different => (frame' other different).trans (frame other different)⟩
        · simp only [if_neg usable]
          exact ⟨quiet, frame⟩
  · have resumed : replaysAll d = false := Bool.eq_false_iff.mpr full
    have parts := resumed
    simp only [replaysAll, Bool.or_eq_false_iff, Option.isNone_eq_false_iff] at parts
    obtain ⟨⟨flag, set⟩, timely⟩ := parts
    obtain ⟨cursor, at_cursor⟩ := Option.isSome_iff_exists.mp set
    obtain ⟨latest, at_latest, behind⟩ := kept.behind cursor at_cursor
    have shown : Shows target db.alerts d.alertsActiveId
        (foldLimits d.minLimit d.maxLimit (samples (upTo d.alertsCursor) rows)) :=
      kept.resumes flag timely
    change d.latestPlausibleAt = some latest at at_latest
    rw [at_cursor] at shown
    have start := lookup_active target db.alerts d _ shown
      (foldLimits_current_open _ _ _) resumed
    have earlier := foldLimits_opened_at d.minLimit d.maxLimit (samples (upTo (some cursor)) rows)
    simp only [r, runReplay, start, resumed, Bool.false_eq_true, if_false]
    simp only [at_cursor, at_latest, samples_resume cursor latest rows behind]
    revert shown earlier
    simp only [foldLimits]
    cases d.minLimit with
    | none => exact fun shown _ => ⟨shown, fun other _ => rfl⟩
    | some low =>
      cases d.maxLimit with
      | none => exact fun shown _ => ⟨shown, fun other _ => rfl⟩
      | some high =>
        by_cases usable : low < high
        · simp only [if_pos usable, List.foldl_append]
          intro shown earlier
          apply replay_loop target low high _ _ _ shown rfl
          · exact (samples_ascending _ rows).1
          · intro e member s new
            obtain ⟨old, inOld, same⟩ := earlier e member
            have bound := (samples_ascending _ rows).2 old inOld
            have above := (samples_ascending _ rows).2 s new
            simp only [upTo, after, Bool.and_eq_true, decide_eq_true_eq] at bound above
            rw [same]
            exact lt_of_le_of_lt bound above.2
        · simp only [if_neg usable]
          exact fun shown _ => ⟨shown, fun _ _ => trivial⟩

theorem replay_checkpoint (db : Database γ) (target device : DeviceId)
    (kept : ∀ x, Checkpoint db x) : Checkpoint (replayAlerts db target) device := by
  unfold replayAlerts
  by_cases dirty : (db.devices target).alertsDirty = false
  · simp only [if_pos dirty]
    exact kept device
  · simp only [if_neg dirty]
    obtain ⟨shown, frame⟩ := runReplay_shows db target (kept target)
    by_cases same : device = target
    · subst same
      constructor
      · simpa only [Function.update_self] using (kept device).latest
      · intro cursor at_cursor
        simp only [Function.update_self] at at_cursor ⊢
        exact ⟨cursor, at_cursor, le_refl cursor⟩
      · intro _
        simp only [Function.update_self, and_self]
      · intro _ _
        simpa only [Function.update_self] using shown
    · have other : ∀ v, Function.update db.devices target v device = db.devices device :=
        fun v => Function.update_of_ne same v db.devices
      constructor
      · simpa only [other] using (kept device).latest
      · simpa only [other] using (kept device).behind
      · simpa only [other] using (kept device).clean
      · intro flag timely
        simp only [other] at flag timely ⊢
        exact ((kept device).resumes flag timely).congr _ _ _ _ _ (frame device same)

omit [Level γ] in
theorem deviceRows_insert (rows : List (Observation γ)) (o : Observation γ) (device : DeviceId) :
    deviceRows (rows ++ [o]) device =
      if o.device = device then deviceRows rows device ++ [o] else deviceRows rows device := by
  unfold deviceRows
  rw [List.filter_append]
  by_cases own : o.device = device
  · simp only [own, decide_true, List.filter_cons, if_true, List.filter_nil]
  · simp only [own, decide_false, List.filter_cons, Bool.false_eq_true, if_false, List.filter_nil,
      List.append_nil]

/-- An insert moves the lower dirty bound to every instant at or below the cursor. -/
theorem insert_checkpoint (db : Database γ) (target device : DeviceId) (row : NewObservation γ)
    (kept : ∀ x, Checkpoint db x) : Checkpoint (execute db (.insert target row)) device := by
  let o : Observation γ := ⟨db.nextObservationId, target, row.recordedAt, row.receivedAt,
    row.timeQuality, row.duplicateOutcome, row.gwl⟩
  by_cases same : device = target
  · subst same
    obtain ⟨latest, behind, clean, resumes⟩ := kept device
    have rows : deviceRows (db.observations ++ [o]) device =
        deviceRows db.observations device ++ [o] := by
      rw [deviceRows_insert, if_pos rfl]
    have latest' : (observationDirty o (db.devices device)).latestPlausibleAt =
        greatestPlausible (deviceRows db.observations device ++ [o]) := by
      rw [greatestPlausible_insert, ← latest]
      rfl
    constructor
    · simp only [execute, Function.update_self, rows, latest', o]
    · intro cursor at_cursor
      simp only [execute, Function.update_self] at at_cursor ⊢
      obtain ⟨bound, at_bound, below⟩ := behind cursor at_cursor
      simp only [observationDirty, at_bound]
      split
      · cases row.recordedAt with
        | none => exact ⟨bound, rfl, below⟩
        | some t => exact ⟨max bound t, rfl, le_trans below (le_max_left bound t)⟩
      · exact ⟨bound, rfl, below⟩
    · intro untouched
      simp only [execute, Function.update_self, observationDirty, Bool.or_eq_false_iff,
        Option.isSome_eq_false_iff, Option.isNone_iff_eq_none] at untouched ⊢
      obtain ⟨was_clean, unrecorded⟩ := untouched
      simp only [unrecorded, Option.merge_none_right, ite_self]
      exact clean was_clean
    · intro flag timely
      simp only [execute, Function.update_self] at flag timely ⊢
      have before : late (db.devices device) = false := by
        simp only [late, observationDirty] at timely ⊢
        cases from_ : (db.devices device).alertsDirtyFrom with
        | none => rfl
        | some dirtyFrom =>
          cases at_cursor : (db.devices device).alertsCursor with
          | none => rfl
          | some cursor =>
            simp only [from_, at_cursor] at timely ⊢
            cases recorded : row.recordedAt with
            | none => simpa only [recorded, Option.merge_none_right] using timely
            | some t =>
              simp only [recorded, Option.merge, decide_eq_false_iff_not, not_le] at timely ⊢
              exact lt_of_lt_of_le timely (min_le_left dirtyFrom t)
      have outside : ∀ t, o.recordedAt = some t →
          upTo (db.devices device).alertsCursor t = false := by
        intro t recorded
        change row.recordedAt = some t at recorded
        cases at_cursor : (db.devices device).alertsCursor with
        | none => rfl
        | some cursor =>
          simp only [late, observationDirty, at_cursor, recorded] at timely
          cases from_ : (db.devices device).alertsDirtyFrom with
          | none =>
            simp only [from_, Option.merge_none_left] at timely
            exact timely
          | some dirtyFrom =>
            simp only [from_, Option.merge, decide_eq_false_iff_not, not_le] at timely
            simp only [upTo, decide_eq_false_iff_not, not_le]
            exact lt_of_lt_of_le timely (min_le_right dirtyFrom t)
      have shown := resumes flag before
      rw [← samples_insert _ _ o outside, ← rows] at shown
      exact shown
  · have elsewhere : o.device ≠ device := fun own => same own.symm
    have rows : deviceRows (db.observations ++ [o]) device = deviceRows db.observations device := by
      rw [deviceRows_insert, if_neg elsewhere]
    have other : ∀ v, Function.update db.devices target v device = db.devices device :=
      fun v => Function.update_of_ne same v db.devices
    constructor
    · simpa only [execute, other, rows, o] using (kept device).latest
    · simpa only [execute, other] using (kept device).behind
    · simpa only [execute, other] using (kept device).clean
    · simpa only [execute, other, rows, o] using (kept device).resumes

theorem setLimits_checkpoint (db : Database γ) (target device : DeviceId)
    (minLimit maxLimit : Option γ) (kept : ∀ x, Checkpoint db x) :
    Checkpoint (execute db (.setLimits target minLimit maxLimit)) device := by
  by_cases same : device = target
  · subst same
    obtain ⟨latest, behind, clean, resumes⟩ := kept device
    by_cases changed : minLimit ≠ (db.devices device).minLimit ∨ maxLimit ≠ (db.devices device).maxLimit
    · constructor
      · simpa only [execute, Function.update_self, limitsDirty, if_pos changed] using latest
      · simpa only [execute, Function.update_self, limitsDirty, if_pos changed] using behind
      · intro impossible
        simp only [execute, Function.update_self, limitsDirty, if_pos changed] at impossible
        cases impossible
      · intro impossible
        simp only [execute, Function.update_self, limitsDirty, if_pos changed] at impossible
        cases impossible
    · obtain ⟨same_min, same_max⟩ := not_or.mp changed
      have unchanged : limitsDirty minLimit maxLimit (db.devices device) = db.devices device := by
        rw [limitsDirty, if_neg changed, not_not.mp same_min, not_not.mp same_max]
      have identical : execute db (.setLimits device minLimit maxLimit) = db := by
        simp only [execute, unchanged, Function.update_eq_self]
      rw [identical]
      exact kept device
  · have other : ∀ v, Function.update db.devices target v device = db.devices device :=
      fun v => Function.update_of_ne same v db.devices
    constructor
    · simpa only [execute, other] using (kept device).latest
    · simpa only [execute, other] using (kept device).behind
    · simpa only [execute, other] using (kept device).clean
    · simpa only [execute, other] using (kept device).resumes

theorem truncate_checkpoint (db : Database γ) (device : DeviceId) :
    Checkpoint (execute db .truncate) device := by
  constructor
  · rfl
  · intro cursor impossible; cases impossible
  · intro impossible; cases impossible
  · intro impossible; cases impossible

theorem execute_checkpoint (db : Database γ) (statement : Statement γ)
    (kept : ∀ x, Checkpoint db x) : ∀ x, Checkpoint (execute db statement) x := by
  intro device
  cases statement with
  | insert target row => exact insert_checkpoint db target device row kept
  | setLimits target minLimit maxLimit => exact setLimits_checkpoint db target device minLimit maxLimit kept
  | replay target => exact replay_checkpoint db target device kept
  | truncate => exact truncate_checkpoint db device

theorem enrolled_checkpoint (limits : DeviceId → Option γ × Option γ) (device : DeviceId) :
    Checkpoint (enrolled limits) device := by
  constructor
  · rfl
  · intro cursor impossible; cases impossible
  · intro impossible; cases impossible
  · intro impossible; cases impossible

theorem run_checkpoint (limits : DeviceId → Option γ × Option γ) (statements : List (Statement γ)) :
    ∀ x, Checkpoint (run limits statements) x := by
  have general : ∀ db : Database γ, (∀ x, Checkpoint db x) →
      ∀ x, Checkpoint (statements.foldl execute db) x := by
    induction statements with
    | nil => exact fun db kept => kept
    | cons statement rest ih => exact fun db kept => ih _ (execute_checkpoint db statement kept)
  exact general _ (enrolled_checkpoint limits)

/-- A device without dirty observations shows the full fold, however it got there. -/
theorem clean_shows_full_fold (db : Database γ) (target : DeviceId) (kept : Checkpoint db target)
    (clean : (db.devices target).alertsDirty = false) :
    Shows target db.alerts (db.devices target).alertsActiveId
      (fullFold (db.devices target).minLimit (db.devices target).maxLimit
        (deviceRows db.observations target)) := by
  obtain ⟨flag, no_dirty, at_latest⟩ := kept.clean clean
  have timely : late (db.devices target) = false := by simp only [late, no_dirty]
  have shown := kept.resumes flag timely
  rw [at_latest, kept.latest, samples_eq_settled] at shown
  exact shown

theorem replay_cleans (db : Database γ) (target : DeviceId) :
    ((replayAlerts db target).devices target).alertsDirty = false := by
  unfold replayAlerts
  by_cases dirty : (db.devices target).alertsDirty = false
  · rw [if_pos dirty]
    exact dirty
  · simp only [if_neg dirty, Function.update_self]

/-- The same database with the checkpoint of one device thrown away. -/
def forgetCheckpoint (db : Database γ) (target : DeviceId) : Database γ :=
  { db with
    devices := Function.update db.devices target
      { db.devices target with alertsDirty := true, alertsReplayAll := true } }

omit [Level γ] in
theorem forget_device (db : Database γ) (target : DeviceId) :
    (forgetCheckpoint db target).devices target =
      { db.devices target with alertsDirty := true, alertsReplayAll := true } :=
  Function.update_self ..

theorem forget_checkpoint (db : Database γ) (target : DeviceId) (kept : ∀ x, Checkpoint db x) :
    ∀ x, Checkpoint (forgetCheckpoint db target) x := by
  intro device
  obtain ⟨latest, behind, clean, resumes⟩ := kept device
  by_cases same : device = target
  · subst same
    constructor
    · rw [forget_device]
      exact latest
    · rw [forget_device]
      exact behind
    · intro impossible
      rw [forget_device] at impossible
      cases impossible
    · intro impossible
      rw [forget_device] at impossible
      cases impossible
  · have other : (forgetCheckpoint db target).devices device = db.devices device :=
      Function.update_of_ne same _ _
    constructor
    · rw [other]
      exact latest
    · rw [other]
      exact behind
    · rw [other]
      exact clean
    · rw [other]
      exact resumes

theorem replay_limits (db : Database γ) (target : DeviceId) :
    ((replayAlerts db target).devices target).minLimit = (db.devices target).minLimit ∧
      ((replayAlerts db target).devices target).maxLimit = (db.devices target).maxLimit ∧
      (replayAlerts db target).observations = db.observations := by
  unfold replayAlerts
  by_cases dirty : (db.devices target).alertsDirty = false
  · rw [if_pos dirty]
    exact ⟨rfl, rfl, rfl⟩
  · simp only [if_neg dirty, Function.update_self, and_self]

theorem replay_live_iff (db : Database γ) (target : DeviceId) (kept : ∀ x, Checkpoint db x)
    (e : Episode γ) :
    e ∈ (replayAlerts db target).alerts.live target ↔
      e ∈ (fullFold (db.devices target).minLimit (db.devices target).maxLimit
        (deviceRows db.observations target)).episodes := by
  have shown := clean_shows_full_fold _ target (replay_checkpoint db target target kept)
    (replay_cleans db target)
  obtain ⟨same_min, same_max, same_rows⟩ := replay_limits db target
  rw [same_min, same_max, same_rows] at shown
  exact shown.live_iff target _ _ _ e

/-- Every run that ends with a replay shows the full fold, and a replay that resumes from its
checkpoint shows what a replay of everything would. -/
theorem replay_matches_full_fold (limits : DeviceId → Option γ × Option γ)
    (statements : List (Statement γ)) (target : DeviceId) :
    let before := run limits statements
    let db := run limits (statements ++ [.replay target])
    let d := db.devices target
    (∀ e, e ∈ db.alerts.live target ↔
      e ∈ (fullFold d.minLimit d.maxLimit (deviceRows db.observations target)).episodes) ∧
    (∀ e, e ∈ db.alerts.live target ↔
      e ∈ (replayAlerts (forgetCheckpoint before target) target).alerts.live target) := by
  intro before db d
  have kept := run_checkpoint limits statements
  have last : db = replayAlerts before target := by
    simp only [db, before, run, List.foldl_append, List.foldl_cons, List.foldl_nil]
    rfl
  obtain ⟨same_min, same_max, same_rows⟩ := replay_limits before target
  constructor
  · intro e
    simp only [d, last, same_min, same_max, same_rows]
    exact replay_live_iff before target kept e
  · intro e
    rw [last, replay_live_iff before target kept,
      replay_live_iff _ target (forget_checkpoint before target kept), forget_device]
    rfl

end Statements

end NixHomeServer.Groundwater.Alerts
