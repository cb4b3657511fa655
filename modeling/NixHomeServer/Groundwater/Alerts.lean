import NixHomeServer.Library.Timeline
import NixHomeServer.Groundwater.Basic
import Mathlib.Order.Basic

/-! The alert tables, triggers and replay function of the groundwater platform.
The three observation and limit triggers keep the checkpoint that
`groundwater_replay_alerts` resumes from. Levels are any linear order with the
half-metre release margins, so the database's own float order is one instance. -/
namespace NixHomeServer.Groundwater.Alerts

open NixHomeServer.Library

abbrev Instant := Int

/-- Water levels: `halfBelow x` is `x - 0.5`, `halfAbove x` is `x + 0.5`. -/
class Level (γ : Type) extends LinearOrder γ where
  halfBelow : γ → γ
  halfAbove : γ → γ

instance : Level Int where
  halfBelow x := x - 5
  halfAbove x := x + 5

inductive AlertKind
  | aboveMax | belowMin
  deriving DecidableEq, Repr

inductive AlertState
  | open | resolved
  deriving DecidableEq, Repr

structure Observation (γ : Type) where
  id : Nat
  device : DeviceId
  recordedAt : Option Instant
  receivedAt : Instant
  timeQuality : TimeQuality
  duplicateOutcome : DuplicateOutcome
  gwl : γ

structure Episode (γ : Type) where
  kind : AlertKind
  openedAt : Instant
  triggerValue : γ
  state : AlertState
  resolvedAt : Option Instant

structure Alert (γ : Type) extends Episode γ where
  id : Nat
  device : DeviceId
  superseded : Bool

def Alert.key {γ : Type} (a : Alert γ) : DeviceId × AlertKind × Instant :=
  (a.device, a.kind, a.openedAt)

namespace Alert

variable {γ : Type}

def supersede (target : DeviceId) (a : Alert γ) : Alert γ :=
  if a.device = target then { a with superseded := true } else a

def resolve (id : Nat) (instant : Instant) (a : Alert γ) : Alert γ :=
  if a.id = id then { a with state := .resolved, resolvedAt := some instant } else a

def revive (id : Nat) (value : γ) (a : Alert γ) : Alert γ :=
  if a.id = id then
    { a with state := .open, resolvedAt := none, triggerValue := value, superseded := false }
  else a

theorem supersede_id (target : DeviceId) (a : Alert γ) : (a.supersede target).id = a.id := by
  unfold supersede; split <;> rfl

theorem supersede_key (target : DeviceId) (a : Alert γ) : (a.supersede target).key = a.key := by
  unfold supersede; split <;> rfl

theorem resolve_id (id : Nat) (instant : Instant) (a : Alert γ) :
    (a.resolve id instant).id = a.id := by
  unfold resolve; split <;> rfl

theorem resolve_key (id : Nat) (instant : Instant) (a : Alert γ) :
    (a.resolve id instant).key = a.key := by
  unfold resolve; split <;> rfl

theorem revive_id (id : Nat) (value : γ) (a : Alert γ) : (a.revive id value).id = a.id := by
  unfold revive; split <;> rfl

theorem revive_key (id : Nat) (value : γ) (a : Alert γ) : (a.revive id value).key = a.key := by
  unfold revive; split <;> rfl

end Alert

/-- Alert rows under their primary key, their unique index and their sequence. -/
structure AlertTable (γ : Type) where
  rows : List (Alert γ)
  nextId : Nat
  ids_distinct : (rows.map Alert.id).Nodup
  keys_distinct : (rows.map Alert.key).Nodup
  ids_below : ∀ a ∈ rows, a.id < nextId

structure Device (γ : Type) where
  minLimit : Option γ
  maxLimit : Option γ
  observationCount : Nat := 0
  conflictCount : Nat := 0
  latestReceivedId : Option Nat := none
  latestObservationReceivedAt : Option Instant := none
  latestPlausibleId : Option Nat := none
  latestPlausibleAt : Option Instant := none
  lastSeen : Option Instant := none
  alertsDirty : Bool := true
  alertsReplayAll : Bool := true
  alertsCursor : Option Instant := none
  alertsActiveId : Option Nat := none
  alertsDirtyFrom : Option Instant := none

structure Database (γ : Type) where
  devices : DeviceId → Device γ
  observations : List (Observation γ)
  nextObservationId : Nat
  alerts : AlertTable γ

namespace AlertTable

variable {γ : Type}

def empty : AlertTable γ :=
  ⟨[], 1, List.nodup_nil, List.nodup_nil, fun _ member => nomatch member⟩

def amend (t : AlertTable γ) (f : Alert γ → Alert γ) (same_id : ∀ a, (f a).id = a.id)
    (same_key : ∀ a, (f a).key = a.key) : AlertTable γ where
  rows := t.rows.map f
  nextId := t.nextId
  ids_distinct := by
    have same : Alert.id ∘ f = Alert.id := funext same_id
    simpa only [List.map_map, same] using t.ids_distinct
  keys_distinct := by
    have same : Alert.key ∘ f = Alert.key := funext same_key
    simpa only [List.map_map, same] using t.keys_distinct
  ids_below := by
    intro a member
    obtain ⟨old, before, rfl⟩ := List.mem_map.mp member
    exact same_id old ▸ t.ids_below old before

def supersede (t : AlertTable γ) (target : DeviceId) : AlertTable γ :=
  t.amend (Alert.supersede target) (Alert.supersede_id target) (Alert.supersede_key target)

def resolve (t : AlertTable γ) (id : Nat) (instant : Instant) : AlertTable γ :=
  t.amend (Alert.resolve id instant) (Alert.resolve_id id instant) (Alert.resolve_key id instant)

/-- The `ON CONFLICT DO UPDATE` branch: the old row lives on under its old id. -/
def revive (t : AlertTable γ) (id : Nat) (value : γ) : AlertTable γ :=
  t.amend (Alert.revive id value) (Alert.revive_id id value) (Alert.revive_key id value)

/-- The sequence advances on every insert, also when the row then conflicts. -/
def drawId (t : AlertTable γ) : AlertTable γ :=
  { t with
    nextId := t.nextId + 1
    ids_below := fun a member => Nat.lt_succ_of_lt (t.ids_below a member) }

def append (t : AlertTable γ) (row : Alert γ) (named : row.id = t.nextId)
    (fresh : ∀ a ∈ t.rows, a.key ≠ row.key) : AlertTable γ where
  rows := t.rows ++ [row]
  nextId := t.nextId + 1
  ids_distinct := by
    rw [List.map_append, List.nodup_append]
    refine ⟨t.ids_distinct, List.nodup_singleton _, ?_⟩
    intro x before y last same
    obtain ⟨a, member, rfl⟩ := List.mem_map.mp before
    rw [List.map_singleton, List.mem_singleton] at last
    have below := t.ids_below a member
    omega
  keys_distinct := by
    rw [List.map_append, List.nodup_append]
    refine ⟨t.keys_distinct, List.nodup_singleton _, ?_⟩
    intro x before y last same
    obtain ⟨a, member, rfl⟩ := List.mem_map.mp before
    rw [List.map_singleton, List.mem_singleton] at last
    exact fresh a member (same.trans last)
  ids_below := by
    intro a member
    rcases List.mem_append.mp member with old | last
    · exact Nat.lt_succ_of_lt (t.ids_below a old)
    · rw [List.mem_singleton.mp last, named]
      exact Nat.lt_succ_self _

/-- `INSERT ... ON CONFLICT(device_id,kind,opened_at) DO UPDATE ... RETURNING id`. -/
def openEpisode (t : AlertTable γ) (target : DeviceId) (kind : AlertKind) (value : γ)
    (instant : Instant) : AlertTable γ × Nat :=
  match found : t.rows.find? (fun a => decide (a.key = (target, kind, instant))) with
  | some old => ((t.revive old.id value).drawId, old.id)
  | none =>
    let row : Alert γ :=
      { id := t.nextId, device := target, kind := kind, state := .open, triggerValue := value
        openedAt := instant, resolvedAt := none, superseded := false }
    (t.append row rfl (by
      intro a member same
      have absent := List.find?_eq_none.mp found a member
      exact absent (decide_eq_true same)), t.nextId)

def rowsOf (t : AlertTable γ) (target : DeviceId) : List (Alert γ) :=
  t.rows.filter (fun a => decide (a.device = target))

def live (t : AlertTable γ) (target : DeviceId) : List (Episode γ) :=
  ((t.rowsOf target).filter (fun a => !a.superseded)).map Alert.toEpisode

end AlertTable

variable {γ : Type} [Level γ]

structure Sample (γ : Type) where
  recordedAt : Instant
  gwl : γ

def listMin : List γ → Option γ
  | [] => none
  | x :: rest => some (rest.foldl min x)

def listMax : List γ → Option γ
  | [] => none
  | x :: rest => some (rest.foldl max x)

/-- `GROUP BY recorded_at HAVING bool_or(plausible) AND min(gwl)=max(gwl)`. -/
def having (instant : Instant) (rows : List (Observation γ)) : Option (Sample γ) :=
  match listMin (rows.map Observation.gwl), listMax (rows.map Observation.gwl) with
  | some low, some high =>
    if rows.any (fun o => decide (o.timeQuality = .plausibleTime)) && decide (low = high) then
      some ⟨instant, low⟩
    else none
  | _, _ => none

def samples (window : Instant → Bool) (rows : List (Observation γ)) : List (Sample γ) :=
  Timeline.series Observation.recordedAt having window rows

def nextKind (minLimit maxLimit gwl : γ) : Option AlertKind → Option AlertKind
  | none => if maxLimit < gwl then some .aboveMax else if gwl < minLimit then some .belowMin else none
  | some .aboveMax =>
    if gwl < minLimit then some .belowMin
    else if gwl ≤ Level.halfBelow maxLimit then none
    else some .aboveMax
  | some .belowMin =>
    if maxLimit < gwl then some .aboveMax
    else if Level.halfAbove minLimit ≤ gwl then none
    else some .belowMin

structure Replay (γ : Type) where
  alerts : AlertTable γ
  activeId : Option Nat
  currentKind : Option AlertKind

def replaySample (target : DeviceId) (minLimit maxLimit : γ) (r : Replay γ) (s : Sample γ) :
    Replay γ :=
  let next := nextKind minLimit maxLimit s.gwl r.currentKind
  if next = r.currentKind then r
  else
    let resolved := match r.activeId with
      | some id => r.alerts.resolve id s.recordedAt
      | none => r.alerts
    match next with
    | none => ⟨resolved, none, none⟩
    | some kind =>
      let opened := resolved.openEpisode target kind s.gwl s.recordedAt
      ⟨opened.1, some opened.2, some kind⟩

def upTo (latest : Option Instant) (instant : Instant) : Bool :=
  match latest with
  | some bound => decide (instant ≤ bound)
  | none => false

/-- The lower bound of the query: the cursor unless everything is replayed. -/
def after (lower : Option Instant) (instant : Instant) : Bool :=
  match lower with
  | some cursor => decide (cursor < instant)
  | none => true

/-- `COALESCE(alerts_dirty_from<=alerts_cursor,false)`. -/
def late (d : Device γ) : Bool :=
  match d.alertsDirtyFrom, d.alertsCursor with
  | some dirtyFrom, some cursor => decide (dirtyFrom ≤ cursor)
  | _, _ => false

def replaysAll (d : Device γ) : Bool :=
  d.alertsReplayAll || d.alertsCursor.isNone || late d

def startReplay (alerts : AlertTable γ) (target : DeviceId) (d : Device γ) : Replay γ :=
  if replaysAll d then ⟨alerts.supersede target, none, none⟩
  else
    match alerts.rows.find? (fun a =>
      decide (some a.id = d.alertsActiveId) && decide (a.state = .open) && !a.superseded) with
    | some a => ⟨alerts, some a.id, some a.kind⟩
    | none => ⟨alerts, none, none⟩

def deviceRows (rows : List (Observation γ)) (target : DeviceId) : List (Observation γ) :=
  rows.filter (fun o => decide (o.device = target))

def runReplay (target : DeviceId) (d : Device γ) (rows : List (Observation γ)) (r : Replay γ) :
    Replay γ :=
  match d.minLimit, d.maxLimit with
  | some minLimit, some maxLimit =>
    if minLimit < maxLimit then
      let lower := if replaysAll d then none else d.alertsCursor
      (samples (fun t => upTo d.latestPlausibleAt t && after lower t) rows).foldl
        (replaySample target minLimit maxLimit) r
    else r
  | _, _ => r

def replayAlerts (db : Database γ) (target : DeviceId) : Database γ :=
  let d := db.devices target
  if d.alertsDirty = false then db
  else
    let r := runReplay target d (deviceRows db.observations target)
      (startReplay db.alerts target d)
    { db with
      alerts := r.alerts
      devices := Function.update db.devices target { d with
        alertsDirty := false, alertsReplayAll := false, alertsDirtyFrom := none
        alertsCursor := d.latestPlausibleAt, alertsActiveId := r.activeId } }

structure NewObservation (γ : Type) where
  recordedAt : Option Instant
  receivedAt : Instant
  timeQuality : TimeQuality
  duplicateOutcome : DuplicateOutcome
  gwl : γ

/-- Row comparison `(instant,id)>(latest,latestId)` behind the null check on `latest`. -/
def newer (instant : Instant) (id : Nat) (latest : Option Instant) (latestId : Option Nat) : Bool :=
  match latest, latestId with
  | none, _ => true
  | some bound, some boundId => decide (bound < instant) || (decide (bound = instant) && decide (boundId < id))
  | some bound, none => decide (bound < instant)

def observationDirty (o : Observation γ) (d : Device γ) : Device γ :=
  { d with
    observationCount := d.observationCount + 1
    conflictCount := d.conflictCount + (if o.duplicateOutcome = .conflict then 1 else 0)
    latestReceivedId :=
      if newer o.receivedAt o.id d.latestObservationReceivedAt d.latestReceivedId then some o.id
      else d.latestReceivedId
    latestObservationReceivedAt :=
      Option.merge max d.latestObservationReceivedAt (some o.receivedAt)
    latestPlausibleId :=
      match o.recordedAt with
      | some instant =>
        if o.timeQuality = .plausibleTime ∧ newer instant o.id d.latestPlausibleAt d.latestPlausibleId
        then some o.id else d.latestPlausibleId
      | none => d.latestPlausibleId
    latestPlausibleAt :=
      if o.timeQuality = .plausibleTime then Option.merge max d.latestPlausibleAt o.recordedAt
      else d.latestPlausibleAt
    alertsDirty := d.alertsDirty || o.recordedAt.isSome
    alertsDirtyFrom := Option.merge min d.alertsDirtyFrom o.recordedAt
    lastSeen := Option.merge max d.lastSeen (some o.receivedAt) }

def limitsDirty (minLimit maxLimit : Option γ) (d : Device γ) : Device γ :=
  if minLimit ≠ d.minLimit ∨ maxLimit ≠ d.maxLimit then
    { d with minLimit := minLimit, maxLimit := maxLimit, alertsDirty := true, alertsReplayAll := true }
  else { d with minLimit := minLimit, maxLimit := maxLimit }

def observationsTruncated (d : Device γ) : Device γ :=
  { d with
    observationCount := 0, conflictCount := 0, latestReceivedId := none
    latestObservationReceivedAt := none, latestPlausibleId := none, latestPlausibleAt := none
    alertsDirty := true, alertsReplayAll := true, alertsCursor := none, alertsActiveId := none
    alertsDirtyFrom := none }

inductive Statement (γ : Type)
  | insert (device : DeviceId) (row : NewObservation γ)
  | setLimits (device : DeviceId) (minLimit maxLimit : Option γ)
  | replay (device : DeviceId)
  | truncate

def execute (db : Database γ) : Statement γ → Database γ
  | .insert device row =>
    let o : Observation γ :=
      { id := db.nextObservationId, device := device, recordedAt := row.recordedAt
        receivedAt := row.receivedAt, timeQuality := row.timeQuality
        duplicateOutcome := row.duplicateOutcome, gwl := row.gwl }
    { db with
      observations := db.observations ++ [o]
      nextObservationId := db.nextObservationId + 1
      devices := Function.update db.devices device (observationDirty o (db.devices device)) }
  | .setLimits device minLimit maxLimit =>
    { db with
      devices := Function.update db.devices device
        (limitsDirty minLimit maxLimit (db.devices device)) }
  | .replay device => replayAlerts db device
  | .truncate =>
    { db with observations := [], devices := fun device => observationsTruncated (db.devices device) }

def enrolled (limits : DeviceId → Option γ × Option γ) : Database γ where
  devices device := { minLimit := (limits device).1, maxLimit := (limits device).2 }
  observations := []
  nextObservationId := 1
  alerts := .empty

def run (limits : DeviceId → Option γ × Option γ) (statements : List (Statement γ)) : Database γ :=
  statements.foldl execute (enrolled limits)

end NixHomeServer.Groundwater.Alerts
