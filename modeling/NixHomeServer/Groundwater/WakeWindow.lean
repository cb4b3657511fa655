import NixHomeServer.Groundwater.Dispatch
import NixHomeServer.Groundwater.IngestLoop

/-! Every reservation of a run falls in a wake window: the newest word about the
device in the current connection is a Ready of the last eight minutes. -/
namespace NixHomeServer.Groundwater.Dispatch

open NixHomeServer.Library

variable {J : Type} [Jsonb J]

section Journal

/-- The events that end what an earlier Ready said about the device. -/
def Event.supersedes (device : DeviceId) : Event J → Bool
  | .ready other _ => decide (other = device)
  | .sleep other => decide (other = device)
  | .connAck => true
  | .disconnected => true
  | _ => false

def Event.connection : Event J → Bool
  | .connAck => true
  | .disconnected => true
  | _ => false

/-- Neither a connection event nor word from a device, nor a reservation. -/
def Event.neutral : Event J → Bool
  | .enqueued _ => true
  | .outgoing _ _ => true
  | .puback _ _ => true
  | .firmwareAck _ => true
  | _ => false

/-- The newest event that concerns the window of the device is its Ready at this instant. -/
def Fresh (journal : List (Event J)) (device : DeviceId) (ready : Int) : Prop :=
  journal.find? (Event.supersedes device) = some (.ready device ready)

/-- The newest connection event is a ConnAck. -/
def Live (journal : List (Event J)) : Prop :=
  journal.find? Event.connection = some .connAck

theorem Fresh.cons {journal : List (Event J)} {device : DeviceId} {ready : Int}
    (fresh : Fresh journal device ready) (e : Event J) (other : e.supersedes device = false) :
    Fresh (e :: journal) device ready := by
  unfold Fresh
  rw [List.find?_cons_of_neg (by rw [other]; exact Bool.false_ne_true)]
  exact fresh

theorem Live.cons {journal : List (Event J)} (live : Live journal) (e : Event J)
    (other : e.connection = false) : Live (e :: journal) := by
  unfold Live
  rw [List.find?_cons_of_neg (by rw [other]; exact Bool.false_ne_true)]
  exact live

theorem neutral_supersedes (e : Event J) (neutral : e.neutral = true) (device : DeviceId) :
    e.supersedes device = false := by
  cases e <;> first | rfl | cases neutral

theorem neutral_connection (e : Event J) (neutral : e.neutral = true) : e.connection = false := by
  cases e <;> first | rfl | cases neutral

end Journal

section Calm

def Device.Reached (d : Device J) (at_ : Int) : Prop :=
  ∃ last, d.lastDownlinkAt = some last ∧ at_ ≤ last

/-- A later row of the same device: enrolled as before, and paced no less. -/
structure Device.Paces (d d' : Device J) : Prop where
  revoked : d'.revoked = d.revoked
  downlink : ∀ at_, d.Reached at_ → d'.Reached at_

/-- A later row that says the same about the wake window. -/
structure Device.KeepsWindow (d d' : Device J) : Prop extends Device.Paces d d' where
  presence : d'.presenceStatus = d.presenceStatus
  ready : d'.lastReadyAt = d.lastReadyAt

theorem Device.KeepsWindow.refl (d : Device J) : d.KeepsWindow d :=
  ⟨⟨rfl, fun _ reached => reached⟩, rfl, rfl⟩

theorem Device.KeepsWindow.trans {d e f : Device J} (first : d.KeepsWindow e)
    (second : e.KeepsWindow f) : d.KeepsWindow f where
  revoked := second.revoked.trans first.revoked
  downlink at_ reached := second.downlink at_ (first.downlink at_ reached)
  presence := second.presence.trans first.presence
  ready := second.ready.trans first.ready

theorem Device.KeepsWindow.of_greatest {d d' : Device J} (now : Int) (revoked : d'.revoked = d.revoked)
    (presence : d'.presenceStatus = d.presenceStatus) (ready : d'.lastReadyAt = d.lastReadyAt)
    (paced : d'.lastDownlinkAt = greatest d.lastDownlinkAt now) : d.KeepsWindow d' := by
  refine ⟨⟨revoked, ?_⟩, presence, ready⟩
  intro at_ reached
  obtain ⟨last, was, le⟩ := reached
  refine ⟨max last now, ?_, by omega⟩
  rw [paced, was]
  rfl

def Store.reservedAs (s : Store J) (a : AttemptId) : Option (CommandId × Int) :=
  (s.attempts.get a).map (fun att => (att.command, att.readyAt))

/-- What every transaction does, except a reservation and the changes of presence. -/
structure Calm (s s' : Store J) : Prop where
  devices : ∀ d, (s.devices d).KeepsWindow (s'.devices d)
  attempts : ∀ a, s'.reservedAs a = s.reservedAs a

theorem Calm.refl (s : Store J) : Calm s s := ⟨fun _ => .refl _, fun _ => rfl⟩

theorem Calm.trans {s t u : Store J} (first : Calm s t) (second : Calm t u) : Calm s u where
  devices d := (first.devices d).trans (second.devices d)
  attempts a := (second.attempts a).trans (first.attempts a)

theorem updateDevice_cases (s : Store J) (device : DeviceId) (f : Device J → Device J)
    (keeps : Device J → Device J → Prop) (same : ∀ d, keeps d d) (changed : ∀ d, keeps d (f d))
    (d : DeviceId) : keeps (s.devices d) ((s.updateDevice device f).devices d) := by
  simp only [Store.updateDevice, Function.update_apply]
  split
  · rename_i at_device
    rw [at_device]
    exact changed _
  · exact same _

theorem updateDevice_calm (s : Store J) (device : DeviceId) (f : Device J → Device J)
    (keeps : ∀ d : Device J, d.KeepsWindow (f d)) : Calm s (s.updateDevice device f) :=
  ⟨updateDevice_cases s device f Device.KeepsWindow .refl keeps, fun _ => rfl⟩

theorem mapRows_reservedAs (s : Store J) (f : AttemptId → Attempt J → Attempt J)
    (same : ∀ a att, (f a att).command = att.command ∧ (f a att).readyAt = att.readyAt)
    (a : AttemptId) :
    ((s.attempts.mapRows f).get a).map (fun att => (att.command, att.readyAt)) = s.reservedAs a := by
  simp only [Store.reservedAs, Table.get_mapRows, Option.map_map]
  cases s.attempts.get a with
  | none => rfl
  | some att => simp only [Option.map_some, Function.comp, (same a att).1, (same a att).2]

theorem queue_calm (device : DeviceId) (kind : CommandKind) (payload : J) (wire by_ : String)
    (s : Store J) : Calm s (queue device kind payload wire by_ s) := by
  unfold queue
  split
  · exact Calm.refl s
  · simp only
    split
    · refine Calm.trans ?_ (updateDevice_calm _ device _ ?_)
      · exact ⟨fun _ => .refl _, fun _ => rfl⟩
      · exact fun _ => ⟨⟨rfl, fun _ reached => reached⟩, rfl, rfl⟩
    · exact ⟨fun _ => .refl _, fun _ => rfl⟩

theorem cancel_calm (device : DeviceId) (id : CommandId) (now : Int) (username : String)
    (s : Store J) : Calm s (cancel device id now username s) :=
  ⟨fun _ => .refl _, fun _ => rfl⟩

theorem abandonAttempts_calm (pick : AttemptId → Bool) (reason : String) (s : Store J) :
    Calm s (abandonAttempts pick reason s) := by
  refine ⟨fun _ => .refl _, mapRows_reservedAs s _ ?_⟩
  intro a att
  split
  · exact ⟨rfl, rfl⟩
  · exact ⟨rfl, rfl⟩

theorem modify_reservedAs (s : Store J) (target : AttemptId) (f : Attempt J → Attempt J)
    (same : ∀ att, (f att).command = att.command ∧ (f att).readyAt = att.readyAt) (a : AttemptId) :
    ((s.attempts.modify target f).get a).map (fun att => (att.command, att.readyAt)) =
      s.reservedAs a := by
  apply mapRows_reservedAs
  intro b att
  split
  · exact same att
  · exact ⟨rfl, rfl⟩

theorem recordOutgoing_calm (id : AttemptId) (packet : Nat) (now : Int) (s s' : Store J)
    (recorded : recordOutgoing id packet now s = some s') : Calm s s' := by
  unfold recordOutgoing at recorded
  split at recorded
  · cases recorded
  · split at recorded
    · cases recorded
    · rename_i c _
      split at recorded
      · cases recorded
        refine Calm.trans ?_ (updateDevice_calm _ c.device _ ?_)
        · refine ⟨fun _ => .refl _, ?_⟩
          apply modify_reservedAs s id
          exact fun _ => ⟨rfl, rfl⟩
        · exact fun _ => .of_greatest now rfl rfl rfl rfl
      · cases recorded
        exact Calm.refl s

theorem acceptDevice_keeps (a : Attempt J) (ackedAt : Int) (c : Command J) (d d' : Device J)
    (updated : acceptDevice a ackedAt c d = some d') : d.KeepsWindow d' := by
  simp only [acceptDevice] at updated
  split at updated
  · split at updated
    · cases updated
      exact .of_greatest ackedAt rfl rfl rfl rfl
    · cases updated
  · split at updated
    · cases updated
      exact .of_greatest ackedAt rfl rfl rfl rfl
    · cases updated
      exact .of_greatest ackedAt rfl rfl rfl rfl

theorem accept_calm (id : AttemptId) (ackedAt : Int) (s s' : Store J) (device : Option DeviceId)
    (accepted : accept id ackedAt s = some (s', device)) : Calm s s' := by
  obtain ⟨a, c, _, _, ⟨_, rfl, _⟩ | ⟨_, _, _, attempts, outcome⟩⟩ :=
    accept_cases id ackedAt s s' device accepted
  · exact Calm.refl s'
  · have rows : ∀ x, s'.reservedAs x = s.reservedAs x := by
      intro x
      rw [Store.reservedAs, attempts]
      apply modify_reservedAs s id
      exact fun _ => ⟨rfl, rfl⟩
    refine ⟨?_, rows⟩
    intro x
    obtain ⟨_, _, devices⟩ | ⟨_, _, d, updated, devices⟩ := outcome
    · rw [devices]
      exact .refl _
    · rw [devices, Function.update_apply]
      split
      · rename_i at_device
        rw [at_device]
        exact acceptDevice_keeps a ackedAt c _ d updated
      · exact .refl _

theorem ancillary_calm [DecidableEq J] (ack : FirmwareAck J) (s : Store J) :
    Calm s (ancillary ack s) := by
  have seen : ∀ d : Device J, d.KeepsWindow (signOfLife ack d) := by
    intro d
    unfold signOfLife
    split
    · exact .refl _
    · exact ⟨⟨rfl, fun _ reached => reached⟩, rfl, rfl⟩
  have woken := updateDevice_calm s ack.device _ seen
  rw [ancillary_eq]
  cases candidate ack s with
  | none => exact woken
  | some pair =>
    obtain ⟨id, c⟩ := pair
    simp only
    cases inflightAttempt s c with
    | some active =>
      refine woken.trans ⟨fun _ => .refl _, ?_⟩
      apply modify_reservedAs
      exact fun _ => ⟨rfl, rfl⟩
    | none =>
      simp only
      split
      · refine woken.trans (Calm.trans ?_ (updateDevice_calm _ ack.device _ ?_))
        · exact ⟨fun _ => .refl _, fun _ => rfl⟩
        · exact fun _ => ⟨⟨rfl, fun _ reached => reached⟩, rfl, rfl⟩
      · exact woken.trans ⟨fun _ => .refl _, fun _ => rfl⟩

end Calm

section Quiet

/-- A stretch of the loop in which no window opens or closes and nothing is reserved. -/
structure Quiet (w w' : World J) : Prop where
  store : Calm w.store w'.store
  connected : w'.publisher.connected = w.publisher.connected
  journal : ∃ new, w'.journal = new ++ w.journal ∧ ∀ e ∈ new, e.neutral = true

theorem Quiet.of_store {w w' : World J} (store : Calm w.store w'.store)
    (connected : w'.publisher.connected = w.publisher.connected) (journal : w'.journal = w.journal) :
    Quiet w w' :=
  ⟨store, connected, [], journal, fun _ impossible => nomatch impossible⟩

theorem Quiet.refl (w : World J) : Quiet w w := .of_store (Calm.refl _) rfl rfl

theorem Quiet.trans {w x y : World J} (first : Quiet w x) (second : Quiet x y) : Quiet w y := by
  obtain ⟨store₁, connected₁, new₁, journal₁, neutral₁⟩ := first
  obtain ⟨store₂, connected₂, new₂, journal₂, neutral₂⟩ := second
  refine ⟨store₁.trans store₂, connected₂.trans connected₁, new₂ ++ new₁, ?_, ?_⟩
  · rw [journal₂, journal₁, List.append_assoc]
  · intro e member
    cases List.mem_append.mp member with
    | inl late => exact neutral₂ e late
    | inr early => exact neutral₁ e early

theorem note_quiet {w : World J} (e : Event J) (neutral : e.neutral = true) : Quiet w (w.note e) := by
  refine ⟨Calm.refl _, rfl, [e], rfl, ?_⟩
  intro e' member
  rw [List.mem_singleton.mp member]
  exact neutral

theorem andThen_quiet {w : World J} {r : World J × Bool} {next : World J → World J × Bool}
    (first : Quiet w r.1) (second : ∀ x, Quiet x (next x).1) : Quiet w (andThen r next).1 := by
  unfold andThen
  split
  · exact first.trans (second r.1)
  · exact first

theorem commit_calm {β : Type} (o : Outcome) (s : Store J) (result : Option (Store J × β))
    (calm : ∀ s' answer, result = some (s', answer) → Calm s s') :
    Calm s (commit o s result).1 := by
  obtain ⟨same, _⟩ | ⟨s', answer, produced, same, _⟩ := commit_cases o s result
  · rw [same]
    exact Calm.refl s
  · rw [same]
    exact calm s' answer produced

theorem recoverStep_quiet (f : Faults) (w : World J) : Quiet w (recoverStep f w).1 := by
  refine .of_store (commit_calm f.recover w.store _ ?_) rfl rfl
  intro s' answer produced
  cases produced
  exact abandonAttempts_calm _ _ _

theorem saveStep_quiet (f : Faults) (w : World J) : Quiet w (saveStep f w).1 := by
  unfold saveStep
  split
  · exact Quiet.refl w
  · rename_i p _
    split
    · exact Quiet.refl w
    · split
      · rename_i packet dispatched _ _
        have calm := commit_calm f.save w.store
          ((recordOutgoing p.attemptId packet dispatched w.store).map (fun s => (s, ()))) (by
            intro s' answer produced
            obtain ⟨_, recorded, same⟩ := Option.map_eq_some_iff.mp produced
            cases same
            exact recordOutgoing_calm p.attemptId packet dispatched w.store s' recorded)
        simp only
        split
        · exact .of_store calm rfl rfl
        · exact .of_store calm rfl rfl
      · exact Quiet.refl w

theorem settleStep_quiet (f : Faults) (w : World J) : Quiet w (settleStep f w).1 := by
  unfold settleStep
  split
  · exact Quiet.refl w
  · rename_i p _
    split
    · rename_i ackedAt _
      have calm := commit_calm f.settle w.store (accept p.attemptId ackedAt w.store) (by
        intro s' device produced
        exact accept_calm p.attemptId ackedAt w.store s' device produced)
      simp only
      split
      · exact .of_store calm rfl rfl
      · exact .of_store calm rfl rfl
    · split
      · have calm := commit_calm f.settle w.store
          (some (abandon p.attemptId "transport lost or enqueue rejected" w.store, ())) (by
            intro s' answer produced
            cases produced
            exact abandonAttempts_calm _ _ _)
        simp only
        split
        · exact .of_store calm rfl rfl
        · exact .of_store calm rfl rfl
      · exact Quiet.refl w

theorem reconcile_quiet (f : Faults) (w : World J) : Quiet w (reconcile f w).1 :=
  andThen_quiet (andThen_quiet (recoverStep_quiet f w) (saveStep_quiet f)) (settleStep_quiet f)

theorem outgoing_quiet (packet : Nat) (now : Int) (f : Faults) (w : World J) :
    Quiet w (outgoing packet now f w).1 := by
  unfold outgoing
  split
  · exact Quiet.refl w
  · split
    · exact Quiet.refl w
    · refine Quiet.trans ?_ (reconcile_quiet f _)
      refine Quiet.trans ?_ (note_quiet _ rfl)
      exact .of_store (Calm.refl _) rfl rfl

theorem puback_quiet (packet : Nat) (now : Int) (f : Faults) (w : World J) :
    Quiet w (puback packet now f w).1 := by
  unfold puback
  split
  · exact Quiet.refl w
  · split
    · refine Quiet.trans ?_ (reconcile_quiet f _)
      refine Quiet.trans ?_ (note_quiet _ rfl)
      exact .of_store (Calm.refl _) rfl rfl
    · exact Quiet.refl w

theorem acknowledge_quiet [DecidableEq J] (ack : FirmwareAck J) (w : World J) :
    Quiet w (w.acknowledge ack) := by
  have applied : Quiet w { w with store := ancillary ack w.store } :=
    .of_store (ancillary_calm ack w.store) rfl rfl
  unfold World.acknowledge
  simp only
  split
  · exact applied
  · exact applied.trans (note_quiet _ rfl)

end Quiet

section Window

variable (supported : Device J → CommandKind → J → Bool)

/-- What the reservation of a command found in the rows it read and in what came before. -/
structure InWindow (earlier : List (Event J)) (c : CommandId) (cmd : Command J) (ready now : Int)
    (read : Store J) : Prop where
  handled : Fresh earlier cmd.device ready
  live : Live earlier
  reached : ready ≤ now
  young : now - seconds 480 < ready
  spaced : ∀ a' c' now' read' cmd', Event.reserved a' c' now' read' ∈ earlier →
    read'.commands.get c' = some cmd' → cmd'.device = cmd.device → now' + seconds 5 ≤ now
  oldest : ∀ c' cmd', c' < c → read.commands.get c' = some cmd' → cmd'.device = cmd.device →
    cmd'.pending = true → supported (read.devices cmd.device) cmd'.kind cmd'.payload = false

/-- One reservation of the journal: its row stands, and it fell in a wake window. -/
def Justified (s : Store J) (a : AttemptId) (c : CommandId) (now : Int) (read : Store J)
    (earlier : List (Event J)) : Prop :=
  ∃ cmd ready, read.commands.get c = some cmd ∧ s.reservedAs a = some (c, ready) ∧
    InWindow supported earlier c cmd ready now read

/-- What the journal and the rows say about past reservations; `rows` are those the process
found when it started. -/
structure Records (rows : Store J) (w : World J) : Prop where
  paced : ∀ a c now read, Event.reserved a c now read ∈ w.journal →
    ∀ cmd, read.commands.get c = some cmd → (w.store.devices cmd.device).Reached now
  justified : ∀ later a c now read earlier,
    w.journal = later ++ .reserved a c now read :: earlier →
      Justified supported w.store a c now read earlier
  noted : ∀ a c ready, rows.attempts.get a = none → w.store.reservedAs a = some (c, ready) →
    ∃ now read, Event.reserved a c now read ∈ w.journal

/-- The invariant of the loop: once cached readiness is invalidated, a device counts as awake only
by the newest word of the connection. -/
structure WindowOk (rows : Store J) (x : Ingest J) : Prop where
  records : Records supported rows x.world
  allowed : x.world.publisher.connected = true → x.resetReady = false ∧ x.connected = true
  live : x.connected = true → Live x.world.journal
  fresh : x.resetReady = false → ∀ d, (x.world.store.devices d).revoked = false →
    (x.world.store.devices d).presenceStatus = some .awake →
      ∃ ready, (x.world.store.devices d).lastReadyAt = some ready ∧ Fresh x.world.journal d ready

end Window

section Past

variable {supported : Device J → CommandKind → J → Bool} {rows : Store J}

/-- A step that reserves nothing. -/
structure Unreserving (w w' : World J) : Prop where
  devices : ∀ d, (w.store.devices d).Paces (w'.store.devices d)
  attempts : ∀ a, w'.store.reservedAs a = w.store.reservedAs a
  journal : ∃ new, w'.journal = new ++ w.journal ∧ ∀ e ∈ new, ∀ a c now read, e ≠ .reserved a c now read

theorem Quiet.unreserving {w w' : World J} (quiet : Quiet w w') : Unreserving w w' := by
  obtain ⟨calm, _, new, journal, neutral⟩ := quiet
  refine ⟨fun d => (calm.devices d).toPaces, calm.attempts, new, journal, ?_⟩
  intro e member a c now read same
  have neutral_e := neutral e member
  rw [same] at neutral_e
  cases neutral_e

theorem Unreserving.trans {w x y : World J} (first : Unreserving w x) (second : Unreserving x y) :
    Unreserving w y := by
  obtain ⟨devices₁, attempts₁, new₁, journal₁, other₁⟩ := first
  obtain ⟨devices₂, attempts₂, new₂, journal₂, other₂⟩ := second
  refine ⟨?_, fun a => (attempts₂ a).trans (attempts₁ a), new₂ ++ new₁, ?_, ?_⟩
  · intro d
    constructor
    · exact (devices₂ d).revoked.trans (devices₁ d).revoked
    · exact fun at_ reached => (devices₂ d).downlink at_ ((devices₁ d).downlink at_ reached)
  · rw [journal₂, journal₁, List.append_assoc]
  · intro e member
    cases List.mem_append.mp member with
    | inl late => exact other₂ e late
    | inr early => exact other₁ e early

theorem note_unreserving (w : World J) (e : Event J)
    (other : ∀ a c now read, e ≠ .reserved a c now read) : Unreserving w (w.note e) := by
  refine ⟨fun d => (Device.KeepsWindow.refl _).toPaces, fun _ => rfl, [e], rfl, ?_⟩
  intro e' member
  rw [List.mem_singleton.mp member]
  exact other

theorem store_unreserving (w : World J) (s : Store J)
    (devices : ∀ d, (w.store.devices d).Paces (s.devices d)) (attempts : s.attempts = w.store.attempts) :
    Unreserving w { w with store := s } := by
  refine ⟨devices, ?_, [], rfl, nofun⟩
  intro a
  simp only [Store.reservedAs, attempts]

theorem publisher_unreserving (w : World J) (publisher : Publisher) :
    Unreserving w { w with publisher := publisher } :=
  ⟨fun _ => (Device.KeepsWindow.refl _).toPaces, fun _ => rfl, [], rfl, nofun⟩

/-- A split of the journal at a reservation falls before events that are none. -/
theorem split_before {new old later earlier : List (Event J)} {a : AttemptId} {c : CommandId}
    {now : Int} {read : Store J} (other : ∀ e ∈ new, ∀ a c now read, e ≠ .reserved a c now read)
    (parts : new ++ old = later ++ .reserved a c now read :: earlier) :
    ∃ rest, old = rest ++ .reserved a c now read :: earlier := by
  induction new generalizing later with
  | nil => exact ⟨later, parts⟩
  | cons e new ih =>
    cases later with
    | nil =>
      cases parts
      exact absurd rfl (other _ List.mem_cons_self a c now read)
    | cons e' later =>
      simp only [List.cons_append, List.cons.injEq] at parts
      exact ih (fun e member => other e (List.mem_cons_of_mem _ member)) parts.2

theorem Justified.keep {s s' : Store J} (attempts : ∀ b, s.reservedAs b ≠ none →
      s'.reservedAs b = s.reservedAs b) {a : AttemptId} {c : CommandId} {now : Int} {read : Store J}
    {earlier : List (Event J)} (held : Justified supported s a c now read earlier) :
    Justified supported s' a c now read earlier := by
  obtain ⟨cmd, ready, found, row, window⟩ := held
  refine ⟨cmd, ready, found, ?_, window⟩
  rw [attempts a (by rw [row]; exact Option.some_ne_none _), row]

theorem Records.keep {w w' : World J} (records : Records supported rows w) (step : Unreserving w w') :
    Records supported rows w' := by
  obtain ⟨devices, attempts, new, journal, other⟩ := step
  constructor
  · intro a c now read member cmd found
    rw [journal] at member
    cases List.mem_append.mp member with
    | inl impossible => exact absurd rfl (other _ impossible a c now read)
    | inr old => exact (devices _).downlink now (records.paced a c now read old cmd found)
  · intro later a c now read earlier parts
    rw [journal] at parts
    obtain ⟨rest, old⟩ := split_before other parts
    exact (records.justified rest a c now read earlier old).keep (fun b _ => attempts b)
  · intro a c ready missing row
    rw [attempts] at row
    obtain ⟨now, read, member⟩ := records.noted a c ready missing row
    refine ⟨now, read, ?_⟩
    rw [journal]
    exact List.mem_append_right new member

end Past

section Present

variable {supported : Device J → CommandKind → J → Bool} {rows : Store J}

theorem Fresh.append {journal : List (Event J)} {device : DeviceId} {ready : Int}
    (fresh : Fresh journal device ready) (new : List (Event J))
    (neutral : ∀ e ∈ new, e.neutral = true) : Fresh (new ++ journal) device ready := by
  induction new with
  | nil => exact fresh
  | cons e new ih =>
    have rest := ih (fun e member => neutral e (List.mem_cons_of_mem _ member))
    exact rest.cons e (neutral_supersedes e (neutral e List.mem_cons_self) device)

theorem Live.append {journal : List (Event J)} (live : Live journal) (new : List (Event J))
    (neutral : ∀ e ∈ new, e.neutral = true) : Live (new ++ journal) := by
  induction new with
  | nil => exact live
  | cons e new ih =>
    have rest := ih (fun e member => neutral e (List.mem_cons_of_mem _ member))
    exact rest.cons e (neutral_connection e (neutral e List.mem_cons_self))

theorem quiet_ok {x : Ingest J} {w : World J} (ok : WindowOk supported rows x)
    (quiet : Quiet x.world w) : WindowOk supported rows (x.on w) := by
  have records := ok.records.keep quiet.unreserving
  obtain ⟨calm, connected, new, journal, neutral⟩ := quiet
  refine ⟨records, ?_, ?_, ?_⟩
  · intro up
    exact ok.allowed (connected ▸ up)
  · intro up
    rw [show (x.on w).world.journal = new ++ x.world.journal from journal]
    exact (ok.live up).append new neutral
  · intro clear d enrolled awake
    have keeps := calm.devices d
    obtain ⟨ready, known, fresh⟩ :=
      ok.fresh clear d (keeps.revoked ▸ enrolled) (keeps.presence ▸ awake)
    refine ⟨ready, keeps.ready.trans known, ?_⟩
    rw [show (x.on w).world.journal = new ++ x.world.journal from journal]
    exact fresh.append new neutral

/-- A discarded connection leaves nothing to invalidate but everything to distrust. -/
theorem discarded_ok {w : World J} (records : Records supported rows w)
    (down : w.publisher.connected = false) :
    WindowOk supported rows { world := w } := by
  refine ⟨records, ?_, nofun, nofun⟩
  intro up
  rw [show ({ world := w } : Ingest J).world.publisher.connected = false from down] at up
  cases up

end Present

section Reservation

/-- What the selection of a tick asks of the device and of the older commands. -/
structure Selected (supported : Device J → CommandKind → J → Bool) (now : Int) (s : Store J) (id : CommandId) (c : Command J) : Prop where
  enrolled : (s.devices c.device).revoked = false
  awake : (s.devices c.device).presenceStatus = some .awake
  window : ∀ ready, (s.devices c.device).lastReadyAt = some ready →
    ready ≤ now ∧ now - seconds 480 < ready
  spaced : ∀ at_, (s.devices c.device).Reached at_ → at_ + seconds 5 ≤ now
  oldest : ∀ id' c', id' < id → s.commands.get id' = some c' → c'.device = c.device →
    c'.pending = true → supported (s.devices c.device) c'.kind c'.payload = false

variable {supported : Device J → CommandKind → J → Bool} {rows : Store J}

theorem eligible_selected (now : Int) (s : Store J) (id : CommandId) (c : Command J)
    (fits : eligible supported now s id c = true) : Selected supported now s id c := by
  simp only [eligible, Bool.and_eq_true, Bool.not_eq_true', decide_eq_true_eq] at fits
  obtain ⟨⟨⟨⟨⟨⟨⟨⟨_, _⟩, enrolled⟩, awake⟩, _⟩, young⟩, paced⟩, _⟩, oldest⟩ := fits
  refine ⟨enrolled, awake, ?_, ?_, ?_⟩
  · intro ready known
    simp only [inReadyWindow, known, Bool.and_eq_true, decide_eq_true_eq] at young
    exact young
  · intro at_ reached
    obtain ⟨last, known, le⟩ := reached
    simp only [Dispatch.paced, known, decide_eq_true_eq] at paced
    omega
  · intro id' c' older found same pending
    have none := (Table.select_eq_nil _ _).mp (List.isEmpty_iff.mp oldest) id' c' found
    simp only [same, older, pending, decide_true, Bool.true_and] at none
    exact none

theorem insert_reservedAs (s s' : Store J) (row : Attempt J)
    (attempts : s'.attempts = s.attempts.insert row) (a : AttemptId) :
    (a = s.attempts.next ∧ s.reservedAs a = none ∧
        s'.reservedAs a = some (row.command, row.readyAt)) ∨
      s'.reservedAs a = s.reservedAs a := by
  simp only [Store.reservedAs, attempts]
  by_cases new : a = s.attempts.next
  · subst new
    refine Or.inl ⟨rfl, ?_, ?_⟩
    · rw [s.attempts.above _ (Nat.le_refl _)]
      rfl
    · rw [Table.get_insert_self]
      rfl
  · rw [Table.get_insert_of_ne _ _ _ new]
    exact Or.inr rfl

/-- The world right after the commit of a reservation. -/
theorem reserved_ok (now : Int) (routes : Routes) (locked : CommandId → Bool) (x : Ingest J)
    (s : Store J) (p : Prepared) (ok : WindowOk supported rows x)
    (up : x.world.publisher.connected = true)
    (reserved : reserve supported now routes locked x.world.store = some (s, some p)) :
    WindowOk supported rows
      (x.on ({ x.world with store := s }.note (.reserved p.attempt p.command now x.world.store))) := by
  obtain ⟨c, ready, found, fits, known, drawn, attempts, _, devices⟩ :=
    reserve_cases supported now routes locked x.world.store s p reserved
  obtain ⟨enrolled, awake, window, spaced, oldest⟩ := eligible_selected now x.world.store p.command c fits
  obtain ⟨clear, connected⟩ := ok.allowed up
  obtain ⟨ready', known', handled⟩ := ok.fresh clear c.device enrolled awake
  rw [known] at known'
  cases known'
  have at_device : ∀ d, (d = c.device ∧
      s.devices d = { x.world.store.devices c.device with lastDownlinkAt := some now }) ∨
        s.devices d = x.world.store.devices d := by
    intro d
    rw [devices, Function.update_apply]
    split
    · exact Or.inl ⟨by assumption, rfl⟩
    · exact Or.inr rfl
  have here : s.reservedAs p.attempt = some (p.command, ready) := by
    rw [Store.reservedAs, attempts, drawn, Table.get_insert_self]
    rfl
  have kept : ∀ b, x.world.store.reservedAs b ≠ none → s.reservedAs b = x.world.store.reservedAs b := by
    intro b present
    obtain ⟨_, missing, _⟩ | same := insert_reservedAs x.world.store s _ attempts b
    · exact absurd missing present
    · exact same
  have in_window : InWindow supported x.world.journal p.command c ready now x.world.store := by
    refine ⟨handled, ok.live connected, (window ready known).1, (window ready known).2, ?_, oldest⟩
    intro a' c' now' read' cmd' member found' same
    have reached := ok.records.paced a' c' now' read' member cmd' found'
    rw [same] at reached
    exact spaced now' reached
  refine ⟨⟨?_, ?_, ?_⟩, ok.allowed, ?_, ?_⟩
  · intro a' c' now' read' member cmd' found'
    obtain ⟨there, device⟩ | device := at_device cmd'.device
    · refine ⟨now, congrArg Device.lastDownlinkAt device, ?_⟩
      cases member with
      | head => exact Int.le_refl now
      | tail _ old =>
        have reached := ok.records.paced a' c' now' read' old cmd' found'
        rw [there] at reached
        have apart := spaced now' reached
        simp only [seconds] at apart
        omega
    · have reached : (x.world.store.devices cmd'.device).Reached now' := by
        cases member with
        | head =>
          rw [found] at found'
          cases found'
          have set := congrArg (fun f => (f c.device).lastDownlinkAt) devices
          simp only [Function.update_self, device] at set
          exact ⟨now, set, Int.le_refl now⟩
        | tail _ old => exact ok.records.paced a' c' now' read' old cmd' found'
      obtain ⟨last, known_last, le⟩ := reached
      exact ⟨last, (congrArg Device.lastDownlinkAt device).trans known_last, le⟩
  · intro later a' c' now' read' earlier parts
    cases later with
    | nil =>
      cases parts
      exact ⟨c, ready, found, here, in_window⟩
    | cons e later =>
      have older := (List.cons.inj parts).2
      exact (ok.records.justified later a' c' now' read' earlier older).keep kept
  · intro a c' ready' missing row
    obtain ⟨rfl, _, new⟩ | same := insert_reservedAs x.world.store s _ attempts a
    · have agree := row.symm.trans new
      cases agree
      refine ⟨now, x.world.store, ?_⟩
      rw [← drawn]
      exact List.mem_cons_self
    · obtain ⟨now', read', member⟩ := ok.records.noted a c' ready' missing (same ▸ row)
      exact ⟨now', read', List.mem_cons_of_mem _ member⟩
  · intro live
    exact (ok.live live).cons _ rfl
  · intro _ d enrolled' awake'
    have keeps : (x.world.store.devices d).revoked = (s.devices d).revoked ∧
        (x.world.store.devices d).presenceStatus = (s.devices d).presenceStatus ∧
          (x.world.store.devices d).lastReadyAt = (s.devices d).lastReadyAt := by
      obtain ⟨rfl, device⟩ | device := at_device d
      · rw [device]
        exact ⟨rfl, rfl, rfl⟩
      · rw [device]
        exact ⟨rfl, rfl, rfl⟩
    obtain ⟨last, known'', fresh⟩ := ok.fresh clear d (keeps.1.trans enrolled') (keeps.2.1.trans awake')
    exact ⟨last, keeps.2.2.symm.trans known'', fresh.cons _ rfl⟩

theorem reservation_ok (t : TickInput) (x : Ingest J) (ok : WindowOk supported rows x)
    (up : x.world.publisher.connected = true) :
    WindowOk supported rows (x.on (reservation supported t x.world).1) := by
  unfold reservation
  cases result : reserve supported t.now t.routes t.locked x.world.store with
  | none => exact ok
  | some pair =>
    obtain ⟨s, prepared⟩ := pair
    cases prepared with
    | none => exact ok
    | some p =>
      have committed := reserved_ok t.now t.routes t.locked x s p ok up result
      simp only
      cases t.reservation with
      | refused => exact ok
      | lost => exact committed
      | done =>
        let reserved := { x.world with store := s }.note (.reserved p.attempt p.command t.now x.world.store)
        let handed := { reserved with publisher := x.world.publisher.enqueue p.attempt t.rejected }
        have handover : Quiet reserved handed := .of_store (Calm.refl _) rfl rfl
        have noted : Quiet handed (handed.note (.enqueued p.attempt)) := note_quiet _ rfl
        have settled := quiet_ok committed
          ((handover.trans noted).trans (reconcile_quiet t.second _))
        exact settled

theorem tick_ok (t : TickInput) (x : Ingest J) (ok : WindowOk supported rows x) :
    WindowOk supported rows (x.on (tick supported t x.world).1) := by
  have reconciled := quiet_ok ok (reconcile_quiet t.first x.world)
  unfold tick andThen
  split
  · simp only
    split
    · exact reconciled
    · rename_i allowed
      simp only [Bool.or_eq_true, Bool.not_eq_true', not_or] at allowed
      refine reservation_ok t (x.on (reconcile t.first x.world).1) reconciled ?_
      exact Bool.not_eq_false _ ▸ allowed.1
  · exact reconciled

end Reservation

section Loop

variable {supported : Device J → CommandKind → J → Bool} {rows : Store J}

theorem invalidateReady_paces (s : Store J) (d : DeviceId) :
    (s.devices d).Paces ((invalidateReady s).devices d) := by
  simp only [invalidateReady]
  split
  · exact ⟨rfl, fun _ reached => reached⟩
  · exact (Device.KeepsWindow.refl _).toPaces

/-- After an invalidation no device counts as awake. -/
theorem invalidateReady_asleep (s : Store J) (d : DeviceId) :
    ((invalidateReady s).devices d).presenceStatus ≠ some .awake := by
  simp only [invalidateReady]
  split
  · exact nofun
  · assumption

theorem invalidate_unreserving (o : Outcome) (w : World J) : Unreserving w (w.invalidate o).1 := by
  apply store_unreserving
  · intro d
    obtain ⟨same, _⟩ | ⟨s', answer, produced, same, _⟩ :=
      commit_cases o w.store (some (invalidateReady w.store, ()))
    · rw [same]
      exact (Device.KeepsWindow.refl _).toPaces
    · cases produced
      rw [same]
      exact invalidateReady_paces w.store d
  · obtain ⟨same, _⟩ | ⟨s', answer, produced, same, _⟩ :=
      commit_cases o w.store (some (invalidateReady w.store, ()))
    · rw [same]
    · cases produced
      rw [same]
      rfl

theorem invalidate_answered (o : Outcome) (w : World J) (answered : (w.invalidate o).2 = true)
    (d : DeviceId) : ((w.invalidate o).1.store.devices d).presenceStatus ≠ some .awake := by
  cases o with
  | done => exact invalidateReady_asleep w.store d
  | lost => cases answered
  | refused => cases answered

theorem discard_unreserving (w : World J) : Unreserving w w.discard :=
  (publisher_unreserving w _).trans (note_unreserving _ _ nofun)

theorem discard_ok {x : Ingest J} (ok : WindowOk supported rows x) :
    WindowOk supported rows { world := x.world.discard } :=
  discarded_ok (ok.records.keep (discard_unreserving x.world)) rfl

theorem failed_ok (f : Faults) (sameMessage : Bool) (x : Ingest J) (ok : WindowOk supported rows x) :
    WindowOk supported rows (x.failed f sameMessage) := by
  have down : (if x.connected || !sameMessage then false else x.connected) = false := by
    cases x.connected <;> cases sameMessage <;> rfl
  unfold Ingest.failed
  rw [down]
  exact quiet_ok (discard_ok ok) (reconcile_quiet f _)

theorem restart_ok (x : Ingest J) (ok : WindowOk supported rows x) :
    WindowOk supported rows x.restart := by
  have crashed : Unreserving x.world x.world.crash :=
    (publisher_unreserving x.world _).trans (note_unreserving _ _ nofun)
  have recovered : Quiet x.world.crash { x.world.crash with store := recover x.world.store } :=
    .of_store (abandonAttempts_calm _ _ _) rfl rfl
  exact discarded_ok (ok.records.keep (crashed.trans recovered.unreserving)) rfl

/-- Cached readiness is gone, so whoever counts as awake says so in this connection. -/
theorem invalidated_ok (o : Outcome) (value : Bool) {w : World J} (records : Records supported rows w)
    (live : value = true → Live w.journal) (answered : (w.invalidate o).2 = true) :
    WindowOk supported rows
      { world := (w.invalidate o).1.setConnected value, connected := value, resetReady := false } := by
  refine ⟨?_, fun up => ⟨rfl, up⟩, live, ?_⟩
  · exact records.keep ((invalidate_unreserving o w).trans (publisher_unreserving _ _))
  · intro _ d _ awake
    exact absurd awake (invalidate_answered o w answered d)

theorem dispatch_ok (reconnected : Bool) (o : Outcome) (t : TickInput) (x : Ingest J)
    (ok : WindowOk supported rows x) :
    WindowOk supported rows (x.dispatch supported reconnected o t) := by
  simp only [Ingest.dispatch]
  split
  · exact ok
  · split
    · rename_i reset
      split
      · rename_i answered
        have ready := invalidated_ok o x.connected ok.records ok.live answered
        exact tick_ok t
          { world := (x.world.invalidate o).1.setConnected x.connected
            connected := x.connected
            resetReady := false } ready
      · have down : x.world.publisher.connected = false := by
          cases up : x.world.publisher.connected with
          | false => rfl
          | true =>
            rw [(ok.allowed up).1] at reset
            cases reset
        refine ⟨ok.records.keep (invalidate_unreserving o x.world), ?_, ok.live, ?_⟩
        · intro up
          exact absurd (down.symm.trans up) Bool.false_ne_true
        · intro clear
          exact absurd (clear.symm.trans reset) Bool.false_ne_true
    · exact tick_ok t x ok

theorem connAck_ok (o : Outcome) (x : Ingest J) (ok : WindowOk supported rows x) :
    WindowOk supported rows (x.connAck o) := by
  have records := ok.records.keep (note_unreserving x.world .connAck nofun)
  have live : Live (x.world.note .connAck).journal := rfl
  cases answered : ((x.world.note .connAck).invalidate o).2 with
  | true =>
    have ready := invalidated_ok o true records (fun _ => live) answered
    simp only [Ingest.connAck, answered]
    exact ready
  | false =>
    simp only [Ingest.connAck, answered]
    refine ⟨?_, nofun, fun _ => live, nofun⟩
    exact records.keep ((invalidate_unreserving o _).trans (publisher_unreserving _ _))

theorem presence_ok (device : DeviceId) (now : Int) (status : Presence) (x : Ingest J)
    (ok : WindowOk supported rows x) :
    WindowOk supported rows (x.on (x.world.presence device now status)) := by
  have at_device : ∀ d, (d = device ∧ (x.world.store.devices d).revoked = false ∧
      (devicePresence device now status x.world.store).devices d =
        { x.world.store.devices d with
          lastSeen := greatest (x.world.store.devices d).lastSeen now
          presenceStatus := some status
          lastReadyAt := if status = .awake then some now
            else (x.world.store.devices d).lastReadyAt }) ∨
      ((d ≠ device ∨ (x.world.store.devices d).revoked = true) ∧
        (devicePresence device now status x.world.store).devices d = x.world.store.devices d) := by
    intro d
    simp only [devicePresence, Store.updateDevice, Function.update_apply]
    by_cases same : d = device
    · subst same
      rw [if_pos rfl]
      cases enrolled : (x.world.store.devices d).revoked with
      | true => exact Or.inr ⟨Or.inr rfl, rfl⟩
      | false => exact Or.inl ⟨rfl, rfl, rfl⟩
    · rw [if_neg same]
      exact Or.inr ⟨Or.inl same, rfl⟩
  have other : ∀ a c then_ read, presenceEvent device now status ≠ (.reserved a c then_ read : Event J) := by
    cases status <;> exact fun _ _ _ _ same => by cases same
  have stored : Unreserving x.world
      { x.world with store := devicePresence device now status x.world.store } := by
    refine store_unreserving x.world _ ?_ rfl
    intro d
    obtain ⟨_, _, changed⟩ | ⟨_, same⟩ := at_device d
    · rw [changed]
      exact ⟨rfl, fun _ reached => reached⟩
    · rw [same]
      exact (Device.KeepsWindow.refl _).toPaces
  refine ⟨ok.records.keep (stored.trans (note_unreserving _ _ other)), ok.allowed, ?_, ?_⟩
  · intro up
    refine (ok.live up).cons (presenceEvent device now status) ?_
    cases status <;> rfl
  · intro clear d enrolled awake
    obtain ⟨rfl, _, changed⟩ | ⟨apart, same⟩ := at_device d
    · have awake' := (congrArg Device.presenceStatus changed).symm.trans awake
      cases awake'
      refine ⟨now, congrArg Device.lastReadyAt changed, ?_⟩
      exact List.find?_cons_of_pos (decide_eq_true rfl)
    · have enrolled' := (congrArg Device.revoked same).symm.trans enrolled
      have awake' := (congrArg Device.presenceStatus same).symm.trans awake
      obtain ⟨ready, known, fresh⟩ := ok.fresh clear d enrolled' awake'
      refine ⟨ready, (congrArg Device.lastReadyAt same).trans known, fresh.cons (presenceEvent device now status) ?_⟩
      have elsewhere : d ≠ device := by
        cases apart with
        | inl distinct => exact distinct
        | inr revoked => exact absurd (enrolled'.symm.trans revoked) Bool.false_ne_true
      cases status with
      | awake => exact decide_eq_false (Ne.symm elsewhere)
      | asleep => exact decide_eq_false (Ne.symm elsewhere)

variable [DecidableEq J]

theorem loopStep_ok (x : Ingest J) (event : LoopEvent J) (ok : WindowOk supported rows x) :
    WindowOk supported rows (loopStep supported x event) := by
  cases event with
  | stalled => exact discard_ok ok
  | dispatch reconnected o t => exact dispatch_ok reconnected o t x ok
  | connAck o => exact connAck_ok o x ok
  | outgoing packet now f => exact quiet_ok ok (outgoing_quiet packet now f x.world)
  | puback packet now f => exact quiet_ok ok (puback_quiet packet now f x.world)
  | presence retained device now status =>
    cases retained with
    | true => exact ok
    | false => exact presence_ok device now status x ok
  | acknowledgement retained ack =>
    cases retained with
    | true => exact ok
    | false => exact quiet_ok ok (acknowledge_quiet ack x.world)
  | failed f sameMessage => exact failed_ok f sameMessage x ok
  | queue device kind payload wire by_ =>
    exact quiet_ok ok (.of_store (queue_calm device kind payload wire by_ x.world.store) rfl rfl)
  | cancel device id now username =>
    exact quiet_ok ok (.of_store (cancel_calm device id now username x.world.store) rfl rfl)
  | restart => exact restart_ok x ok

omit [DecidableEq J] in
theorem start_windowOk (rows : Store J) : WindowOk supported rows (Ingest.start rows) := by
  refine ⟨⟨nofun, ?_, ?_⟩, nofun, nofun, nofun⟩
  · intro later a c now read earlier parts
    cases later <;> cases parts
  · intro a c ready missing row
    simp only [Store.reservedAs, Ingest.start, missing, Option.map_none, reduceCtorEq] at row

/-- Every attempt row of a run comes from a reservation in the journal, and every reservation there
used the Ready that the newest word of a live connection named. -/
theorem reservations_in_wake_window (supported : Device J → CommandKind → J → Bool) (rows : Store J)
    (events : List (LoopEvent J)) :
    let w := (Runs.run (loopStep supported) (Ingest.start rows) events).world
    (∀ a att, w.store.attempts.get a = some att → rows.attempts.get a = none →
      ∃ now read, Event.reserved a att.command now read ∈ w.journal) ∧
    ∀ later a c now read earlier, w.journal = later ++ .reserved a c now read :: earlier →
      ∃ att cmd, w.store.attempts.get a = some att ∧ att.command = c ∧
        read.commands.get c = some cmd ∧ InWindow supported earlier c cmd att.readyAt now read := by
  intro w
  have ok : WindowOk supported rows (Runs.run (loopStep supported) (Ingest.start rows) events) :=
    Runs.run_invariant (loopStep supported) (WindowOk supported rows) loopStep_ok _ events
      (start_windowOk rows)
  constructor
  · intro a att found missing
    apply ok.records.noted a att.command att.readyAt missing
    simp only [Store.reservedAs, w] at found ⊢
    rw [found]
    rfl
  · intro later a c now read earlier parts
    obtain ⟨cmd, ready, known, row, window⟩ := ok.records.justified later a c now read earlier parts
    obtain ⟨att, found, same⟩ := Option.map_eq_some_iff.mp row
    cases same
    exact ⟨att, cmd, found, rfl, known, window⟩

end Loop

end NixHomeServer.Groundwater.Dispatch
