import NixHomeServer.Library.Table
import NixHomeServer.Groundwater.Basic

/-! The durable side of command delivery: devices, commands, publish attempts
and outgoing deliveries, with one function for each SQL statement or
transaction. A transaction that returns `none` rolls back. Instants are
microseconds. JSON values and the support policy of a device profile are
parameters with the operators the statements use. -/
namespace NixHomeServer.Groundwater.Dispatch

open NixHomeServer.Library

abbrev CommandId := Nat
abbrev AttemptId := Nat

def seconds (n : Int) : Int := n * 1000000

/-- The `jsonb` operators of the statements, and the reading of a settings limit. -/
class Jsonb (J : Type) where
  Limit : Type
  text : String → J
  emptyObject : J
  merge : J → J → J
  pushResult : Option J → J → J
  containsReboot : J → Bool
  textAt : J → String → Option String
  limitAt : J → String → Option Limit

inductive CommandKind
  | projectSettings | cfg | danger | test
  deriving DecidableEq, Repr

inductive CommandState
  | queued | sent | acked | cancelled
  deriving DecidableEq, Repr

inductive AttemptState
  | prepared | inflight | accepted | abandoned
  deriving DecidableEq, Repr

inductive Presence
  | awake | asleep
  deriving DecidableEq, Repr

inductive DeliveryState
  | published | brokerAccepted
  deriving DecidableEq, Repr

variable (J : Type) [Jsonb J]

/-- A device row; a device without a row is modelled as revoked. -/
structure Device where
  revoked : Bool
  sourceProfile : String
  clockPolicy : String
  localOffsetMin : Option Int
  clockChangeUnverified : Bool
  presenceStatus : Option Presence := none
  lastReadyAt : Option Int := none
  lastDownlinkAt : Option Int := none
  lastSeen : Option Int := none
  desiredConfig : Option J := none
  appliedConfig : Option J := none
  projectConfig : Option J := none
  minLimit : Option (Jsonb.Limit J) := none
  maxLimit : Option (Jsonb.Limit J) := none
  locationId : Option String := none
  sensorId : Option String := none

structure Command where
  device : DeviceId
  kind : CommandKind
  payload : J
  wirePayload : String
  requestedBy : String
  state : CommandState := .queued
  sentAt : Option Int := none
  brokerAckedAt : Option Int := none
  ackedAt : Option Int := none
  ackPayload : Option J := none
  attempts : Nat := 0
  lastReadyAt : Option Int := none
  cancelledAt : Option Int := none
  cancelledBy : Option String := none
  activePublishAttempt : Option AttemptId := none

structure Attempt where
  command : CommandId
  readyAt : Int
  topic : String
  state : AttemptState := .prepared
  packetId : Option Nat := none
  dispatchedAt : Option Int := none
  brokerAckedAt : Option Int := none
  firmwareAckedAt : Option Int := none
  firmwareAckPayload : Option J := none
  recoveryReason : Option String := none
  deliveryId : Option Nat := none

structure OutDelivery where
  receivedAt : Int
  topic : String
  payload : String
  device : DeviceId
  state : DeliveryState := .published

structure Store where
  devices : DeviceId → Device J
  commands : Table (Command J)
  attempts : Table (Attempt J)
  deliveries : Table OutDelivery

variable {J}

/-- The generated column `firmware_ack_expected`. -/
def Command.firmwareAckExpected (c : Command J) : Bool :=
  decide (c.kind ≠ .projectSettings) && !(decide (c.kind = .danger) && Jsonb.containsReboot c.payload)

/-- Still to be delivered: queued, or sent without the confirmation its kind needs. -/
def Command.pending (c : Command J) : Bool :=
  decide (c.state = .queued) ||
    (decide (c.state = .sent) && (c.firmwareAckExpected || c.brokerAckedAt.isNone))

def Attempt.unsettled (a : Attempt J) : Bool :=
  decide (a.state = .prepared) || decide (a.state = .inflight)

def Store.updateDevice (s : Store J) (device : DeviceId) (f : Device J → Device J) : Store J :=
  { s with devices := Function.update s.devices device (f (s.devices device)) }

def greatest (old : Option Int) (new : Int) : Option Int := Option.merge max old (some new)

section Requests

def queue (device : DeviceId) (kind : CommandKind) (payload : J) (wire requestedBy : String)
    (s : Store J) : Store J :=
  if (s.devices device).revoked then s
  else
    let stored := { s with
      commands := s.commands.insert
        { device := device, kind := kind, payload := payload, wirePayload := wire
          requestedBy := requestedBy } }
    if kind = .cfg then
      stored.updateDevice device (fun d =>
        { d with desiredConfig := some (Jsonb.merge (d.desiredConfig.getD Jsonb.emptyObject) payload) })
    else stored

def cancellable (device : DeviceId) (c : Command J) : Bool :=
  decide (c.device = device) && (decide (c.state = .queued) || decide (c.state = .sent)) &&
    c.activePublishAttempt.isNone

def cancel (device : DeviceId) (id : CommandId) (now : Int) (username : String) (s : Store J) :
    Store J :=
  { s with
    commands := s.commands.modify id (fun c =>
      if cancellable device c then
        { c with state := .cancelled, cancelledAt := some now, cancelledBy := some username }
      else c) }

end Requests

section Publishing

/-- The statement shared by `recover_untracked`, `recover` and `abandon`: the picked unsettled
attempts are abandoned, and a command that points at one of them is released. -/
def abandonAttempts (pick : AttemptId → Bool) (reason : String) (s : Store J) : Store J :=
  { s with
    attempts := s.attempts.mapRows (fun id a =>
      if a.unsettled && pick id then
        { a with state := .abandoned, recoveryReason := some reason }
      else a)
    commands := s.commands.mapRows (fun id c =>
      match c.activePublishAttempt with
      | none => c
      | some active =>
        match s.attempts.get active with
        | none => c
        | some a =>
          if a.unsettled && pick active && decide (a.command = id) then
            { c with activePublishAttempt := none }
          else c) }

def untrackedReason : String :=
  "untracked reservation after uncertain commit or database reconnect"

/-- `ORDER BY id LIMIT 32 FOR UPDATE SKIP LOCKED`, without the tracked attempt. -/
def untracked (tracked : Option AttemptId) (locked : AttemptId → Bool) (s : Store J) :
    List AttemptId :=
  ((s.attempts.select (fun id a =>
    a.unsettled && decide (tracked ≠ some id) && !locked id)).take 32).map Prod.fst

def recoverUntracked (tracked : Option AttemptId) (locked : AttemptId → Bool) (s : Store J) :
    Store J :=
  abandonAttempts (fun id => (untracked tracked locked s).contains id) untrackedReason s

def recover (s : Store J) : Store J :=
  abandonAttempts (fun _ => true) "process restart before persisted PUBACK" s

def abandon (id : AttemptId) (reason : String) (s : Store J) : Store J :=
  abandonAttempts (fun other => decide (other = id)) reason s

def recordOutgoing (id : AttemptId) (packet : Nat) (at_ : Int) (s : Store J) : Option (Store J) :=
  match s.attempts.get id with
  | none => none
  | some a =>
    match s.commands.get a.command with
    | none => none
    | some c =>
      if a.state = .prepared then
        let saved := { s with
          deliveries := s.deliveries.insert
            { receivedAt := at_, topic := a.topic, payload := c.wirePayload, device := c.device }
          attempts := s.attempts.modify id (fun a =>
            { a with
              state := .inflight, packetId := some packet, dispatchedAt := some at_
              deliveryId := some s.deliveries.next }) }
        some (saved.updateDevice c.device (fun d =>
          { d with lastDownlinkAt := greatest d.lastDownlinkAt at_ }))
      else some s

/-- The columns of the command that `accept` writes. -/
def acceptCommand (a : Attempt J) (dispatched ackedAt : Int) (c : Command J) : Command J :=
  let expects := c.firmwareAckExpected
  { c with
    state := if expects && a.firmwareAckedAt.isSome then .acked else .sent
    sentAt := some dispatched
    brokerAckedAt := some ackedAt
    lastReadyAt := some a.readyAt
    ackedAt := if expects then a.firmwareAckedAt else none
    ackPayload := if expects then a.firmwareAckPayload else none
    activePublishAttempt := none }

/-- The settings and configuration columns of the device; unreadable limits roll back. -/
def acceptDevice (a : Attempt J) (ackedAt : Int) (c : Command J) (d : Device J) :
    Option (Device J) :=
  let paced := { d with lastDownlinkAt := greatest d.lastDownlinkAt ackedAt }
  if c.kind = .projectSettings then
    match Jsonb.limitAt c.payload "mG", Jsonb.limitAt c.payload "MG" with
    | some low, some high =>
      some { paced with
        projectConfig := some c.payload, minLimit := some low, maxLimit := some high
        locationId := Jsonb.textAt c.payload "l", sensorId := Jsonb.textAt c.payload "id" }
    | _, _ => none
  else if c.kind = .cfg && a.firmwareAckedAt.isSome then
    some { paced with
      appliedConfig := some (Jsonb.merge (d.appliedConfig.getD Jsonb.emptyObject) c.payload) }
  else some paced

/-- `accept` returns the store and, unless it had been accepted before, the device. -/
def accept (id : AttemptId) (ackedAt : Int) (s : Store J) : Option (Store J × Option DeviceId) :=
  match s.attempts.get id with
  | none => none
  | some a =>
    match s.commands.get a.command with
    | none => none
    | some c =>
      if a.state = .accepted then some (s, none)
      else if a.state ≠ .inflight then none
      else
        match a.dispatchedAt with
        | none => none
        | some dispatched =>
          let marked := { s with
            attempts := s.attempts.modify id (fun a =>
              { a with state := .accepted, brokerAckedAt := some ackedAt })
            deliveries := match a.deliveryId with
              | some delivery => s.deliveries.modify delivery (fun d =>
                { d with state := .brokerAccepted })
              | none => s.deliveries }
          if c.state = .cancelled then some (marked, some c.device)
          else
            match acceptDevice a ackedAt c (s.devices c.device) with
            | none => none
            | some d =>
              some ({ marked with
                commands := s.commands.modify a.command (acceptCommand a dispatched ackedAt)
                devices := Function.update s.devices c.device d }, some c.device)

end Publishing

section Scheduling

variable (supported : Device J → CommandKind → J → Bool)

/-- Open work of the device that the profile supports, older than `id`. -/
def blockers (s : Store J) (id : CommandId) (device : DeviceId) : List (CommandId × Command J) :=
  s.commands.select (fun other c =>
    decide (c.device = device) && decide (other < id) && c.pending &&
      supported (s.devices device) c.kind c.payload)

def inReadyWindow (now : Int) (d : Device J) : Bool :=
  match d.lastReadyAt with
  | some ready => decide (ready ≤ now) && decide (now - seconds 480 < ready)
  | none => false

def paced (now : Int) (d : Device J) : Bool :=
  match d.lastDownlinkAt with
  | some downlink => decide (downlink ≤ now - seconds 5)
  | none => true

/-- A command the broker already took waits for a newer Ready. -/
def newWindow (c : Command J) (d : Device J) : Bool :=
  match c.brokerAckedAt, c.lastReadyAt, d.lastReadyAt with
  | none, _, _ => true
  | some _, none, _ => true
  | some _, some last, some ready => decide (last < ready)
  | some _, some _, none => false

def eligible (now : Int) (s : Store J) (id : CommandId) (c : Command J) : Bool :=
  let d := s.devices c.device
  c.activePublishAttempt.isNone && c.pending && !d.revoked && decide (d.presenceStatus = some .awake) &&
    supported d c.kind c.payload && inReadyWindow now d && paced now d && newWindow c d &&
    (blockers supported s id c.device).isEmpty

def baseTopic : CommandKind → String
  | .projectSettings => "azman1/feeds/project-settings-slash-configuration"
  | .cfg => "cfg/desired"
  | .danger => "cmd/danger"
  | .test => "requesttesta"

/-- What the binding tables answer during one tick; `none` is an invalid command topic. -/
structure Routes where
  bindings : DeviceId → CommandKind → Option (List String)
  legacyDeviceCount : Nat

/-- The loop over the selected rows: the first command with one usable binding. -/
def firstRoutable (routes : Routes) :
    List (CommandId × Command J) → Option (Option (CommandId × Command J × String))
  | [] => some none
  | (id, c) :: rest =>
    match routes.bindings c.device c.kind with
    | none => none
    | some [topic] =>
      if topic = baseTopic c.kind ∧ routes.legacyDeviceCount ≠ 1 then firstRoutable routes rest
      else some (some (id, c, topic))
    | some _ => firstRoutable routes rest

/-- What the tick hands to the publisher after its commit. -/
structure Prepared where
  attempt : AttemptId
  command : CommandId
  topic : String
  wire : String

def reserve (now : Int) (routes : Routes) (locked : CommandId → Bool) (s : Store J) :
    Option (Store J × Option Prepared) :=
  let rows := (s.commands.select (fun id c => eligible supported now s id c && !locked id)).take 32
  match firstRoutable routes rows with
  | none => none
  | some none => some (s, none)
  | some (some (id, c, topic)) =>
    match (s.devices c.device).lastReadyAt with
    | none => none
    | some ready =>
      let attempt := s.attempts.next
      let reserved := { s with
        attempts := s.attempts.insert { command := id, readyAt := ready, topic := topic }
        commands := s.commands.modify id (fun c =>
          { c with activePublishAttempt := some attempt, attempts := c.attempts + 1 }) }
      some (reserved.updateDevice c.device (fun d => { d with lastDownlinkAt := some now }),
        some ⟨attempt, id, topic, c.wirePayload⟩)

end Scheduling

section Messages

def invalidateReady (s : Store J) : Store J :=
  { s with
    devices := fun device =>
      let d := s.devices device
      if d.presenceStatus = some .awake then { d with presenceStatus := none, lastReadyAt := none }
      else d }

/-- `Ready` and `sleep` of an attributed device. -/
def devicePresence (device : DeviceId) (now : Int) (status : Presence) (s : Store J) : Store J :=
  s.updateDevice device (fun d =>
    if d.revoked then d
    else { d with
      lastSeen := greatest d.lastSeen now
      presenceStatus := some status
      lastReadyAt := if status = .awake then some now else d.lastReadyAt })

/-- What a firmware acknowledgement says: the applied toggles, the fixed danger text, or a line of
test results. -/
inductive AckMessage (J : Type)
  | applied (config : J)
  | dangerAcknowledge
  | testResult (line : J)

/-- An acknowledgement of an attributed device, with its receipt time. -/
structure FirmwareAck (J : Type) where
  device : DeviceId
  message : AckMessage J
  now : Int

def FirmwareAck.kind (ack : FirmwareAck J) : CommandKind :=
  match ack.message with
  | .applied _ => .cfg
  | .dangerAcknowledge => .danger
  | .testResult _ => .test

def FirmwareAck.payload (ack : FirmwareAck J) : J :=
  match ack.message with
  | .applied config => config
  | .dangerAcknowledge => Jsonb.text "Danger Acknowledge"
  | .testResult line => line

variable [DecidableEq J]

/-- The join with the active attempt, which must be inflight. -/
def inflightAttempt (s : Store J) (c : Command J) : Option (AttemptId × Attempt J) :=
  match c.activePublishAttempt with
  | none => none
  | some id =>
    match s.attempts.get id with
    | none => none
    | some a => if a.state = .inflight then some (id, a) else none

/-- The command or its inflight attempt went out in the Ready window of the device. -/
def sentInWindow (ack : FirmwareAck J) (s : Store J) (c : Command J) : Bool :=
  let d := s.devices c.device
  match inflightAttempt s c with
  | some (_, a) =>
    (match a.dispatchedAt with
      | some dispatched => decide (dispatched ≤ ack.now)
      | none => false) && decide (some a.readyAt = d.lastReadyAt)
  | none =>
    (decide (c.state = .sent) || decide (c.state = .acked)) && c.brokerAckedAt.isSome &&
      (match c.sentAt with
        | some sent => decide (sent ≤ ack.now)
        | none => false) &&
      c.lastReadyAt.isSome && decide (c.lastReadyAt = d.lastReadyAt)

def matchesAck (ack : FirmwareAck J) (s : Store J) (c : Command J) : Bool :=
  let d := s.devices c.device
  decide (c.device = ack.device) && decide (c.kind = ack.kind) && c.firmwareAckExpected &&
    (decide (c.state = .queued) || decide (c.state = .sent) ||
      (decide (ack.kind = .test) && decide (c.state = .acked))) &&
    decide (d.presenceStatus = some .awake) &&
    (match d.lastReadyAt with
      | some ready => decide (ack.now - seconds 480 < ready)
      | none => false) &&
    sentInWindow ack s c && (decide (ack.kind ≠ .cfg) || decide (c.payload = ack.payload))

/-- `ORDER BY c.id DESC LIMIT 1`. -/
def candidate (ack : FirmwareAck J) (s : Store J) : Option (CommandId × Command J) :=
  (s.commands.select (fun _ c => matchesAck ack s c)).getLast?

def accumulate (ack : FirmwareAck J) (old : Option J) : Option J :=
  if ack.kind = .test then some (Jsonb.pushResult old ack.payload) else some ack.payload

/-- The message counts as a sign of life, and buffers or finalizes the matched command. -/
def ancillary (ack : FirmwareAck J) (s : Store J) : Store J :=
  let seen := s.updateDevice ack.device (fun d =>
    if d.revoked then d else { d with lastSeen := greatest d.lastSeen ack.now })
  match candidate ack seen with
  | none => seen
  | some (id, c) =>
    match inflightAttempt seen c with
    | some (attempt, _) =>
      { seen with
        attempts := seen.attempts.modify attempt (fun a =>
          { a with
            firmwareAckedAt := some (a.firmwareAckedAt.getD ack.now)
            firmwareAckPayload := accumulate ack a.firmwareAckPayload }) }
    | none =>
      let finalized := { seen with
        commands := seen.commands.modify id (fun c =>
          { c with
            state := .acked
            ackedAt := some (c.ackedAt.getD ack.now)
            ackPayload := accumulate ack c.ackPayload }) }
      if ack.kind = .cfg then
        finalized.updateDevice ack.device (fun d =>
          { d with
            appliedConfig := some (Jsonb.merge (d.appliedConfig.getD Jsonb.emptyObject) ack.payload)
            lastSeen := greatest d.lastSeen ack.now })
      else finalized

end Messages

section FlatJson

/-- The JSON values these commands carry in practice: texts, one-level objects and result lines. -/
inductive FlatJson
  | string (value : String)
  | object (fields : List (String × String))
  | results (lines : List String)
  deriving DecidableEq

def FlatJson.field (j : FlatJson) (key : String) : Option String :=
  match j with
  | .object fields => fields.lookup key
  | _ => none

def FlatJson.fields : FlatJson → List (String × String)
  | .object fields => fields
  | _ => []

/-- Whole metres are enough for limits here. -/
instance : Jsonb FlatJson where
  Limit := Nat
  text := .string
  emptyObject := .object []
  merge a b := .object (a.fields.filter (fun f => (b.fields.lookup f.1).isNone) ++ b.fields)
  pushResult old item :=
    match old, item with
    | some (.results lines), .string line => .results (lines ++ [line])
    | _, .string line => .results [line]
    | _, other => other
  containsReboot j := decide (j.field "Reboot" = some "1")
  textAt j key := j.field key
  limitAt j key := (j.field key).bind String.toNat?

end FlatJson

end NixHomeServer.Groundwater.Dispatch
