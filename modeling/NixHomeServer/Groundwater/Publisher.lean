import NixHomeServer.Library.Runs
import NixHomeServer.Library.Transaction
import NixHomeServer.Groundwater.Commands

/-! The volatile side of command delivery: the tracker of the one outstanding
publish, its reconciliation with the durable rows, and the dispatch tick. Every
SQL call may commit, fail, or commit while its response is lost. The journal
records what the tracker observed; no function of the program reads it. -/
namespace NixHomeServer.Groundwater.Dispatch

open NixHomeServer.Library

structure Pending where
  attemptId : AttemptId
  packetId : Option Nat := none
  dispatchedAt : Option Int := none
  outgoingSaved : Bool := false
  brokerAckedAt : Option Int := none
  lost : Bool

structure Publisher where
  connected : Bool := false
  pending : Option Pending := none

variable {J : Type} [Jsonb J]

inductive Event (J : Type) [Jsonb J]
  | reserved (attempt : AttemptId) (command : CommandId) (now : Int) (read : Store J)
  | enqueued (attempt : AttemptId)
  | outgoing (attempt : AttemptId) (packet : Nat)
  | puback (attempt : AttemptId) (packet : Nat)
  | firmwareAck (command : CommandId)
  | ready (device : DeviceId) (instant : Int)
  | sleep (device : DeviceId)
  | connAck
  | disconnected

/-- The journal is kept newest first. -/
structure World (J : Type) [Jsonb J] where
  store : Store J
  publisher : Publisher
  journal : List (Event J)

def World.note (w : World J) (e : Event J) : World J := { w with journal := e :: w.journal }

/-- Which SQL calls of one reconciliation fail, and which attempt rows are locked elsewhere. -/
structure Faults where
  recover : Outcome
  save : Outcome
  settle : Outcome
  locked : AttemptId → Bool

def andThen (r : World J × Bool) (next : World J → World J × Bool) : World J × Bool :=
  if r.2 then next r.1 else r

def recoverStep (f : Faults) (w : World J) : World J × Bool :=
  let tracked := w.publisher.pending.map Pending.attemptId
  let r := commit f.recover w.store (some (recoverUntracked tracked f.locked w.store, ()))
  ({ w with store := r.1 }, r.2.isSome)

/-- `record_outgoing`, unless it is already saved or nothing has gone out. -/
def saveStep (f : Faults) (w : World J) : World J × Bool :=
  match w.publisher.pending with
  | none => (w, true)
  | some p =>
    if p.outgoingSaved then (w, true)
    else
      match p.packetId, p.dispatchedAt with
      | some packet, some dispatched =>
        let r := commit f.save w.store
          ((recordOutgoing p.attemptId packet dispatched w.store).map (fun s => (s, ())))
        match r.2 with
        | some () =>
          ({ w with
            store := r.1
            publisher := { w.publisher with pending := some { p with outgoingSaved := true } } }, true)
        | none => ({ w with store := r.1 }, false)
      | _, _ => (w, true)

def settleStep (f : Faults) (w : World J) : World J × Bool :=
  match w.publisher.pending with
  | none => (w, true)
  | some p =>
    match p.brokerAckedAt with
    | some ackedAt =>
      let r := commit f.settle w.store (accept p.attemptId ackedAt w.store)
      match r.2 with
      | some _ => ({ w with store := r.1, publisher := { w.publisher with pending := none } }, true)
      | none => ({ w with store := r.1 }, false)
    | none =>
      if p.lost then
        let r := commit f.settle w.store
          (some (abandon p.attemptId "transport lost or enqueue rejected" w.store, ()))
        match r.2 with
        | some _ => ({ w with store := r.1, publisher := { w.publisher with pending := none } }, true)
        | none => ({ w with store := r.1 }, false)
      else (w, true)

def reconcile (f : Faults) (w : World J) : World J × Bool :=
  andThen (andThen (recoverStep f w) (saveStep f)) (settleStep f)

def Publisher.busy (p : Publisher) : Bool := p.pending.isSome

def Publisher.disconnected (p : Publisher) : Publisher where
  connected := false
  pending := p.pending.map (fun pending => { pending with lost := true })

def Publisher.enqueue (p : Publisher) (attempt : AttemptId) (rejected : Bool) : Publisher :=
  { p with pending := some { attemptId := attempt, lost := rejected } }

def outgoing (packet : Nat) (now : Int) (f : Faults) (w : World J) : World J × Bool :=
  match w.publisher.pending with
  | none => (w, false)
  | some p =>
    if packet = 0 ∨ (p.packetId.isSome ∧ p.packetId ≠ some packet) then (w, false)
    else
      let observed := { w with
        publisher := { w.publisher with
          pending := some { p with
            packetId := some packet, dispatchedAt := some (p.dispatchedAt.getD now) } } }
      reconcile f (observed.note (.outgoing p.attemptId packet))

def puback (packet : Nat) (now : Int) (f : Faults) (w : World J) : World J × Bool :=
  match w.publisher.pending with
  | none => (w, true)
  | some p =>
    if p.packetId = some packet then
      let observed := { w with
        publisher := { w.publisher with
          pending := some { p with brokerAckedAt := some (p.brokerAckedAt.getD now) } } }
      reconcile f (observed.note (.puback p.attemptId packet))
    else (w, true)

/-- Everything one tick meets: the clock, the bindings, the locks and the failures. -/
structure TickInput where
  now : Int
  routes : Routes
  locked : CommandId → Bool
  first : Faults
  reservation : Outcome
  rejected : Bool
  second : Faults

section Tick

variable (supported : Device J → CommandKind → J → Bool)

/-- The reservation transaction of a tick, and the handover that follows its commit. -/
def reservation (t : TickInput) (w : World J) : World J × Bool :=
  match reserve supported t.now t.routes t.locked w.store with
  | none => (w, false)
  | some (_, none) => (w, decide (t.reservation = .done))
  | some (reserved, some prepared) =>
    match t.reservation with
    | .refused => (w, false)
    | .lost =>
      ({ w with store := reserved }.note (.reserved prepared.attempt prepared.command t.now w.store),
        false)
    | .done =>
      let handed := { w with
        store := reserved
        publisher := w.publisher.enqueue prepared.attempt t.rejected }
      reconcile t.second
        ((handed.note (.reserved prepared.attempt prepared.command t.now w.store)).note
          (.enqueued prepared.attempt))

def tick (t : TickInput) (w : World J) : World J × Bool :=
  andThen (reconcile t.first w) (fun w =>
    if !w.publisher.connected || w.publisher.busy then (w, true)
    else reservation supported t w)

end Tick

section Steps

variable [DecidableEq J]

inductive Action (J : Type)
  | queue (device : DeviceId) (kind : CommandKind) (payload : J) (wire requestedBy : String)
  | cancel (device : DeviceId) (id : CommandId) (now : Int) (username : String)
  | tick (t : TickInput)
  | outgoing (packet : Nat) (now : Int) (f : Faults)
  | puback (packet : Nat) (now : Int) (f : Faults)
  | disconnected
  | connected (value : Bool)
  | reconcile (f : Faults)
  | ancillary (ack : FirmwareAck J)
  | presence (device : DeviceId) (now : Int) (status : Presence)
  | invalidate
  | crash
  | recover

/-- A process that stops forgets its tracker and leaves the broker. -/
def World.crash (w : World J) : World J :=
  { w with publisher := {} }.note .disconnected

def presenceEvent (device : DeviceId) (now : Int) : Presence → Event J
  | .awake => .ready device now
  | .asleep => .sleep device

def World.presence (device : DeviceId) (now : Int) (status : Presence) (w : World J) : World J :=
  { w with store := devicePresence device now status w.store }.note (presenceEvent device now status)

/-- The candidate of an acknowledgement is what the journal calls acknowledged. -/
def World.acknowledge (ack : FirmwareAck J) (w : World J) : World J :=
  let applied := { w with store := ancillary ack w.store }
  match candidate ack w.store with
  | none => applied
  | some (id, _) => applied.note (.firmwareAck id)

def step (supported : Device J → CommandKind → J → Bool) (w : World J) : Action J → World J
  | .queue device kind payload wire requestedBy =>
    { w with store := queue device kind payload wire requestedBy w.store }
  | .cancel device id now username => { w with store := cancel device id now username w.store }
  | .tick t => (tick supported t w).1
  | .outgoing packet now f => (outgoing packet now f w).1
  | .puback packet now f => (puback packet now f w).1
  | .disconnected => { w with publisher := w.publisher.disconnected }.note .disconnected
  | .connected value => { w with publisher := { w.publisher with connected := value } }
  | .reconcile f => (reconcile f w).1
  | .ancillary ack => w.acknowledge ack
  | .presence device now status => w.presence device now status
  | .invalidate => { w with store := invalidateReady w.store }
  | .crash => w.crash
  | .recover => { w with store := recover w.store }

def World.start (devices : DeviceId → Device J) : World J where
  store := { devices := devices, commands := .empty, attempts := .empty, deliveries := .empty }
  publisher := {}
  journal := []

end Steps

end NixHomeServer.Groundwater.Dispatch
