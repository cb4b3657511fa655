import NixHomeServer.Groundwater.Publisher

/-! The control loop of the ingest task: one event at a time, with the two flags
of the loop beside the tracker. A connection that failed or stalled is discarded,
and no command window opens before cached readiness is invalidated. -/
namespace NixHomeServer.Groundwater.Dispatch

open NixHomeServer.Library

variable {J : Type} [Jsonb J]

structure Ingest (J : Type) [Jsonb J] where
  world : World J
  connected : Bool := false
  resetReady : Bool := true

/-- What the loop meets next. A message reaches it attributed to its device; the other
connections of the pool queue and cancel between two of its steps. -/
inductive LoopEvent (J : Type)
  | stalled
  | dispatch (reconnected : Bool) (invalidation : Outcome) (t : TickInput)
  | connAck (invalidation : Outcome)
  | outgoing (packet : Nat) (now : Int) (f : Faults)
  | puback (packet : Nat) (now : Int) (f : Faults)
  | presence (retained : Bool) (device : DeviceId) (now : Int) (status : Presence)
  | acknowledgement (retained : Bool) (ack : FirmwareAck J)
  | failed (f : Faults) (sameMessage : Bool)
  | queue (device : DeviceId) (kind : CommandKind) (payload : J) (wire requestedBy : String)
  | cancel (device : DeviceId) (id : CommandId) (now : Int) (username : String)
  | restart

def Ingest.on (x : Ingest J) (w : World J) : Ingest J := { x with world := w }

/-- The tracker loses its connection and the journal says so. -/
def World.discard (w : World J) : World J :=
  { w with publisher := w.publisher.disconnected }.note .disconnected

def World.invalidate (o : Outcome) (w : World J) : World J × Bool :=
  let r := commit o w.store (some (invalidateReady w.store, ()))
  ({ w with store := r.1 }, r.2.isSome)

def World.setConnected (value : Bool) (w : World J) : World J :=
  { w with publisher := { w.publisher with connected := value } }

def Ingest.stalled (x : Ingest J) : Ingest J where
  world := x.world.discard
  connected := false
  resetReady := true

section Dispatching

variable (supported : Device J → CommandKind → J → Bool)

/-- The dispatch branch: reconnect, invalidate when it is due, then tick. -/
def Ingest.dispatch (reconnected : Bool) (invalidation : Outcome) (t : TickInput) (x : Ingest J) :
    Ingest J :=
  if !reconnected then x
  else if x.resetReady then
    let r := x.world.invalidate invalidation
    if r.2 then
      { x with
        world := (tick supported t (r.1.setConnected x.connected)).1
        resetReady := false }
    else x.on r.1
  else x.on (tick supported t x.world).1

end Dispatching

def Ingest.connAck (invalidation : Outcome) (x : Ingest J) : Ingest J :=
  let r := (x.world.note .connAck).invalidate invalidation
  { world := r.1.setConnected r.2, connected := true, resetReady := !r.2 }

/-- The error branch; an error that repeats the last message while disconnected is not logged. -/
def Ingest.failed (f : Faults) (sameMessage : Bool) (x : Ingest J) : Ingest J where
  world := (reconcile f x.world.discard).1
  connected := if x.connected || !sameMessage then false else x.connected
  resetReady := true

/-- A new process recovers every unsettled attempt before its loop starts. -/
def Ingest.restart (x : Ingest J) : Ingest J where
  world := { x.world.crash with store := recover x.world.store }

variable [DecidableEq J]

def loopStep (supported : Device J → CommandKind → J → Bool) (x : Ingest J) : LoopEvent J → Ingest J
  | .stalled => x.stalled
  | .dispatch reconnected invalidation t => x.dispatch supported reconnected invalidation t
  | .connAck invalidation => x.connAck invalidation
  | .outgoing packet now f => x.on (outgoing packet now f x.world).1
  | .puback packet now f => x.on (puback packet now f x.world).1
  | .presence retained device now status =>
    if retained then x else x.on (x.world.presence device now status)
  | .acknowledgement retained ack => if retained then x else x.on (x.world.acknowledge ack)
  | .failed f sameMessage => x.failed f sameMessage
  | .queue device kind payload wire requestedBy =>
    x.on { x.world with store := queue device kind payload wire requestedBy x.world.store }
  | .cancel device id now username =>
    x.on { x.world with store := cancel device id now username x.world.store }
  | .restart => x.restart

omit [DecidableEq J] in
/-- The loop of a process over whatever rows an earlier one left. -/
def Ingest.start (rows : Store J) : Ingest J where
  world := { store := rows, publisher := {}, journal := [] }

end NixHomeServer.Groundwater.Dispatch
