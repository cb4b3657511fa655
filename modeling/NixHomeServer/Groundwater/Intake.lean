import NixHomeServer.Library.Encoding
import NixHomeServer.Library.Table
import NixHomeServer.Library.Transaction
import NixHomeServer.Groundwater.Basic

/-! Intake of one delivery: the duplicate decision against stored observations,
and the transaction that writes the delivery with its observation. The digest,
the text of a level, and what attribution, the wire parser and the clock policy
make of a payload are parameters. Instants are nanoseconds. -/
namespace NixHomeServer.Groundwater.Intake

open NixHomeServer.Library

abbrev Bytes := List UInt8

/-- A UTC instant within the range of the timestamp type. -/
structure Timestamp where
  seconds : Int
  nanos : Nat
  low : -(2 ^ 63) ≤ seconds
  high : seconds < 2 ^ 63
  subsec : nanos < 2 ^ 32

def Timestamp.nanoseconds (t : Timestamp) : Int := t.seconds * 1000000000 + t.nanos

def epoch2000 : Int := 946684800 * 1000000000

/-- What a timestamp column keeps: whole microseconds since 2000, cut towards that instant. -/
def column (instant : Int) : Int := epoch2000 + (instant - epoch2000).tdiv 1000 * 1000

def minutes (n : Int) : Int := n * 60 * 1000000000

class Level (G : Type) where
  text : G → String

/-- A received message; the protocol bounds the length of its topic. -/
structure Delivery where
  topic : String
  payload : Bytes
  qos : Int
  receivedAt : Timestamp
  short : topic.utf8ByteSize < 2 ^ 16

/-- A payload attributed to a device; the event time is absent when the clock gives none. -/
structure Reading (G : Type) where
  device : DeviceId
  recordedAt : Option Int
  gwl : G

inductive Verdict (G : Type)
  | reading (r : Reading G)
  | quarantined (reason detail : String)

structure DuplicateDecision where
  outcome : DuplicateOutcome
  reason : String
  deriving DecidableEq

inductive RecordState
  | accepted | quarantined
  deriving DecidableEq, Repr

structure DeliveryRecord where
  receivedAt : Timestamp
  topic : String
  qos : Int
  payloadDigest : String
  device : Option DeviceId := none
  state : RecordState := .quarantined
  quarantineReason : Option String := none
  quarantineDetail : Option String := none
  duplicate : Option DuplicateDecision := none

structure Observation (G : Type) where
  device : DeviceId
  recordedAt : Option Int
  receivedAt : Timestamp
  gwl : G
  payloadDigest : String

structure PriorObservation (G : Type) where
  device : DeviceId
  recordedAt : Option Int
  receivedAt : Int
  payloadDigest : String
  gwl : G

inductive Evaluation (G : Type)
  | candidate (record : DeliveryRecord) (observation : Observation G)
  | quarantined (record : DeliveryRecord) (reason detail : String)

structure IntakeResult (G : Type) where
  record : DeliveryRecord
  observation : Option (Observation G) := none
  duplicate : Option DuplicateDecision := none

structure DeliveryRow where
  record : DeliveryRecord
  ingestKey : String

structure ObservationRow (G : Type) where
  deliveryId : Nat
  device : DeviceId
  payloadDigest : String
  recordedAt : Option Int
  receivedAt : Int
  gwl : G
  duplicate : DuplicateDecision

structure Store (G : Type) where
  deliveries : Table DeliveryRow := .empty
  observations : Table (ObservationRow G) := .empty

variable {G : Type}

section Evaluating

variable (sha256 : Bytes → String)

def evaluate (d : Delivery) (verdict : Verdict G) : Evaluation G :=
  let digest := sha256 d.payload
  let record : DeliveryRecord :=
    { receivedAt := d.receivedAt, topic := d.topic, qos := d.qos, payloadDigest := digest }
  match verdict with
  | .quarantined reason detail => .quarantined record reason detail
  | .reading r =>
    .candidate { record with device := some r.device, state := .accepted }
      { device := r.device, recordedAt := r.recordedAt, receivedAt := d.receivedAt, gwl := r.gwl
        payloadDigest := digest }

/-- The bytes under the retry key of a delivery. -/
def intakeBytes (topic digest : String) (receivedAt : Timestamp) : Bytes :=
  Encoding.beBytes 8 topic.utf8ByteSize ++ topic.toUTF8.data.toList ++ digest.toUTF8.data.toList ++
    Encoding.beSigned 8 receivedAt.seconds ++ Encoding.beBytes 4 receivedAt.nanos

def intakeKey (record : DeliveryRecord) : String :=
  sha256 (intakeBytes record.topic record.payloadDigest record.receivedAt)

end Evaluating

section Duplicates

def whitespace : List Nat :=
  [9, 10, 11, 12, 13, 32, 0x85, 0xA0, 0x1680, 0x2000, 0x2001, 0x2002, 0x2003, 0x2004, 0x2005,
    0x2006, 0x2007, 0x2008, 0x2009, 0x200A, 0x2028, 0x2029, 0x202F, 0x205F, 0x3000]

def canonicalDeviceId (id : DeviceId) : DeviceId :=
  let blank := fun c : Char => whitespace.contains c.toNat
  let trimmed := ((id.toList.dropWhile blank).reverse.dropWhile blank).reverse
  String.ofList (trimmed.map Char.toUpper)

/-- The rows of one device at one event time, received within a day; none without an event time. -/
def priorObservations (device : DeviceId) (recordedAt : Option Int) (receivedAt : Timestamp)
    (s : Store G) : List (PriorObservation G) :=
  match recordedAt with
  | none => []
  | some recorded =>
    (s.observations.select (fun _ row =>
      decide (row.device = canonicalDeviceId device) && decide (row.recordedAt = some recorded) &&
        decide (column receivedAt.nanoseconds - minutes 1440 ≤ row.receivedAt))).map
      (fun (_, row) =>
        { device := row.device, recordedAt := some recorded, receivedAt := row.receivedAt
          payloadDigest := row.payloadDigest, gwl := row.gwl })

def fresh (reason : String) : DuplicateDecision := ⟨.new, reason⟩

/-- What the loop over the history has seen so far; the last row of a kind is kept. -/
structure Seen (G : Type) where
  outsideWindow : Bool := false
  identical : Option (PriorObservation G) := none
  conflicting : Option (PriorObservation G) := none

def gap (o : Observation G) (prior : PriorObservation G) : Int :=
  o.receivedAt.nanoseconds - prior.receivedAt

def see (o : Observation G) (recorded : Int) (seen : Seen G) (prior : PriorObservation G) : Seen G :=
  if prior.device ≠ o.device ∨ prior.recordedAt ≠ some recorded then seen
  else if gap o prior < 0 ∨ minutes 15 < gap o prior then { seen with outsideWindow := true }
  else if prior.payloadDigest = o.payloadDigest then { seen with identical := some prior }
  else { seen with conflicting := some prior }

variable [Level G]

def conflictReason (o : Observation G) (prior : PriorObservation G) : String :=
  "different value at the same device time (stored " ++ Level.text prior.gwl ++ ", received " ++
    Level.text o.gwl ++ "), prior receipt " ++ toString ((gap o prior).tdiv 1000000000) ++
    "s earlier, window 15 min"

def classifyDuplicate (o : Observation G) (history : List (PriorObservation G)) : DuplicateDecision :=
  match o.recordedAt with
  | none => fresh "no derived device time; a repeat cannot be told apart from a new sample"
  | some recorded =>
    let seen := history.foldl (see o recorded) {}
    match seen.conflicting with
    | some prior => ⟨.conflict, conflictReason o prior⟩
    | none =>
      if seen.identical.isSome then
        ⟨.redeliveryCandidate, "identical payload at the same device time, prior receipt 900s earlier, " ++
          "window 15 min; candidate only, not proof no new sample was taken"⟩
      else if seen.outsideWindow then
        fresh ("a prior observation shares this device time but is outside the 15 min receipt window; " ++
          "treated as a new sample")
      else fresh "no prior observation at this device time"

omit [Level G] in
def finalize (evaluation : Evaluation G) (decision : DuplicateDecision) : IntakeResult G :=
  match evaluation with
  | .quarantined record reason detail =>
    { record := { record with quarantineReason := some reason, quarantineDetail := some detail } }
  | .candidate record observation =>
    { record := { record with duplicate := some decision }
      observation := if decision.outcome = .redeliveryCandidate then none else some observation
      duplicate := some decision }

end Duplicates

section Storing

variable (sha256 : Bytes → String)

def existingIntake (key : String) (s : Store G) : Option Nat :=
  ((s.deliveries.select (fun _ row => decide (row.ingestKey = key))).head?).map Prod.fst

def Observation.row (o : Observation G) (deliveryId : Nat) (decision : DuplicateDecision) :
    ObservationRow G where
  deliveryId := deliveryId
  device := o.device
  payloadDigest := o.payloadDigest
  recordedAt := o.recordedAt
  receivedAt := column o.receivedAt.nanoseconds
  gwl := o.gwl
  duplicate := decision

def recordIntake (intake : IntakeResult G) (s : Store G) : Store G :=
  let key := intakeKey sha256 intake.record
  match existingIntake key s with
  | some _ => s
  | none =>
    let delivered := { s with deliveries := s.deliveries.insert ⟨intake.record, key⟩ }
    match intake.observation, intake.duplicate with
    | some o, some decision =>
      { delivered with observations := s.observations.insert (o.row s.deliveries.next decision) }
    | _, _ => delivered

/-- An order in which a query without one may return its rows. -/
structure RowOrder (α : Type) where
  arrange : List α → List α
  perm : ∀ rows, (arrange rows).Perm rows

/-- One pass of the retry loop over a delivery, under the registry and the database it meets. -/
structure Attempt (G : Type) where
  delivery : Delivery
  verdict : Verdict G
  order : RowOrder (PriorObservation G)
  outcome : Outcome

variable [Level G]

def judge (a : Attempt G) (s : Store G) : IntakeResult G :=
  match evaluate sha256 a.delivery a.verdict with
  | .quarantined record reason detail =>
    finalize (.quarantined record reason detail) (fresh "not evaluated (quarantined)")
  | .candidate record o =>
    let history := a.order.arrange (priorObservations o.device o.recordedAt o.receivedAt s)
    finalize (.candidate record o) (classifyDuplicate o history)

def Evaluation.record : Evaluation G → DeliveryRecord
  | .candidate record _ => record
  | .quarantined record _ _ => record

/-- The store it leaves, and whether it answers so that the loop does not retry. -/
def handlePublish (a : Attempt G) (s : Store G) : Store G × Bool :=
  let key := intakeKey sha256 (evaluate sha256 a.delivery a.verdict).record
  match existingIntake key s with
  | some _ => (s, true)
  | none =>
    let r := commit a.outcome s (some (recordIntake sha256 (judge sha256 a s) s, ()))
    (r.1, r.2.isSome)

def intakeStep (s : Store G) (a : Attempt G) : Store G := (handlePublish sha256 a s).1

end Storing

end NixHomeServer.Groundwater.Intake
