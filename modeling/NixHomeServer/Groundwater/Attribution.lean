import Mathlib.Algebra.Group.Int.Defs
import NixHomeServer.Groundwater.Adapter

/-! Which deliveries are attributed to a device, and to which one. -/
namespace NixHomeServer.Groundwater.Adapter

open NixHomeServer.Library NixHomeServer.Groundwater.Clock

variable {F : Type} [Real64 F] (platform : Platform F)

/-- A delivery with the binding, the enrollment and the reading that speak for it. -/
structure Eligible (delivery : Delivery) (registry : EnrollmentRegistry) (topics : TopicMap) (text : Text)
    (binding : Binding) (enrollment : Enrollment) (reading : WireReading F) : Prop where
  topicBound : (utf8 delivery.topic).length ≤ maxTopicBytes
  payloadBound : delivery.payload.length ≤ maxPayloadBytes
  decoded : platform.fromUtf8 delivery.payload = some text
  nulFree : '\x00' ∉ text
  kind : classify delivery.topic topics = .reading
  bound : binding ∈ registry.bindings
  topic : binding.topic = delivery.topic
  single : registry.bindingsOf delivery.topic = 1
  unshared : ¬(registry.sharedTopicsAmbiguous ∧ delivery.topic ∈ TopicMap.firmwareDefaults.subscribeTopics)
  named : ∀ parts ∈ deviceChannel delivery.topic, parts.1 = binding.deviceId
  enrolled : registry.enrollment binding.deviceId = some enrollment
  live : enrollment.revoked = false
  permitted : enrollment.profile = binding.profile
  parsed : parseWireReading platform.fromStr text = .ok reading
  level : ∃ gwl, reading.gwl.number = some gwl ∧ Real64.le (Real64.abs gwl) (Real64.literal 1000 0 : F) = true
  identity : (∃ claim, reading.claimedDeviceId = some claim ∧ isValidDeviceId claim = true ∧
      eqIgnoreAsciiCase claim enrollment.deviceId = true) ∨
    reading.claimedDeviceId = none ∧ binding.profile.carriesDeviceId = false

/-- Such a delivery without a NUL in the keys and strings of its JSON. -/
structure Attributable (delivery : Delivery) (registry : EnrollmentRegistry) (topics : TopicMap) (text : Text)
    (binding : Binding) (enrollment : Enrollment) (reading : WireReading F) : Prop
    extends Eligible platform delivery registry topics text binding enrollment reading where
  clean : ∀ json, platform.fromStr (trim text) = some json → jsonHasNul json = false

variable {platform}

/-- A topic with a single binding that no rule sets aside. -/
theorem bindingForTopic_eq_some {registry : EnrollmentRegistry} {topic : Text} {binding : Binding} :
    registry.bindingForTopic topic = some binding ↔
      ¬(registry.sharedTopicsAmbiguous ∧ topic ∈ TopicMap.firmwareDefaults.subscribeTopics) ∧
        registry.bindings.filter (fun other => other.topic == topic) = [binding] ∧
        ∀ parts ∈ deviceChannel topic, parts.1 = binding.deviceId := by
  unfold EnrollmentRegistry.bindingForTopic
  split
  · rename_i shared
    exact ⟨nofun, fun eligible => absurd shared eligible.1⟩
  · rename_i unshared
    split
    · rename_i first only
      rw [only]
      simp only [unshared, not_false_eq_true, true_and, List.cons.injEq, and_true]
      cases channel : deviceChannel topic with
      | none =>
        simp only [Option.any_none, Bool.false_eq_true, if_false, Option.some.injEq]
        exact ⟨fun same => ⟨same, fun _ => nofun⟩, And.left⟩
      | some parts =>
        simp only [Option.any_some, bne_iff_ne, Option.mem_def, Option.some.injEq, forall_eq']
        split
        · rename_i other
          exact ⟨nofun, fun ⟨same, named⟩ => absurd (same ▸ named) other⟩
        · rename_i named
          rw [Option.some.injEq]
          exact ⟨fun same => ⟨same, same ▸ not_not.mp named⟩, And.left⟩
    · rename_i several
      exact ⟨nofun, fun ⟨_, only, _⟩ => absurd only (several binding)⟩

theorem filter_eq_singleton {α : Type} {p : α → Bool} {xs : List α} {a : α} (member : a ∈ xs) (holds : p a = true)
    (once : xs.countP p = 1) : xs.filter p = [a] := by
  rw [List.countP_eq_length_filter] at once
  obtain ⟨b, only⟩ := List.length_eq_one_iff.mp once
  have there := List.mem_filter.mpr ⟨member, holds⟩
  rw [only, List.mem_singleton] at there
  rw [only, there]

theorem Eligible.bindingForTopic {delivery : Delivery} {registry : EnrollmentRegistry} {topics : TopicMap} {text : Text}
    {binding : Binding} {enrollment : Enrollment} {reading : WireReading F}
    (eligible : Eligible platform delivery registry topics text binding enrollment reading) :
    registry.bindingForTopic delivery.topic = some binding :=
  bindingForTopic_eq_some.mpr ⟨eligible.unshared,
    filter_eq_singleton eligible.bound (beq_iff_eq.mpr eligible.topic) eligible.single, eligible.named⟩

/-- A reading that is parsed has a level within bounds. -/
theorem level_of_parsed {fromStr : Text → Option Json} {text : Text} {reading : WireReading F}
    (parsed : parseWireReading fromStr text = .ok reading) :
    ∃ gwl, reading.gwl.number = some gwl ∧ Real64.le (Real64.abs gwl) (Real64.literal 1000 0 : F) = true := by
  unfold parseWireReading at parsed
  split at parsed
  · cases parsed
  · dsimp only at parsed
    split at parsed
    · cases parsed
    · split at parsed
      · cases parsed
      · rename_i gwl number
        split at parsed
        · rename_i bounded
          cases parsed
          exact ⟨gwl, Option.filter_eq_some_iff.mpr ⟨rfl, (Option.filter_eq_some_iff.mp number).2⟩, bounded⟩
        · cases parsed
  · cases parsed

/-- The record of a delivery that is attributed, and what is observed. -/
def attributed (platform : Platform F) (delivery : Delivery) (topics : TopicMap) (text : Text) (binding : Binding)
    (enrollment : Enrollment) (reading : WireReading F) (time : InterpretedTime) (gwl : F) : Evaluation F :=
  let digest := platform.sha256Hex delivery.payload
  .candidate
    { receivedAt := delivery.receivedAt
      topic := delivery.topic
      qos := delivery.qos
      kind := classify delivery.topic topics
      payloadText := text
      payloadSize := delivery.payload.length
      payloadDigest := digest
      payloadJson := some reading.payload
      profile := some binding.profile
      bindingKey := some binding.key
      deviceId := some enrollment.deviceId
      claimedDeviceId := claimedIdentity (platform.fromStr (trim text))
      state := .accepted
      timeQuality := some time.quality }
    (observe delivery binding enrollment reading time gwl digest)

/-- A delivery is quarantined, or it is attributable and only its clock is left to interpret. -/
inductive Judged (platform : Platform F) (delivery : Delivery) (registry : EnrollmentRegistry) (topics : TopicMap) :
    Checked Empty (Evaluation F) → Prop
  | quarantined (record : DeliveryRecord) (reason : QuarantineReason) (detail : String)
      (nobody : record.deviceId = none)
      (refused : ∀ text binding enrollment reading,
        ¬Attributable platform delivery registry topics text binding enrollment reading) :
      Judged platform delivery registry topics (.returns (quarantine record reason detail))
  | attributable (text : Text) (binding : Binding) (enrollment : Enrollment) (reading : WireReading F) (gwl : F)
      (speaks : Attributable platform delivery registry topics text binding enrollment reading)
      (level : reading.gwl.number = some gwl) :
      Judged platform delivery registry topics
        (interpret platform.chrono platform.debug reading.timeText enrollment.clock delivery.receivedAt >>= fun time =>
          .returns (attributed platform delivery topics text binding enrollment reading time gwl))

omit [Real64 F] in
theorem checkIdentity_eq_none {binding : Binding} {enrollment : Enrollment} {claim : Option Text} :
    checkIdentity platform binding enrollment claim = none ↔
      (∃ c, claim = some c ∧ isValidDeviceId c = true ∧ eqIgnoreAsciiCase c enrollment.deviceId = true) ∨
        claim = none ∧ binding.profile.carriesDeviceId = false := by
  unfold checkIdentity
  cases claim with
  | none =>
    dsimp only
    split <;> simp_all
  | some c =>
    dsimp only
    split
    · simp_all
    · split <;> simp_all

theorem checkEnrollment_eq_none {binding : Binding} {enrollment : Enrollment} :
    checkEnrollment binding enrollment = none ↔
      enrollment.revoked = false ∧ enrollment.profile = binding.profile := by
  unfold checkEnrollment
  split
  · simp_all
  · split <;> simp_all

theorem evaluate_cases (delivery : Delivery) (registry : EnrollmentRegistry) (topics : TopicMap) :
    Judged platform delivery registry topics (evaluate platform delivery registry topics) := by
  unfold evaluate
  dsimp only
  split
  · rename_i long
    exact .quarantined _ _ _ rfl fun _ _ _ _ speaks => absurd speaks.topicBound (Nat.not_le.mpr long)
  rename_i topicBound
  split
  · rename_i large
    exact .quarantined _ _ _ rfl fun _ _ _ _ speaks => absurd speaks.payloadBound (Nat.not_le.mpr large)
  rename_i payloadBound
  split
  · rename_i undecoded
    exact .quarantined _ _ _ rfl fun _ _ _ _ speaks => absurd (undecoded.symm.trans speaks.decoded) nofun
  rename_i text decoded
  have same : ∀ {other}, platform.fromUtf8 delivery.payload = some other → other = text := fun found =>
    Option.some.inj (found.symm.trans decoded)
  split
  · rename_i nul
    refine .quarantined _ _ _ rfl fun other _ _ _ speaks => ?_
    obtain rfl := same speaks.decoded
    rcases Bool.or_eq_true_iff.mp nul with plain | escaped
    · exact speaks.nulFree (List.contains_iff_mem.mp plain)
    · obtain ⟨json, found, dirty⟩ := (Option.any_eq_true _ _).mp escaped
      exact absurd (dirty.symm.trans (speaks.clean json found)) nofun
  rename_i nulFree
  rw [Bool.or_eq_true, not_or] at nulFree
  split
  case h_2 other =>
    exact .quarantined _ _ _ rfl fun _ _ _ _ speaks => absurd (other.symm.trans speaks.kind) nofun
  case h_3 unread _ =>
    exact .quarantined _ _ _ rfl fun _ _ _ _ speaks => absurd speaks.kind unread
  rename_i kind
  split
  · rename_i unbound
    exact .quarantined _ _ _ rfl fun _ _ _ _ speaks => absurd (unbound.symm.trans speaks.bindingForTopic) nofun
  rename_i binding bound
  have only : ∀ {other}, registry.bindingForTopic delivery.topic = some other → other = binding := fun found =>
    Option.some.inj (found.symm.trans bound)
  split
  · rename_i unenrolled
    refine .quarantined _ _ _ rfl fun _ other _ _ speaks => ?_
    obtain rfl := only speaks.bindingForTopic
    exact absurd (unenrolled.symm.trans speaks.enrolled) nofun
  rename_i enrollment enrolled
  split
  · rename_i reason detail refused
    refine .quarantined _ _ _ rfl fun _ other account _ speaks => ?_
    obtain rfl := only speaks.bindingForTopic
    obtain rfl := Option.some.inj (speaks.enrolled.symm.trans enrolled)
    exact absurd (refused.symm.trans (checkEnrollment_eq_none.mpr ⟨speaks.live, speaks.permitted⟩)) nofun
  rename_i permitted
  obtain ⟨live, permitted⟩ := checkEnrollment_eq_none.mp permitted
  split
  · rename_i error unread
    refine .quarantined _ _ _ rfl fun other _ _ _ speaks => ?_
    obtain rfl := same speaks.decoded
    exact absurd (unread.symm.trans speaks.parsed) nofun
  rename_i reading parsed
  split
  · rename_i reason detail refused
    refine .quarantined _ _ _ rfl fun other other' account read speaks => ?_
    obtain rfl := same speaks.decoded
    obtain rfl := only speaks.bindingForTopic
    obtain rfl := Option.some.inj (speaks.enrolled.symm.trans enrolled)
    obtain rfl := Except.ok.inj (speaks.parsed.symm.trans parsed)
    exact absurd (refused.symm.trans (checkIdentity_eq_none.mpr speaks.identity)) nofun
  rename_i identified
  obtain ⟨unshared, filtered, named⟩ := bindingForTopic_eq_some.mp bound
  have member : binding ∈ registry.bindings.filter (fun other => other.topic == delivery.topic) :=
    filtered ▸ List.mem_singleton_self binding
  obtain ⟨there, topic⟩ := List.mem_filter.mp member
  obtain ⟨gwl, number, bounded⟩ := level_of_parsed parsed
  have speaks : Attributable platform delivery registry topics text binding enrollment reading :=
    { topicBound := Nat.not_lt.mp topicBound
      payloadBound := Nat.not_lt.mp payloadBound
      decoded := decoded
      nulFree := fun inside => nulFree.1 (List.contains_iff_mem.mpr inside)
      kind := kind
      bound := there
      topic := beq_iff_eq.mp topic
      single := by
        rw [EnrollmentRegistry.bindingsOf, List.countP_eq_length_filter, filtered]
        rfl
      unshared := unshared
      named := named
      enrolled := enrolled
      live := live
      permitted := permitted
      parsed := parsed
      level := ⟨gwl, number, bounded⟩
      identity := checkIdentity_eq_none.mp identified
      clean := fun json found => by
        have dirty := nulFree.2
        rw [found] at dirty
        exact Bool.eq_false_iff.mpr dirty }
  have judged := Judged.attributable text binding enrollment reading gwl speaks number
  rw [number]
  exact judged

section Insertions

inductive Insertion
  | enroll (enrollment : Enrollment)
  | bind (binding : Binding)

namespace Insertion

/-- The identifier under which an enrollment is kept. -/
def device : Insertion → Option Text
  | .enroll enrollment => some (toAsciiUppercase enrollment.deviceId)
  | .bind _ => none

def enrolled : Insertion → Option Enrollment
  | .enroll enrollment => some { enrollment with deviceId := toAsciiUppercase enrollment.deviceId }
  | .bind _ => none

def bound : Insertion → Option Binding
  | .enroll _ => none
  | .bind binding => some binding

end Insertion

namespace EnrollmentRegistry

def insert (registry : EnrollmentRegistry) : Insertion → EnrollmentRegistry
  | .enroll enrollment => registry.enroll enrollment
  | .bind binding => registry.bind binding

def insertAll (count : Option Int) (insertions : List Insertion) : EnrollmentRegistry :=
  insertions.foldl insert { sharedLegacyCount := count }

end EnrollmentRegistry

end Insertions

section Results

variable {delivery : Delivery} {registry : EnrollmentRegistry} {topics : TopicMap}

end Results

section Example

/-- Numbers of three decimals. -/
structure Milli where
  thousandths : Int

instance : Real64 Milli where
  parse text := (parseSigned (2 ^ 53) text).map fun n => ⟨n * 1000⟩
  isFinite _ := true
  le a b := a.thousandths ≤ b.thousandths
  abs a := ⟨a.thousandths.natAbs⟩
  literal mantissa places := ⟨mantissa * 1000 / 10 ^ places⟩
  roundI16 a := (a.thousandths + 500) / 1000

/-- A library that knows the first instant of its range. -/
def firstInstant : Chrono where
  Naive := Int
  parseFromStr text format :=
    if text = "-262143-01-01 00:00:00".toList ∧ format = "%Y-%m-%d %H:%M:%S".toList then
      some (-8334601228800 * 1000000000)
    else none
  instant naive := naive
  least := -8334601228800 * 1000000000
  greatest := 8210266876799 * 1000000000 + 999999999

def level : String × Json := ("GWL", .string "1")

abbrev Payload := Text × List (String × Json)

def plain : Payload := ("\x7b\"GWL\":\"1\"\x7d".toList, [level])

/-- With a NUL behind an escape. -/
def escaped : Payload := ("\x7b\"GWL\":\"1\",\"note\":\"\\u0000\"\x7d".toList, [level, ("note", .string "\x00")])

/-- At the first instant, one minute east. -/
def earliest : Payload :=
  ("\x7b\"GWL\":\"1\",\"TIME\":\"-262143-01-01T00:00:00+00:01\"\x7d".toList,
    [level, ("TIME", .string "-262143-01-01T00:00:00+00:01")])

def payloads : List Payload := [plain, escaped, earliest]

def site : Platform Milli where
  chrono := firstInstant
  fromStr text := (payloads.find? fun entry => entry.1 == text).map fun entry => .object entry.2
  fromUtf8 bytes := (payloads.find? fun entry => utf8 entry.1 == bytes).map Prod.fst
  fromUtf8Lossy _ := []
  sha256Hex _ := ""
  debug text := String.ofList text

def bore : Enrollment := { deviceId := ['A'], profile := .v20, clock := .unknown }

def boreTopic : Text := "bore/gwl-string".toList

def feed : Binding := { key := ['k'], topic := boreTopic, deviceId := ['A'], profile := .v20 }

def oneBore : EnrollmentRegistry := .insertAll none [.enroll bore, .bind feed]

def sample (payload : Payload) : Delivery where
  topic := boreTopic
  payload := utf8 payload.1
  qos := 1
  receivedAt := 1790991225 * 1000000000

def readingOf (payload : Payload) : WireReading Milli where
  payload := .object payload.2
  claimedDeviceId := none
  gwl := ⟨['1'], some ⟨1000⟩⟩
  timeText := trimmedField (.object payload.2) ["TIME", "time", "timestamp", "l_timeoffset"]
  rssi := none
  batteryV := none
  solarV := none

end Example

end NixHomeServer.Groundwater.Adapter
