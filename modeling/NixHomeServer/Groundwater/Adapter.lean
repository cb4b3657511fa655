import NixHomeServer.Library.Json
import NixHomeServer.Library.Keyed
import NixHomeServer.Groundwater.Clock

/-! Attribution of a delivery: topics, the registry of enrollments and bindings,
the wire format of a reading, and the decision. Texts are lists of characters;
JSON, floating point and digests are parameters. -/
namespace NixHomeServer.Groundwater.Adapter

open NixHomeServer.Library NixHomeServer.Groundwater.Clock

abbrev Text := List Char

section Topics

def devicePrefix : Text := "gwl/v1/".toList

/-- The device and the channel of a topic of the versioned namespace. -/
def deviceChannel (topic : Text) : Option (Text × Text) := do
  let rest ← topic.dropPrefix? devicePrefix
  let (device, channel) ← cutAt '/' rest
  if (utf8 device).length = 24 ∧ (device.all fun c => ('0' ≤ c && c ≤ '9') || ('A' ≤ c && c ≤ 'F')) = true ∧
      channel ≠ [] then
    some (device, channel)
  else none

inductive MessageKind
  | reading | deviceStatus | gps | storage | testResult | motion | alert | configAck | other
  deriving DecidableEq, Repr

def MessageKind.asStr : MessageKind → String
  | .reading => "reading"
  | .deviceStatus => "device-status"
  | .gps => "gps"
  | .storage => "storage"
  | .testResult => "test-result"
  | .motion => "motion"
  | .alert => "alert"
  | .configAck => "config-ack"
  | .other => "other"

structure TopicMap where
  reading : List Text
  deviceStatus : List Text
  gps : List Text
  storage : List Text
  testResult : List Text
  motion : List Text
  alert : List Text
  configAck : List Text

namespace TopicMap

def firmwareDefaults : TopicMap where
  reading := ["azman1/feeds/gwl-string".toList]
  deviceStatus := ["azman1/feeds/device-status".toList]
  gps := ["azman1/feeds/gps-data".toList]
  storage := ["azman1/feeds/remaingsdstorage".toList]
  testResult := ["azman1/feeds/testresults".toList]
  motion := ["azman1/feeds/accelerometer-data".toList]
  alert := ["azman1/feeds/alerts".toList]
  configAck := ["cfg/desired/applied".toList, "cfg/danger_ack".toList]

def groups (map : TopicMap) : List (List Text × MessageKind) :=
  [(map.reading, .reading), (map.deviceStatus, .deviceStatus), (map.gps, .gps), (map.storage, .storage),
    (map.testResult, .testResult), (map.motion, .motion), (map.alert, .alert), (map.configAck, .configAck)]

def leafOf (topic : Text) : Text := ((splitAll '/' topic).getLast?).getD []

def exactKind (map : TopicMap) (topic : Text) : Option MessageKind :=
  (map.groups.find? fun group => group.1.any (· == topic)).map Prod.snd

def leafKind (map : TopicMap) (leaf : Text) : Option MessageKind :=
  if leaf = [] then none else (map.groups.find? fun group => group.1.any fun name => leafOf name == leaf).map Prod.snd

def subscribeTopics (map : TopicMap) : List Text :=
  map.groups.foldl (fun topics group => group.1.foldl
    (fun topics topic => if topics.any (· == topic) then topics else topics ++ [topic]) topics) []

end TopicMap

/-- Classification is by the name only. -/
def classify (topic : Text) (map : TopicMap) : MessageKind :=
  if "gwl/v".toList.isPrefixOf topic then
    match (deviceChannel topic).map fun parts => String.ofList parts.2 with
    | some "reading" => .reading
    | some "status" => .deviceStatus
    | some "gps" => .gps
    | some "storage" => .storage
    | some "motion" => .motion
    | some "alerts" => .alert
    | some "test/result" => .testResult
    | some "config/applied" | some "cmd/ack" => .configAck
    | _ => .other
  else
    let trimmed := topic.rdropWhile (· == '/')
    if trimmed = [] then .other
    else match map.exactKind trimmed with
      | some kind => kind
      | none => (map.leafKind (TopicMap.leafOf trimmed)).getD .other

end Topics

section Registry

inductive ProfileId
  | v21 | v20 | ml
  deriving DecidableEq, Repr

namespace ProfileId

def asStr : ProfileId → String
  | .v21 => "V21"
  | .v20 => "V20"
  | .ml => "ML"

def carriesDeviceId (profile : ProfileId) : Bool := profile == .v21

def truncatesBattery (profile : ProfileId) : Bool := profile == .ml

def truncatesSolar (_ : ProfileId) : Bool := true

def interpretationVersion : ProfileId → String
  | .v21 => "gw-adapter/1+v21"
  | .v20 => "gw-adapter/1+v20"
  | .ml => "gw-adapter/1+ml"

end ProfileId

def toAsciiUppercase (text : Text) : Text := text.map Char.toUpper

/-- A trusted ingress binding: this exact topic carries this device. -/
structure Binding where
  key : Text
  topic : Text
  deviceId : Text
  profile : ProfileId
  deriving DecidableEq, Repr

structure Enrollment where
  deviceId : Text
  profile : ProfileId
  clock : ClockPolicy
  revoked : Bool := false
  deriving DecidableEq, Repr

structure EnrollmentRegistry where
  enrollments : Keyed Enrollment.deviceId := .empty
  bindings : List Binding := []
  sharedLegacyCount : Option Int := none

namespace EnrollmentRegistry

/-- Adds or replaces an enrollment. -/
def enroll (registry : EnrollmentRegistry) (enrollment : Enrollment) : EnrollmentRegistry :=
  { registry with
    enrollments := registry.enrollments.put { enrollment with deviceId := toAsciiUppercase enrollment.deviceId } }

def bind (registry : EnrollmentRegistry) (binding : Binding) : EnrollmentRegistry :=
  { registry with bindings := registry.bindings ++ [binding] }

def enrollment (registry : EnrollmentRegistry) (deviceId : Text) : Option Enrollment :=
  registry.enrollments.get (toAsciiUppercase deviceId)

def sharedTopicsAmbiguous (registry : EnrollmentRegistry) : Bool :=
  1 < registry.sharedLegacyCount.getD (registry.enrollments.rows.countP fun e => !e.revoked : Nat)

/-- The single live binding for a topic. -/
def bindingForTopic (registry : EnrollmentRegistry) (topic : Text) : Option Binding :=
  if registry.sharedTopicsAmbiguous ∧ topic ∈ TopicMap.firmwareDefaults.subscribeTopics then none
  else match registry.bindings.filter fun binding => binding.topic == topic with
    | [first] =>
      if (deviceChannel topic).any fun parts => parts.1 != first.deviceId then none else some first
    | _ => none

def bindingsOf (registry : EnrollmentRegistry) (topic : Text) : Nat :=
  registry.bindings.countP fun binding => binding.topic == topic

end EnrollmentRegistry

end Registry

section Telemetry

/-- Floating point numbers as the payload uses them. -/
class Real64 (F : Type) where
  parse : Text → Option F
  isFinite : F → Bool
  le : F → F → Bool
  abs : F → F
  /-- The literal `mantissa / 10 ^ places`. -/
  literal : Nat → Nat → F
  /-- Rounded half away from zero and cast to 16 bits. -/
  roundI16 : F → Int

variable {F : Type} [Real64 F]

structure FieldText (F : Type) where
  text : Text
  value : Option F

def FieldText.number (field : FieldText F) : Option F := field.value.filter Real64.isFinite

structure WireReading (F : Type) where
  payload : Json
  claimedDeviceId : Option Text
  gwl : FieldText F
  timeText : Option Text
  rssi : Option (FieldText F)
  batteryV : Option (FieldText F)
  solarV : Option (FieldText F)

inductive WireError
  | notJson | notAnObject | missingLevel | levelNotNumeric | levelOutOfRange
  deriving DecidableEq, Repr

def WireError.message : WireError → String
  | .notJson => "payload is not valid JSON"
  | .notAnObject => "payload is not a JSON object"
  | .missingLevel => "payload has no GWL field"
  | .levelNotNumeric => "GWL is not a finite number"
  | .levelOutOfRange => "GWL is outside the accepted range"

def WireError.code : WireError → String
  | .notJson => "not-json"
  | .notAnObject => "not-a-json-object"
  | .missingLevel => "missing-gwl"
  | .levelNotNumeric => "gwl-not-numeric"
  | .levelOutOfRange => "gwl-out-of-range"

/-- The first present field of a set of accepted spellings. -/
def field (object : Json) (names : List String) : Option Text :=
  names.findSome? fun name => match object.get name with
    | some (.string text) => some text.toList
    | some (.number number) => some number.print.toList
    | _ => none

def numberFrom (text : Text) : Option F := (Real64.parse (trim text)).filter Real64.isFinite

def optionalField (object : Json) (names : List String) : Option (FieldText F) :=
  (field object names).map fun text => { text := text, value := numberFrom text }

def deviceIdNames : List String := ["DeviceID", "deviceId", "device_id", "s_id"]

def trimmedField (object : Json) (names : List String) : Option Text :=
  ((field object names).map trim).filter fun text => text ≠ []

variable (fromStr : Text → Option Json)

/-- Parses a telemetry payload, preserving field text. -/
def parseWireReading (payload : Text) : Except WireError (WireReading F) :=
  match fromStr (trim payload) with
  | none => .error .notJson
  | some (.object members) =>
    let value := Json.object members
    match field value ["GWL", "gwl", "gwl_string", "level"] with
    | none => .error .missingLevel
    | some gwlText => match (numberFrom gwlText : Option F) with
      | none => .error .levelNotNumeric
      | some gwlValue =>
        if Real64.le (Real64.abs gwlValue) (Real64.literal 1000 0 : F) then
          .ok
            { payload := value
              claimedDeviceId := trimmedField value deviceIdNames
              gwl := { text := gwlText, value := some gwlValue }
              timeText := trimmedField value ["TIME", "time", "timestamp", "l_timeoffset"]
              rssi := optionalField value ["RSSI", "rssi"]
              batteryV := optionalField value ["BL", "bl", "battery"]
              solarV := optionalField value ["SOL", "sol", "solar"] }
        else .error .levelOutOfRange
  | some _ => .error .notAnObject

end Telemetry

section Decision

structure Delivery where
  topic : Text
  payload : List UInt8
  qos : Int
  receivedAt : Int

inductive QuarantineReason
  | topicTooLong | payloadTooLarge | notUtf8 | nulByte | unknownTopic | ancillaryChannel | unboundSharedTopic
  | unenrolledDevice | revokedEnrollment | profileNotPermitted
  | notAReading (error : WireError)
  | missingDeviceId | invalidDeviceId | identityMismatch
  deriving DecidableEq, Repr

def QuarantineReason.code : QuarantineReason → String
  | .topicTooLong => "topic-too-long"
  | .payloadTooLarge => "payload-too-large"
  | .notUtf8 => "not-utf8"
  | .nulByte => "nul-byte"
  | .unknownTopic => "unknown-topic"
  | .ancillaryChannel => "ancillary-channel"
  | .unboundSharedTopic => "unbound-shared-topic"
  | .unenrolledDevice => "unenrolled-device"
  | .revokedEnrollment => "revoked-enrollment"
  | .profileNotPermitted => "profile-not-permitted"
  | .notAReading error => error.code
  | .missingDeviceId => "missing-device-id"
  | .invalidDeviceId => "invalid-device-id"
  | .identityMismatch => "identity-mismatch"

inductive DeliveryState
  | accepted | quarantined
  deriving DecidableEq, Repr

structure DeliveryRecord where
  receivedAt : Int
  topic : Text
  qos : Int
  kind : MessageKind := .other
  payloadText : Text := []
  payloadSize : Nat
  payloadDigest : String
  payloadJson : Option Json := none
  profile : Option ProfileId := none
  bindingKey : Option Text := none
  deviceId : Option Text := none
  claimedDeviceId : Option Text := none
  state : DeliveryState := .quarantined
  quarantineReason : Option QuarantineReason := none
  quarantineDetail : Option String := none
  timeQuality : Option TimeQuality := none

structure Observation (F : Type) where
  deviceId : Text
  recordedAt : Option Int
  receivedAt : Int
  deviceTimeText : Option Text
  timeQuality : TimeQuality
  timeReason : String
  offsetAppliedMinutes : Option Int
  zoneSource : ZoneSource
  lagSeconds : Option Int
  interpretationVersion : String
  qualityReasons : List String
  gwl : F
  gwlText : Text
  rssi : Option Int
  rssiText : Option Text
  batteryV : Option F
  batteryText : Option Text
  batteryTruncated : Bool
  solarV : Option F
  solarText : Option Text
  solarTruncated : Bool
  payload : Json
  payloadDigest : String
  profile : ProfileId
  bindingKey : Text

inductive Evaluation (F : Type)
  | candidate (record : DeliveryRecord) (observation : Observation F)
  | quarantined (record : DeliveryRecord) (reason : QuarantineReason) (detail : String)

def maxTopicBytes : Nat := 256

def maxPayloadBytes : Nat := 1024

def oversizedPreviewBytes : Nat := 256

/-- What the libraries of the adapter provide. -/
structure Platform (F : Type) where
  chrono : Chrono
  /-- JSON; keys are distinct, the last value of a key counts. -/
  fromStr : Text → Option Json
  fromUtf8 : List UInt8 → Option Text
  fromUtf8Lossy : List UInt8 → Text
  sha256Hex : List UInt8 → String
  /-- The debug form of a text. -/
  debug : Text → String

mutual

def jsonHasNul : Json → Bool
  | .string text => text.toList.contains '\x00'
  | .array values => anyHasNul values
  | .object members => memberHasNul members
  | _ => false

def anyHasNul : List Json → Bool
  | [] => false
  | value :: rest => jsonHasNul value || anyHasNul rest

def memberHasNul : List (String × Json) → Bool
  | [] => false
  | (key, value) :: rest => key.toList.contains '\x00' || jsonHasNul value || memberHasNul rest

end

def isValidDeviceId (value : Text) : Bool :=
  (utf8 value).length == 24 && value.all fun c =>
    ('0' ≤ c && c ≤ '9') || ('a' ≤ c && c ≤ 'f') || ('A' ≤ c && c ≤ 'F')

def canonicalDeviceId (value : Text) : Text := toAsciiUppercase (trim value)

def eqIgnoreAsciiCase (a b : Text) : Bool := toAsciiLowercase a == toAsciiLowercase b

/-- The identity that a payload claims, whether it is trusted or not. -/
def claimedIdentity (payload : Option Json) : Option Text := do
  let object ← payload
  deviceIdNames.findSome? fun name => match object.get name with
    | some (.string text) =>
      let trimmed := trim text.toList
      if trimmed = [] then none else some (toAsciiUppercase trimmed)
    | _ => none

variable {F : Type} [Real64 F]

def healthRssi (field : Option (FieldText F)) (reasons : List String) : Option Int × List String :=
  match field with
  | none => (none, reasons ++ ["rssi-missing"])
  | some field => match field.number with
    | none => (none, reasons ++ ["rssi-invalid"])
    | some value =>
      if Real64.le (Real64.literal 0 0) value && Real64.le value (Real64.literal 100 0) then
        (some (Real64.roundI16 value), reasons)
      else (none, reasons ++ ["rssi-out-of-range"])

def healthVoltage (field : Option (FieldText F)) (label : String) (reasons : List String) : Option F × List String :=
  match field with
  | none => (none, reasons ++ [label ++ "-missing"])
  | some field => match field.number with
    | none => (none, reasons ++ [label ++ "-invalid"])
    | some value =>
      if Real64.le (Real64.literal 0 0) value && Real64.le value (Real64.literal 10 0) then
        (some value, if Real64.le value (Real64.literal 36 1) then reasons
          else reasons ++ [label ++ "-outside-expected-range"])
      else (none, reasons ++ [label ++ "-out-of-range"])

def qualityStr : TimeQuality → String
  | .plausibleTime => "plausible"
  | .reset => "reset"
  | .future => "future"
  | .invalid => "invalid"
  | .ambiguous => "ambiguous"

omit [Real64 F] in
def quarantine (record : DeliveryRecord) (reason : QuarantineReason) (detail : String) : Evaluation F :=
  .quarantined { record with
    state := .quarantined, quarantineReason := some reason, quarantineDetail := some detail } reason detail

variable (platform : Platform F)

omit [Real64 F] in
def preview (payload : List UInt8) : Text :=
  let text := platform.fromUtf8Lossy (payload.take oversizedPreviewBytes)
  if oversizedPreviewBytes < payload.length then text ++ ['…'] else text

/-- What the identity claim of a reading is refused for. -/
def checkIdentity (binding : Binding) (enrollment : Enrollment) (claim : Option Text) :
    Option (QuarantineReason × String) :=
  match claim with
  | some claim =>
    if !isValidDeviceId claim then
      some (.invalidDeviceId, "DeviceID " ++ platform.debug claim ++ " is not a 24-character hex identifier")
    else if !eqIgnoreAsciiCase claim enrollment.deviceId then
      some (.identityMismatch, "payload claims " ++ String.ofList (toAsciiUppercase claim) ++
        " but the binding carries " ++ String.ofList enrollment.deviceId)
    else none
  | none =>
    if binding.profile.carriesDeviceId then
      some (.missingDeviceId, binding.profile.asStr ++ " payload carries no DeviceID, which this profile requires")
    else none

/-- What the enrollment of a bound device is refused for. -/
def checkEnrollment (binding : Binding) (enrollment : Enrollment) : Option (QuarantineReason × String) :=
  if enrollment.revoked then
    some (.revokedEnrollment, "enrollment for " ++ String.ofList enrollment.deviceId ++ " is revoked")
  else if enrollment.profile ≠ binding.profile then
    some (.profileNotPermitted, "binding profile " ++ binding.profile.asStr ++ " is not permitted for enrolled device " ++
      String.ofList enrollment.deviceId ++ " (" ++ enrollment.profile.asStr ++ " expected)")
  else none

def observe (delivery : Delivery) (binding : Binding) (enrollment : Enrollment) (reading : WireReading F)
    (time : InterpretedTime) (gwl : F) (digest : String) : Observation F :=
  let identity := if reading.claimedDeviceId.isNone then ["identity-from-binding"] else []
  let battery := if binding.profile.truncatesBattery && reading.batteryV.isSome then
    ["battery-voltage-truncated-by-firmware"] else []
  let solar := if binding.profile.truncatesSolar && reading.solarV.isSome then
    ["solar-voltage-truncated-by-firmware"] else []
  let (rssi, reasons) := healthRssi reading.rssi (identity ++ battery ++ solar)
  let (batteryV, reasons) := healthVoltage reading.batteryV "battery" reasons
  let (solarV, reasons) := healthVoltage reading.solarV "solar" reasons
  let reasons := if time.quality = .plausibleTime then reasons
    else reasons ++ ["device-time-" ++ qualityStr time.quality]
  { deviceId := enrollment.deviceId
    recordedAt := time.recordedAt
    receivedAt := delivery.receivedAt
    deviceTimeText := reading.timeText
    timeQuality := time.quality
    timeReason := time.reason
    offsetAppliedMinutes := time.offsetAppliedMinutes
    zoneSource := time.zoneSource
    lagSeconds := time.lagSeconds
    interpretationVersion := binding.profile.interpretationVersion
    qualityReasons := reasons
    gwl := gwl
    gwlText := reading.gwl.text
    rssi := rssi
    rssiText := reading.rssi.map FieldText.text
    batteryV := batteryV
    batteryText := reading.batteryV.map FieldText.text
    batteryTruncated := binding.profile.truncatesBattery
    solarV := solarV
    solarText := reading.solarV.map FieldText.text
    solarTruncated := binding.profile.truncatesSolar
    payload := reading.payload
    payloadDigest := digest
    profile := binding.profile
    bindingKey := binding.key }

/-- Runs the pipeline up to duplicate detection. -/
def evaluate (delivery : Delivery) (registry : EnrollmentRegistry) (topics : TopicMap) :
    Checked Empty (Evaluation F) :=
  let record : DeliveryRecord :=
    { receivedAt := delivery.receivedAt, topic := delivery.topic, qos := delivery.qos
      payloadSize := delivery.payload.length, payloadDigest := platform.sha256Hex delivery.payload }
  if maxTopicBytes < (utf8 delivery.topic).length then
    .returns (quarantine { record with payloadText := preview platform delivery.payload } .topicTooLong
      ("topic is " ++ toString (utf8 delivery.topic).length ++ " bytes, limit " ++ toString maxTopicBytes))
  else
  let record := { record with kind := classify delivery.topic topics }
  if maxPayloadBytes < delivery.payload.length then
    .returns (quarantine { record with payloadText := preview platform delivery.payload } .payloadTooLarge
      ("payload is " ++ toString delivery.payload.length ++ " bytes, limit " ++ toString maxPayloadBytes))
  else match platform.fromUtf8 delivery.payload with
  | none => .returns (quarantine { record with payloadText := platform.fromUtf8Lossy delivery.payload } .notUtf8
      "payload is not valid UTF-8")
  | some payloadText =>
  let payloadJson := platform.fromStr (trim payloadText)
  if payloadText.contains '\x00' || payloadJson.any jsonHasNul then
    .returns (quarantine { record with
        payloadText := payloadText.flatMap fun c => if c = '\x00' then "\\u0000".toList else [c] } .nulByte
      "NUL payload retained as escaped text; not representable in PostgreSQL JSONB")
  else
  let record := { record with
    payloadText := payloadText, payloadJson := payloadJson, claimedDeviceId := claimedIdentity payloadJson }
  match record.kind with
  | .reading =>
    match registry.bindingForTopic delivery.topic with
    | none => .returns (quarantine record .unboundSharedTopic
        (if 1 < registry.bindingsOf delivery.topic then
          "topic " ++ platform.debug delivery.topic ++ " has " ++ toString (registry.bindingsOf delivery.topic) ++
            " live bindings; ambiguous provenance is not attributed"
        else "topic " ++ platform.debug delivery.topic ++
          " has no live per-device binding; a payload identity claim is not proof of origin"))
    | some binding =>
      let record := { record with bindingKey := some binding.key, profile := some binding.profile }
      match registry.enrollment binding.deviceId with
      | none => .returns (quarantine record .unenrolledDevice
          ("bound device " ++ String.ofList (canonicalDeviceId binding.deviceId) ++ " is not enrolled"))
      | some enrollment => match checkEnrollment binding enrollment with
        | some (reason, detail) => .returns (quarantine record reason detail)
        | none => match parseWireReading platform.fromStr payloadText with
          | .error error => .returns (quarantine record (.notAReading error) error.message)
          | .ok (reading : WireReading F) =>
            let record := { record with payloadJson := some reading.payload }
            match checkIdentity platform binding enrollment reading.claimedDeviceId with
            | some (reason, detail) => .returns (quarantine record reason detail)
            | none => do
              let time ← interpret platform.chrono platform.debug reading.timeText enrollment.clock delivery.receivedAt
              let gwl ← .unwrap reading.gwl.number
              .returns (.candidate
                { record with
                  timeQuality := some time.quality, state := .accepted, deviceId := some enrollment.deviceId }
                (observe delivery binding enrollment reading time gwl record.payloadDigest))
  | .other => .returns (quarantine record .unknownTopic
      ("topic " ++ platform.debug delivery.topic ++ " is not a configured feed"))
  | ancillary => .returns (quarantine record .ancillaryChannel
      (ancillary.asStr ++ " traffic is recorded but not attributed to a device in this slice"))

end Decision

end NixHomeServer.Groundwater.Adapter
