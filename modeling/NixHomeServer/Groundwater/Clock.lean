import NixHomeServer.Library.Checked
import NixHomeServer.Library.Numerals
import NixHomeServer.Library.Text
import NixHomeServer.Library.Utf8
import NixHomeServer.Groundwater.Basic

/-! The clock of a device: its timestamp text with the zone it may carry, the
policy that supplies one otherwise, and the instant that follows. A `None` of the
source is a failure without a message. The date and time library is a parameter. -/
namespace NixHomeServer.Groundwater.Clock

open NixHomeServer.Library

def parseI32 (text : List Char) : Option Int := parseSigned (2 ^ 31) text

/-- Where the hours end and the minutes begin. -/
def offsetFields (rest : List Char) : Checked Unit (List Char × List Char) :=
  match cutAt ':' rest with
  | some fields => .returns fields
  | none => if (utf8 rest).length = 4 then .unwrap (splitAtByte rest 2) else .fails ()

/-- `±HH:MM` (or `±HHMM`) into minutes east of UTC, in wrapping arithmetic. -/
def parseOffset (value : List Char) : Checked Unit Int :=
  match trim value with
  | [] => .fails ()
  | first :: rest =>
    if first = '+' ∨ first = '-' then do
      let (hours, minutes) ← offsetFields rest
      let hours ← .ofOption () (parseI32 hours)
      let minutes ← .ofOption () (parseI32 minutes)
      if 23 < hours ∨ 59 < minutes then .fails ()
      else .returns (((if first = '+' then 1 else -1) * (hours * 60 + minutes)).bmod (2 ^ 32))
    else .fails ()

/-- Splits an explicit zone suffix off a timestamp. -/
def splitZone (value : List Char) : Checked Unit (List Char × Option Int) :=
  if value.getLast? = some 'Z' ∨ value.getLast? = some 'z' then .returns (value.dropLast, some 0)
  else
    let bytes := utf8 value
    if 6 < bytes.length then
      let signIndex := bytes.length - 6
      let sign := bytes[signIndex]?
      if (sign = some 43 ∨ sign = some 45) ∧ bytes[signIndex + 3]? = some 58 then do
        let (body, suffix) ← .unwrap (splitAtByte value signIndex)
        let offset ← parseOffset suffix
        .returns (trimEnd body, some offset)
      else .returns (value, none)
    else .returns (value, none)

def looksLikeTwoDigitYear : List Char → Bool
  | a :: b :: '-' :: _ => a.isDigit && b.isDigit
  | _ => false

/-- The date and time library. Instants are nanoseconds since 1970. -/
structure Chrono where
  Naive : Type
  parseFromStr : List Char → List Char → Option Naive
  /-- Of a wall clock read as UTC. -/
  instant : Naive → Int
  /-- The first and the last instant that a wall clock can have. -/
  least : Int
  greatest : Int

structure DeviceTime (N : Type) where
  naive : N
  fixedOffsetMinutes : Option Int
  deriving DecidableEq, Repr

section Parsing

variable (chrono : Chrono)

def formats : List (List Char) := ["%Y-%m-%d %H:%M:%S".toList, "%Y-%m-%d %H:%M".toList]

/-- A timestamp without its zone. -/
def parseNaive (body : List Char) : Option chrono.Naive :=
  let candidate := if looksLikeTwoDigitYear body then '2' :: '0' :: body else body
  let normalized := candidate.map fun c => if c = 'T' then ' ' else c
  formats.findSome? (chrono.parseFromStr normalized)

def parseDeviceTime (value : List Char) : Checked Unit (DeviceTime chrono.Naive) :=
  let trimmed := trim value
  if trimmed = [] then .fails ()
  else do
    let (body, fixedOffsetMinutes) ← splitZone trimmed
    let naive ← .ofOption () (parseNaive chrono body)
    .returns { naive, fixedOffsetMinutes }

end Parsing

inductive ClockPolicy
  | utc
  | localOffset (offsetMinutes : Int)
  | unknown
  deriving DecidableEq, Repr

def toAsciiLowercase (text : List Char) : List Char := text.map Char.toLower

/-- Parses an operator-configured policy. -/
def ClockPolicy.parse (value : List Char) : Checked Unit ClockPolicy :=
  let value := trim value
  let lower := toAsciiLowercase value
  if lower = "utc".toList then .returns .utc
  else if lower = "unknown".toList then .returns .unknown
  else do
    let rest ← .ofOption () (lower.dropPrefix? "local-offset".toList)
    match trim rest with
    | [] => .returns .unknown
    | ':' :: rest | '=' :: rest => parseOffset rest >>= fun offset => .returns (.localOffset offset)
    | _ => .fails ()

def ClockPolicy.offsetMinutes : ClockPolicy → Option Int
  | .utc => some 0
  | .localOffset minutes => some minutes
  | .unknown => none

/-- Where the timezone evidence came from. -/
inductive ZoneSource
  | payload | devicePolicy | none
  deriving DecidableEq, Repr

structure InterpretedTime where
  recordedAt : Option Int
  quality : TimeQuality
  reason : String
  offsetAppliedMinutes : Option Int
  zoneSource : ZoneSource
  lagSeconds : Option Int
  deriving DecidableEq, Repr

section Interpreting

def second : Int := 1000000000

def minute : Int := 60 * second

def hour : Int := 60 * minute

/-- The first instant of the plausible epoch year, 2024. -/
def plausibleEpoch : Int := 1704067200 * second

def maxFutureSkewHours : Int := 24

def backlogNoteHours : Int := 48

variable (chrono : Chrono)

/-- An instant of the library; arithmetic that leaves its range panics. -/
def Chrono.checked (t : Int) : Checked Empty Int :=
  if chrono.least ≤ t ∧ t ≤ chrono.greatest then .returns t else .panics

def basis : ZoneSource → String
  | .payload => "payload carried an explicit zone; device clock policy not applied"
  | .devicePolicy => "device clock policy supplied the zone"
  | .none => "no zone evidence"

def signed (n : Int) : String := if 0 ≤ n then "+" ++ toString n else toString n

def classify (recordedAt receivedAt : Int) (zoneSource : ZoneSource) (offset : Option Int) :
    Checked Empty (TimeQuality × String) :=
  let basis := basis zoneSource
  let offsetNote := match zoneSource, offset with
    | .devicePolicy, some offset => " (offset " ++ signed offset ++ " min applied)"
    | _, _ => ""
  if recordedAt < plausibleEpoch then
    .returns (.reset, "device clock predates the first GPS fix (" ++ basis ++
      "); instant retained as evidence, not used as event time")
  else chrono.checked (receivedAt + maxFutureSkewHours * hour) >>= fun latest =>
    if latest < recordedAt then
      .returns (.future, "device clock is more than " ++ toString maxFutureSkewHours ++
        "h ahead of server receipt (" ++ basis ++ ")")
    else
      let lag := (receivedAt - recordedAt).tdiv hour
      if backlogNoteHours < lag then
        .returns (.plausibleTime, "backlog replay " ++ toString lag ++ "h behind server receipt" ++ offsetNote ++
          "; " ++ basis)
      else .returns (.plausibleTime, "device time interpreted" ++ offsetNote ++ "; " ++ basis)

/-- No instant is derived. -/
def withoutInstant (quality : TimeQuality) (reason : String) : InterpretedTime where
  recordedAt := none
  quality := quality
  reason := reason
  offsetAppliedMinutes := none
  zoneSource := .none
  lagSeconds := none

/-- The offset that a zone designator or else the policy gives to a timestamp. -/
def zoneOf (time : DeviceTime chrono.Naive) (policy : ClockPolicy) : Option (ZoneSource × Int) :=
  match time.fixedOffsetMinutes with
  | some offset => some (.payload, offset)
  | none => policy.offsetMinutes.map fun offset => (.devicePolicy, offset)

variable (debug : List Char → String)

def interpret (deviceTimeText : Option (List Char)) (policy : ClockPolicy) (receivedAt : Int) :
    Checked Empty InterpretedTime :=
  match deviceTimeText with
  | none => .returns (withoutInstant .invalid "payload carried no TIME field")
  | some text => match parseDeviceTime chrono text with
    | .panics => .panics
    | .fails _ =>
      .returns (withoutInstant .invalid ("TIME " ++ debug text ++ " is not a parsable device timestamp"))
    | .returns parsed => match zoneOf chrono parsed policy with
      | none => .returns (withoutInstant .ambiguous
          ("TIME " ++ debug text ++ " has no zone and the device clock policy is not established"))
      | some (zoneSource, offset) => do
        let recordedAt ← chrono.checked (chrono.instant parsed.naive - offset * minute)
        let (quality, reason) ← classify chrono recordedAt receivedAt zoneSource (some offset)
        .returns
          { recordedAt := some recordedAt
            quality := quality
            reason := reason
            offsetAppliedMinutes := some offset
            zoneSource := zoneSource
            lagSeconds := some ((receivedAt - recordedAt).tdiv second) }

end Interpreting

end NixHomeServer.Groundwater.Clock
