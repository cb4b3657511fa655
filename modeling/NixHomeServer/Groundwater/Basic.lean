/-! Names that the intake, the alerts and the command dispatch share. -/
namespace NixHomeServer.Groundwater

abbrev DeviceId := String

inductive TimeQuality
  | plausibleTime | reset | future | invalid | ambiguous
  deriving DecidableEq, Repr

inductive DuplicateOutcome
  | new | redeliveryCandidate | conflict
  deriving DecidableEq, Repr

end NixHomeServer.Groundwater
