import NixHomeServer.Groundwater.Attribution
import NixHomeServer.Groundwater.Intake
import NixHomeServer.Groundwater.Zones

/-! Which device timestamps come to an instant that the database can store, and
what the loop that persists a delivery makes of the others. -/
namespace NixHomeServer.Groundwater.ClockRange

open NixHomeServer.Library NixHomeServer.Groundwater.Clock NixHomeServer.Groundwater.Adapter

/-- The first instant of a timestamp column: 1 January 4713 BC of the Julian calendar. -/
def julianDayZero : Int := -210866803200 * second

/-- The end of the year 294276. -/
def endOfTimestamps : Int := 9224318016000 * second

def Storable (t : Int) : Prop := julianDayZero ≤ t ∧ t < endOfTimestamps

instance (t : Int) : Decidable (Storable t) := inferInstanceAs (Decidable (_ ∧ _))

section Interpretation

variable (chrono : Chrono) (debug : Text → String)

/-- The library's range, and that its wall clocks lie in it. -/
structure Ranged : Prop where
  inside : ∀ naive, chrono.least ≤ chrono.instant naive ∧ chrono.instant naive ≤ chrono.greatest
  wide : chrono.least ≤ julianDayZero
  narrow : chrono.greatest < endOfTimestamps

/-- An instant of receipt that leaves room for the skew of a device. -/
def Present (receivedAt : Int) : Prop :=
  chrono.least ≤ receivedAt ∧ receivedAt + maxFutureSkewHours * hour ≤ chrono.greatest

structure Ingestible (text : Option Text) (policy : ClockPolicy) (receivedAt : Int) : Prop where
  returns : ∃ time, interpret chrono debug text policy receivedAt = .returns time
  storable : ∀ time t, interpret chrono debug text policy receivedAt = .returns time → time.recordedAt = some t →
    Storable t

/-- The wall clock of the text is not before the first instant of a timestamp column, and not after the
library's last one, once it is moved by the offset of its zone. -/
def WithinRange (text : Option Text) (policy : ClockPolicy) : Prop :=
  ∀ written ∈ text, ∀ time, parseDeviceTime chrono written = .returns time →
    ∀ zone ∈ zoneOf chrono time policy,
      julianDayZero + zone.2 * minute ≤ chrono.instant time.naive ∧
        chrono.instant time.naive ≤ chrono.greatest + zone.2 * minute

variable {chrono debug}

theorem checked_eq_returns {t u : Int} :
    chrono.checked t = .returns u ↔ (chrono.least ≤ t ∧ t ≤ chrono.greatest) ∧ t = u := by
  unfold Chrono.checked
  split
  · rename_i inside
    simp only [Checked.returns.injEq, inside, and_self, true_and]
  · rename_i outside
    simp only [reduceCtorEq, outside, false_and]

theorem classify_returns {recordedAt receivedAt : Int} (present : Present chrono receivedAt) (zone : ZoneSource)
    (offset : Option Int) : ∃ judged, Clock.classify chrono recordedAt receivedAt zone offset = .returns judged := by
  have day : (0 : Int) ≤ maxFutureSkewHours * hour := by decide
  have latest : chrono.checked (receivedAt + maxFutureSkewHours * hour) =
      .returns (receivedAt + maxFutureSkewHours * hour) := by
    refine checked_eq_returns.mpr ⟨⟨?_, present.2⟩, rfl⟩
    have low := present.1
    omega
  unfold Clock.classify
  dsimp only
  split
  · exact ⟨_, rfl⟩
  · rw [latest, Checked.returns_bind]
    split
    · exact ⟨_, rfl⟩
    · split <;> exact ⟨_, rfl⟩

/-- What is interpreted of a timestamp: no instant, or the wall clock moved by the offset of its zone. -/
inductive Interpreted (chrono : Chrono) (text : Option Text) (policy : ClockPolicy) : Checked Empty InterpretedTime → Prop
  | without (time : InterpretedTime) (nothing : time.recordedAt = none)
      (unzoned : ∀ written ∈ text, ∀ parsed, parseDeviceTime chrono written = .returns parsed →
        zoneOf chrono parsed policy = none) : Interpreted chrono text policy (.returns time)
  | derived (written : Text) (parsed : DeviceTime chrono.Naive) (zone : ZoneSource × Int) (time : InterpretedTime)
      (there : text = some written) (read : parseDeviceTime chrono written = .returns parsed)
      (zoned : zoneOf chrono parsed policy = some zone)
      (inside : chrono.least ≤ chrono.instant parsed.naive - zone.2 * minute ∧
        chrono.instant parsed.naive - zone.2 * minute ≤ chrono.greatest)
      (recorded : time.recordedAt = some (chrono.instant parsed.naive - zone.2 * minute)) :
      Interpreted chrono text policy (.returns time)
  | outside (written : Text) (parsed : DeviceTime chrono.Naive) (zone : ZoneSource × Int)
      (there : text = some written) (read : parseDeviceTime chrono written = .returns parsed)
      (zoned : zoneOf chrono parsed policy = some zone)
      (leaves : ¬(chrono.least ≤ chrono.instant parsed.naive - zone.2 * minute ∧
        chrono.instant parsed.naive - zone.2 * minute ≤ chrono.greatest)) :
      Interpreted chrono text policy .panics

theorem interpret_cases {receivedAt : Int} (present : Present chrono receivedAt) (text : Option Text)
    (policy : ClockPolicy) : Interpreted chrono text policy (interpret chrono debug text policy receivedAt) := by
  unfold interpret
  split
  · exact .without _ rfl fun _ => nofun
  · rename_i written
    split
    · rename_i lost
      exact absurd lost parseDeviceTime_ne_panics
    · rename_i unparsed
      refine .without _ rfl fun other same parsed read => ?_
      obtain rfl := Option.some.inj same
      exact absurd (read.symm.trans unparsed) nofun
    · rename_i parsed read
      split
      · rename_i unzoned
        refine .without _ rfl fun other same again read' => ?_
        obtain rfl := Option.some.inj same
        obtain rfl := Checked.returns.inj (read.symm.trans read')
        exact unzoned
      · rename_i zoneSource offset zoned
        by_cases inside : chrono.least ≤ chrono.instant parsed.naive - offset * minute ∧
            chrono.instant parsed.naive - offset * minute ≤ chrono.greatest
        · obtain ⟨judged, classified⟩ := @classify_returns _ (chrono.instant parsed.naive - offset * minute) _ present
            zoneSource (some offset)
          rw [checked_eq_returns.mpr ⟨inside, rfl⟩, Checked.returns_bind, classified]
          exact .derived written parsed (zoneSource, offset) _ rfl read zoned inside rfl
        · rw [Chrono.checked, if_neg inside]
          exact .outside written parsed (zoneSource, offset) rfl read zoned inside

/-- A timestamp is interpreted as an instant that can be stored exactly if it is within range. -/
theorem ingestible_iff (ranged : Ranged chrono) {receivedAt : Int} (present : Present chrono receivedAt)
    (text : Option Text) (policy : ClockPolicy) :
    Ingestible chrono debug text policy receivedAt ↔ WithinRange chrono text policy := by
  have judged : Interpreted chrono text policy (interpret chrono debug text policy receivedAt) :=
    interpret_cases present text policy
  constructor
  · rintro ⟨⟨time, returned⟩, storable⟩ written there parsed read zone zoned
    obtain rfl := there
    rw [returned] at judged
    generalize found : Checked.returns time = result at judged
    cases judged with
    | without _ _ unzoned =>
      exact absurd ((unzoned written rfl parsed read).symm.trans zoned) nofun
    | derived other parsed' zone' _ there read' zoned' inside recorded =>
      cases found
      obtain rfl := Option.some.inj there
      obtain rfl := Checked.returns.inj (read.symm.trans read')
      obtain rfl := Option.some.inj (zoned.symm.trans zoned')
      have low := (storable time _ returned recorded).1
      omega
    | outside => cases found
  · intro within
    generalize found : interpret chrono debug text policy receivedAt = result at judged
    cases judged with
    | without time nothing =>
      refine ⟨⟨time, found⟩, fun other t returned recorded => ?_⟩
      obtain rfl := Checked.returns.inj (found.symm.trans returned)
      exact absurd (nothing.symm.trans recorded) nofun
    | derived written parsed zone time there read zoned inside recorded =>
      refine ⟨⟨time, found⟩, fun other t returned recorded' => ?_⟩
      obtain rfl := Checked.returns.inj (found.symm.trans returned)
      obtain rfl := Option.some.inj (recorded.symm.trans recorded')
      have low := (within written there parsed read zone zoned).1
      have high := ranged.narrow
      exact ⟨by omega, by omega⟩
    | outside written parsed zone there read zoned leaves =>
      obtain ⟨low, high⟩ := within written there parsed read zone zoned
      have wide := ranged.wide
      exact absurd ⟨by omega, by omega⟩ leaves

end Interpretation

section Persisting

variable {F : Type} [Real64 F]

/-- What the intake is told of an evaluation. -/
def verdictOf : Evaluation F → Intake.Verdict F
  | .candidate _ o => .reading { device := String.ofList o.deviceId, recordedAt := o.recordedAt, gwl := o.gwl }
  | .quarantined _ reason detail => .quarantined reason.code detail

/-- The instant that a lookup and an insert send along with an observation. -/
def instantOf : Evaluation F → Option Int
  | .candidate _ o => o.recordedAt
  | .quarantined _ _ _ => none

/-- A healthy database refuses what it cannot store, and nothing else. -/
def healthy (evaluation : Evaluation F) : Outcome :=
  if ∀ t ∈ instantOf evaluation, Storable t then .done else .refused

def received (delivery : Intake.Delivery) : Delivery where
  topic := delivery.topic.toList
  payload := delivery.payload
  qos := delivery.qos
  receivedAt := delivery.receivedAt.nanoseconds

variable (platform : Platform F) (registry : EnrollmentRegistry) (topics : TopicMap)
  (order : Intake.RowOrder (Intake.PriorObservation F)) [Intake.Level F]

/-- What the loop over a delivery has come to. -/
inductive Progress (F : Type)
  | ended (store : Intake.Store F)
  | retrying (store : Intake.Store F)
  | died

/-- The loop repeats a delivery until it is answered, here for a number of passes at most. -/
def persistPublish (delivery : Intake.Delivery) : Nat → Intake.Store F → Progress F
  | 0, s => .retrying s
  | passes + 1, s => match evaluate platform (received delivery) registry topics with
    | .panics => .died
    | .fails never => nomatch never
    | .returns evaluation =>
      let r := Intake.handlePublish platform.sha256Hex
        { delivery := delivery, verdict := verdictOf evaluation, order := order, outcome := healthy evaluation } s
      if r.2 then .ended r.1 else persistPublish delivery passes r.1

variable {platform registry topics order}

/-- No row of the store has the retry key of the delivery. -/
def Fresh (sha256 : List UInt8 → String) (delivery : Intake.Delivery) (s : Intake.Store F) : Prop :=
  ∀ verdict : Intake.Verdict F, Intake.existingIntake
    (Intake.intakeKey sha256 (Intake.evaluate sha256 delivery verdict).record) s = none

omit [Real64 F] in
theorem handlePublish_done {sha256 : List UInt8 → String} {a : Intake.Attempt F} {s : Intake.Store F}
    (fresh : Fresh sha256 a.delivery s) (done : a.outcome = .done) : (Intake.handlePublish sha256 a s).2 = true := by
  unfold Intake.handlePublish
  dsimp only
  rw [fresh a.verdict, done]
  rfl

omit [Real64 F] in
theorem handlePublish_refused {sha256 : List UInt8 → String} {a : Intake.Attempt F} {s : Intake.Store F}
    (fresh : Fresh sha256 a.delivery s) (refused : a.outcome = .refused) :
    Intake.handlePublish sha256 a s = (s, false) := by
  unfold Intake.handlePublish
  dsimp only
  rw [fresh a.verdict, refused]
  rfl

variable {delivery : Intake.Delivery} {s : Intake.Store F}

theorem ends_of_done (fresh : Fresh platform.sha256Hex delivery s) {evaluation : Evaluation F}
    (answer : evaluate platform (received delivery) registry topics = .returns evaluation)
    (done : healthy evaluation = .done) :
    ∃ passes s', persistPublish platform registry topics order delivery passes s = .ended s' := by
  refine ⟨1, (Intake.handlePublish platform.sha256Hex ⟨delivery, verdictOf evaluation, order, healthy evaluation⟩ s).1, ?_⟩
  have pass : (Intake.handlePublish platform.sha256Hex ⟨delivery, verdictOf evaluation, order, healthy evaluation⟩ s).2 =
      true := handlePublish_done fresh done
  rw [persistPublish, answer]
  dsimp only
  rw [if_pos pass]

/-- A delivery whose instant is refused is repeated for ever. -/
theorem repeats_of_refused (fresh : Fresh platform.sha256Hex delivery s) {evaluation : Evaluation F}
    (answer : evaluate platform (received delivery) registry topics = .returns evaluation)
    (refused : healthy evaluation = .refused) (passes : Nat) :
    persistPublish platform registry topics order delivery passes s = .retrying s := by
  induction passes with
  | zero => rfl
  | succ passes ih =>
    have pass : Intake.handlePublish platform.sha256Hex ⟨delivery, verdictOf evaluation, order, healthy evaluation⟩ s =
        (s, false) := handlePublish_refused fresh refused
    rw [persistPublish, answer]
    dsimp only
    rw [pass]
    exact ih

theorem never_ends_of_panics (lost : evaluate platform (received delivery) registry topics = .panics) (passes : Nat)
    (s' : Intake.Store F) : persistPublish platform registry topics order delivery passes s ≠ .ended s' := by
  cases passes with
  | zero => nofun
  | succ passes =>
    rw [persistPublish, lost]
    nofun

/-- A delivery is answered on a healthy database exactly if the timestamp it is attributed with is within range. -/
theorem persistPublish_ends_iff (ranged : Ranged platform.chrono) (present : Present platform.chrono
    delivery.receivedAt.nanoseconds) (fresh : Fresh platform.sha256Hex delivery s) :
    (∃ passes s', persistPublish platform registry topics order delivery passes s = .ended s') ↔
      ∀ text binding enrollment reading,
        Attributable platform (received delivery) registry topics text binding enrollment reading →
        WithinRange platform.chrono reading.timeText enrollment.clock := by
  have judged : Judged platform (received delivery) registry topics _ := evaluate_cases (received delivery) registry topics
  generalize answer : evaluate platform (received delivery) registry topics = result at judged
  cases judged with
  | quarantined record reason detail nobody refused =>
    have done : healthy (quarantine record reason detail : Evaluation F) = .done := if_pos fun _ => nofun
    exact ⟨fun _ t b e r speaks => absurd speaks (refused t b e r), fun _ => ends_of_done fresh answer done⟩
  | attributable text binding enrollment reading gwl speaks level =>
    -- the binding, the enrollment and the reading are the only ones
    have only : (∀ t b e r, Attributable platform (received delivery) registry topics t b e r →
        WithinRange platform.chrono r.timeText e.clock) ↔ WithinRange platform.chrono reading.timeText enrollment.clock := by
      refine ⟨fun all => all text binding enrollment reading speaks, fun within t b e r other => ?_⟩
      obtain rfl := Option.some.inj (speaks.decoded.symm.trans other.decoded)
      obtain rfl := Option.some.inj (speaks.bindingForTopic.symm.trans other.bindingForTopic)
      obtain rfl := Option.some.inj (speaks.enrolled.symm.trans other.enrolled)
      obtain rfl := Except.ok.inj (speaks.parsed.symm.trans other.parsed)
      exact within
    rw [only, ← @ingestible_iff _ platform.debug ranged _ present]
    generalize clock : interpret platform.chrono platform.debug reading.timeText enrollment.clock
      (received delivery).receivedAt = time at answer
    cases time with
    | panics =>
      refine ⟨fun ⟨passes, s', ended⟩ => absurd ended (never_ends_of_panics answer passes s'), fun within => ?_⟩
      obtain ⟨time, returned⟩ := within.returns
      exact absurd (clock.symm.trans returned) nofun
    | fails never => exact nomatch never
    | returns time =>
      rw [Checked.returns_bind] at answer
      by_cases storable : ∀ t ∈ time.recordedAt, Storable t
      · have done : healthy (attributed platform (received delivery) topics text binding enrollment reading time gwl) =
            .done := if_pos storable
        refine ⟨fun _ => ⟨⟨time, clock⟩, fun other t returned recorded => ?_⟩, fun _ => ends_of_done fresh answer done⟩
        obtain rfl := Checked.returns.inj (clock.symm.trans returned)
        exact storable t recorded
      · have refused : healthy (attributed platform (received delivery) topics text binding enrollment reading time gwl) =
            .refused := if_neg storable
        refine ⟨fun ⟨passes, s', ended⟩ => ?_, fun within => absurd ?_ storable⟩
        · exact absurd ((repeats_of_refused fresh answer refused passes).symm.trans ended) nofun
        · exact fun t recorded => within.storable time t clock recorded

end Persisting

section Results

variable {F : Type} [Real64 F] [Intake.Level F]

/-- Device timestamps are interpreted and stored exactly as far as they are within range. -/
theorem device_times_within_range (platform : Platform F) (ranged : Ranged platform.chrono) :
    (∀ text policy receivedAt, Present platform.chrono receivedAt →
      (Ingestible platform.chrono platform.debug text policy receivedAt ↔ WithinRange platform.chrono text policy)) ∧
    ∀ registry topics order (delivery : Intake.Delivery) (s : Intake.Store F),
      Present platform.chrono delivery.receivedAt.nanoseconds → Fresh platform.sha256Hex delivery s →
      ((∃ passes s', persistPublish platform registry topics order delivery passes s = .ended s') ↔
        ∀ text binding enrollment reading,
          Attributable platform (received delivery) registry topics text binding enrollment reading →
          WithinRange platform.chrono reading.timeText enrollment.clock) :=
  ⟨fun text policy _ present => ingestible_iff ranged present text policy,
    fun _ _ _ _ _ present fresh => persistPublish_ends_iff ranged present fresh⟩

end Results

section Example

inductive Known
  | morning | ancient | first

/-- A library that knows a morning of 2026, the first day of 4801 BC and its own first instant. -/
def calendar : Chrono where
  Naive := Known
  parseFromStr text format :=
    if format ≠ "%Y-%m-%d %H:%M:%S".toList then none
    else if text = "2026-10-03 01:33:45".toList then some .morning
    else if text = "-4800-01-01 00:00:00".toList then some .ancient
    else if text = "-262143-01-01 00:00:00".toList then some .first
    else none
  instant
    | .morning => 1790991225 * second
    | .ancient => -213640588800 * second
    | .first => -8334601228800 * second
  least := -8334601228800 * second
  greatest := 8210266876799 * second + 999999999

theorem calendar_ranged : Ranged calendar where
  inside naive := by cases naive <;> decide
  wide := by decide
  narrow := by decide

def now : Int := 1790991300 * second

theorem present_now : Present calendar now := ⟨by decide, by decide⟩

instance : Intake.Level Milli where
  text level := toString level.thousandths

def dated : Platform Milli := { site with chrono := calendar }

theorem whole_second : 0 < 2 ^ 32 := by decide

theorem boreTopic_short : (String.ofList boreTopic).utf8ByteSize < 2 ^ 16 := by decide

def delivery : Intake.Delivery where
  topic := String.ofList boreTopic
  payload := utf8 plain.1
  qos := 1
  receivedAt := ⟨1790991300, 0, by decide, by decide, whole_second⟩
  short := boreTopic_short

set_option maxRecDepth 4096 in
/-- A morning is stored, and a level without a timestamp is answered. -/
theorem morning_is_ingested :
    Ingestible calendar String.ofList (some "2026-10-03T01:33:45".toList) .utc now ∧
      ∃ passes s', persistPublish dated oneBore .firmwareDefaults ⟨id, fun _ => .rfl⟩ delivery passes {} = .ended s' := by
  obtain ⟨interpreted, persisted⟩ := device_times_within_range dated calendar_ranged
  constructor
  · refine (interpreted _ _ now present_now).mpr ?_
    intro written same time parsed zone zoned
    obtain rfl := Option.some.inj same
    cases parsed
    cases zoned
    decide
  · refine (persisted oneBore .firmwareDefaults ⟨id, fun _ => .rfl⟩ delivery {} present_now fun _ => rfl).mpr ?_
    intro text binding enrollment reading speaks written timed
    obtain rfl := Option.some.inj (speaks.decoded.symm.trans (rfl : site.fromUtf8 (utf8 plain.1) = some plain.1))
    obtain rfl := Except.ok.inj (speaks.parsed.symm.trans (rfl : parseWireReading site.fromStr plain.1 = .ok (readingOf plain)))
    cases timed

/-- The first day of 4801 BC cannot be stored, and the library's first instant cannot be moved east. -/
theorem ancient_times_are_not_ingested :
    (¬∀ (chrono : Chrono) (debug : Text → String), Ranged chrono → ∀ text policy receivedAt, Present chrono receivedAt →
      Ingestible chrono debug text policy receivedAt) ∧
    interpret calendar String.ofList (some "-262143-01-01 00:00:00+00:01".toList) .unknown now = .panics := by
  refine ⟨fun always => ?_, rfl⟩
  have ingested := always calendar String.ofList calendar_ranged (some "-4800-01-01 00:00:00Z".toList) .unknown now
    present_now
  have within := (ingestible_iff calendar_ranged present_now _ _).mp ingested
  have low := (within _ rfl ⟨Known.ancient, some 0⟩ rfl (.payload, 0) rfl).1
  exact absurd low (by decide)

end Example

end NixHomeServer.Groundwater.ClockRange
