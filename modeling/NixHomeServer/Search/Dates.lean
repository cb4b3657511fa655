import NixHomeServer.Library.Numerals
import NixHomeServer.Library.Text
import Mathlib.Data.String.Basic

/-! Dates as chrono writes them and as the index reads them back. -/
namespace NixHomeServer.Search

open NixHomeServer.Library

structure Civil where
  year : Int
  month : Nat
  day : Nat
  deriving DecidableEq, Repr

def Civil.Earlier (a b : Civil) : Prop :=
  a.year < b.year ∨ a.year = b.year ∧ (a.month < b.month ∨ a.month = b.month ∧ a.day < b.day)

/-- The calendar of the days since the epoch that a date can stand for. -/
structure Calendar where
  representable : Int → Bool
  civil : Int → Civil
  dayOf : Civil → Option Int
  /-- A text that is a date, perhaps not as it is written. -/
  parseDay : String → Option Int
  small : ∀ n, (civil n).month < 100 ∧ (civil n).day < 100
  dayOf_civil : ∀ n, representable n = true → dayOf (civil n) = some n
  ordered : ∀ m n, representable m = true → representable n = true → m < n → (civil m).Earlier (civil n)
  parsed : ∀ text n, parseDay text = some n → representable n = true
  epoch : representable 0 = true

section Writing

/-- A year outside four digits has a sign. -/
def yearText (y : Int) : List Char :=
  if 0 ≤ y ∧ y < 10000 then (Nat.toDigits 10 y.natAbs).leftpad 4 '0'
  else (if y < 0 then '-' else '+') :: (Nat.toDigits 10 y.natAbs).leftpad 4 '0'

def twoDigits (n : Nat) : List Char := (Nat.toDigits 10 n).leftpad 2 '0'

def dateText (date : Civil) : List Char := yearText date.year ++ '-' :: (twoDigits date.month ++ '-' :: twoDigits date.day)

def clockText (second : Nat) : List Char :=
  twoDigits (second / 3600) ++ ':' :: (twoDigits (second / 60 % 60) ++ ':' :: twoDigits (second % 60))

variable (calendar : Calendar)

/-- A timestamp whose day no date stands for is taken for the epoch. -/
def Calendar.settled (seconds : Int) : Int := if calendar.representable (seconds / 86400) then seconds else 0

def Calendar.epochToSolrDate (seconds : Int) : String :=
  let settled := calendar.settled seconds
  String.ofList (dateText (calendar.civil (settled / 86400)) ++ 'T' :: (clockText (settled % 86400).toNat ++ ['Z']))

def Calendar.calendarYear (seconds : Int) : Option Int :=
  if calendar.representable (seconds / 86400) then some (calendar.civil (seconds / 86400)).year else none

end Writing

section Reading

variable (calendar : Calendar)

/-- Whether a minus sign stands first, and what follows a sign. -/
def signOf : List Char → Bool × List Char
  | '-' :: digits => (true, digits)
  | '+' :: digits => (false, digits)
  | digits => (false, digits)

def Calendar.readDate (text : List Char) : Option Int := do
  let (year, rest) ← cutAt '-' (signOf text).2
  let (month, day) ← cutAt '-' rest
  let y ← numeral 10 year
  let m ← numeral 10 month
  let d ← numeral 10 day
  calendar.dayOf ⟨if (signOf text).1 then -(y : Int) else y, m, d⟩

/-- The milliseconds of a time of day that ends in `Z`. -/
def readClock (text : List Char) : Option Nat := do
  let (hour, rest) ← cutAt ':' text
  let (minute, rest) ← cutAt ':' rest
  let (seconds, rest) ← cutAt 'Z' rest
  let h ← numeral 10 hour
  let m ← numeral 10 minute
  let (s, ms) ← match cutAt '.' seconds with
    | some (whole, fraction) => do
      let s ← numeral 10 whole
      let ms ← numeral 10 fraction
      some (s, ms)
    | none => (numeral 10 seconds).map fun s => (s, 0)
  if rest = [] then some (((h * 60 + m) * 60 + s) * 1000 + ms) else none

/-- The instant of a date and time, in milliseconds. -/
def Calendar.readInstant (text : List Char) : Option Int := do
  let (date, time) ← cutAt 'T' text
  let day ← calendar.readDate date
  let ms ← readClock time
  some (day * 86400000 + ms)

variable {calendar}

theorem absent_of_digits {text : List Char} (digits : ∀ c ∈ text, c.isDigit = true) {c : Char} (other : c.isDigit = false) :
    c ∉ text := fun member => by
  rw [digits c member] at other
  cases other

theorem twoDigits_absent (n : Nat) {c : Char} (other : c.isDigit = false) : c ∉ twoDigits n :=
  absent_of_digits (fun _ => digits_of_leftpad) other

@[simp] theorem numeral_twoDigits (n : Nat) : numeral 10 (twoDigits n) = some n := numeral_leftpad 2 n

theorem signOf_digits {text : List Char} (digits : ∀ c ∈ text, c.isDigit = true) (filled : text ≠ []) (rest : List Char) :
    signOf (text ++ rest) = (false, text ++ rest) := by
  obtain ⟨c, tail, rfl⟩ := List.exists_cons_of_ne_nil filled
  have own := digits c List.mem_cons_self
  rw [List.cons_append]
  unfold signOf
  split
  · rename_i same
    cases same
    cases own
  · rename_i same
    cases same
    cases own
  · rfl

/-- The sign and the digits of a year as it is written. -/
theorem signOf_yearText (y : Int) (rest : List Char) :
    ∃ digits, signOf (yearText y ++ rest) = (decide (y < 0), digits ++ rest) ∧ (∀ c ∈ digits, c.isDigit = true) ∧
      numeral 10 digits = some y.natAbs := by
  refine ⟨(Nat.toDigits 10 y.natAbs).leftpad 4 '0', ?_, fun c => digits_of_leftpad, numeral_leftpad 4 _⟩
  unfold yearText
  split
  · rename_i plain
    rw [signOf_digits (fun c => digits_of_leftpad) (leftpad_ne_nil 4 _), decide_eq_false (by omega)]
  · rw [List.cons_append]
    split <;> rename_i sign <;> simp [signOf, sign]

theorem readDate_dateText {n : Int} (inside : calendar.representable n = true) :
    calendar.readDate (dateText (calendar.civil n)) = some n := by
  obtain ⟨digits, signed, all, read⟩ := signOf_yearText (calendar.civil n).year
    ('-' :: (twoDigits (calendar.civil n).month ++ '-' :: twoDigits (calendar.civil n).day))
  have year : (if decide ((calendar.civil n).year < 0) = true then -(((calendar.civil n).year.natAbs : Nat) : Int)
      else ((calendar.civil n).year.natAbs : Nat)) = (calendar.civil n).year := by
    split <;> rename_i sign <;> simp only [decide_eq_true_eq] at sign <;> omega
  unfold Calendar.readDate dateText
  rw [signed]
  simp only [cutAt_append '-' _ (absent_of_digits all (by decide)), cutAt_append '-' _ (twoDigits_absent _ (by decide)),
    Option.bind_eq_bind, Option.bind_some, read, numeral_twoDigits, year]
  exact calendar.dayOf_civil n inside

theorem dateText_absent (date : Civil) {c : Char} (other : c.isDigit = false) (minus : c ≠ '-') (plus : c ≠ '+') :
    c ∉ dateText date := by
  have padded : c ∉ (Nat.toDigits 10 date.year.natAbs).leftpad 4 '0' := absent_of_digits (fun _ => digits_of_leftpad) other
  have year : c ∉ yearText date.year := by
    unfold yearText
    split
    · exact padded
    · rw [List.mem_cons]
      rintro (same | member)
      · split at same
        · exact minus same
        · exact plus same
      · exact padded member
  unfold dateText
  simp only [List.mem_append, List.mem_cons, year, minus, twoDigits_absent _ other, or_false, not_false_eq_true]

/-- What is written for a day and a time of day is read as that instant. -/
theorem readInstant_append {n : Int} (inside : calendar.representable n = true) {time : List Char} {ms : Nat}
    (read : readClock time = some ms) :
    calendar.readInstant (dateText (calendar.civil n) ++ 'T' :: time) = some (n * 86400000 + ms) := by
  unfold Calendar.readInstant
  rw [cutAt_append 'T' _ (dateText_absent _ (by decide) (by decide) (by decide))]
  simp only [Option.bind_eq_bind, Option.bind_some, readDate_dateText inside, read]

theorem settled_representable (calendar : Calendar) (seconds : Int) :
    calendar.representable (calendar.settled seconds / 86400) = true := by
  unfold Calendar.settled
  split
  · assumption
  · exact calendar.epoch

end Reading

section Order

theorem lex_append {p q x y : List Char} (same : p.length = q.length) : p ++ x < q ++ y ↔ p < q ∨ p = q ∧ x < y := by
  induction p generalizing q with
  | nil =>
    obtain rfl := List.length_eq_zero_iff.mp same.symm
    simp
  | cons c p ih =>
    cases q with
    | nil => cases same
    | cons d q =>
      rw [List.cons_append, List.cons_append, List.cons_lt_cons_iff, List.cons_lt_cons_iff, ih (Nat.succ.inj same)]
      simp only [List.cons.injEq]
      constructor
      · rintro (less | ⟨rfl, less | ⟨rfl, less⟩⟩)
        · exact .inl (.inl less)
        · exact .inl (.inr ⟨rfl, less⟩)
        · exact .inr ⟨⟨rfl, rfl⟩, less⟩
      · rintro ((less | ⟨rfl, less⟩) | ⟨⟨rfl, rfl⟩, less⟩)
        · exact .inl less
        · exact .inr ⟨rfl, .inl less⟩
        · exact .inr ⟨rfl, .inr ⟨rfl, less⟩⟩

theorem ofDigitChars_lt {l m : List Char} {a b : Nat} (digits : ∀ c ∈ l, c.isDigit = true) (same : l.length = m.length)
    (less : a < b) : Nat.ofDigitChars 10 l a < Nat.ofDigitChars 10 m b := by
  induction l generalizing m a b with
  | nil =>
    obtain rfl := List.length_eq_zero_iff.mp same.symm
    exact less
  | cons c l ih =>
    cases m with
    | nil => cases same
    | cons d m =>
      have range := (isDigit_iff.mp (digits c List.mem_cons_self)).2
      have zero : '0'.toNat = 48 := rfl
      rw [Nat.ofDigitChars_cons, Nat.ofDigitChars_cons]
      exact ih (fun x member => digits x (List.mem_cons_of_mem _ member)) (Nat.succ.inj same) (by omega)

/-- Digits of one length stand in the order of the numbers they write. -/
theorem digits_lt_iff {l m : List Char} {a : Nat} (digits : ∀ c ∈ l, c.isDigit = true) (digits' : ∀ c ∈ m, c.isDigit = true)
    (same : l.length = m.length) : l < m ↔ Nat.ofDigitChars 10 l a < Nat.ofDigitChars 10 m a := by
  induction l generalizing m a with
  | nil =>
    obtain rfl := List.length_eq_zero_iff.mp same.symm
    simp
  | cons c l ih =>
    cases m with
    | nil => cases same
    | cons d m =>
      have own := isDigit_iff.mp (digits c List.mem_cons_self)
      have own' := isDigit_iff.mp (digits' d List.mem_cons_self)
      have tail := fun x member => digits x (List.mem_cons_of_mem c member)
      have tail' := fun x member => digits' x (List.mem_cons_of_mem d member)
      have count := Nat.succ.inj same
      have zero : '0'.toNat = 48 := rfl
      rw [List.cons_lt_cons_iff, Nat.ofDigitChars_cons, Nat.ofDigitChars_cons]
      rcases Nat.lt_trichotomy c.toNat d.toNat with less | equal | more
      · exact ⟨fun _ => ofDigitChars_lt tail count (by omega), fun _ => .inl less⟩
      · obtain rfl : c = d := Char.toNat_inj.mp equal
        rw [← ih tail tail' count]
        exact ⟨fun either => either.elim (fun less => absurd less (Nat.lt_irrefl c.toNat)) And.right, fun less => .inr ⟨rfl, less⟩⟩
      · have above := ofDigitChars_lt (a := 10 * a + (d.toNat - '0'.toNat)) (b := 10 * a + (c.toNat - '0'.toNat)) tail' count.symm
          (by omega)
        refine ⟨?_, fun less => absurd less (by omega)⟩
        rintro (less | ⟨rfl, -⟩)
        · exact absurd (show c.toNat < d.toNat from less) (by omega)
        · omega

theorem length_padded {width n : Nat} (positive : 0 < width) (small : n < 10 ^ width) :
    ((Nat.toDigits 10 n).leftpad width '0').length = width := by
  have fits := (Nat.length_toDigits_le_iff (by decide : 1 < 10) positive).mpr small
  rw [List.length_leftpad]
  omega

theorem ofDigitChars_padded (width n : Nat) : Nat.ofDigitChars 10 ((Nat.toDigits 10 n).leftpad width '0') 0 = n := by
  rw [List.leftpad, Nat.ofDigitChars_append, Nat.ofDigitChars_replicate_zero, Nat.mul_zero, Nat.ofDigitChars_ten_toDigits]

theorem padded_lt {width n m : Nat} (positive : 0 < width) (small : n < 10 ^ width) (small' : m < 10 ^ width) :
    (Nat.toDigits 10 n).leftpad width '0' < (Nat.toDigits 10 m).leftpad width '0' ↔ n < m := by
  rw [digits_lt_iff (a := 0) (fun c => digits_of_leftpad) (fun c => digits_of_leftpad)
    (by rw [length_padded positive small, length_padded positive small']), ofDigitChars_padded, ofDigitChars_padded]

theorem padded_inj {width n m : Nat} :
    (Nat.toDigits 10 n).leftpad width '0' = (Nat.toDigits 10 m).leftpad width '0' ↔ n = m := by
  refine ⟨fun same => ?_, fun same => by rw [same]⟩
  have values := congrArg (fun text => Nat.ofDigitChars 10 text 0) same
  rwa [ofDigitChars_padded, ofDigitChars_padded] at values

/-- A date of a year that has four digits. -/
structure Civil.Plain (date : Civil) : Prop where
  year : 0 ≤ date.year ∧ date.year < 10000
  month : date.month < 100
  day : date.day < 100

variable {a b : Civil}

theorem Civil.Plain.yearText (plain : a.Plain) : yearText a.year = (Nat.toDigits 10 a.year.natAbs).leftpad 4 '0' :=
  if_pos plain.year

theorem Civil.Plain.length_dateText (plain : a.Plain) : (dateText a).length = 10 := by
  have year := plain.year
  simp only [dateText, twoDigits, List.length_append, List.length_cons, plain.yearText, length_padded (by decide : 0 < 2) plain.month,
    length_padded (by decide : 0 < 2) plain.day, length_padded (by decide : 0 < 4) (show a.year.natAbs < 10 ^ 4 by omega)]

/-- Dates of four-digit years stand in the order of time. -/
theorem Civil.Plain.dateText_lt (plain : a.Plain) (plain' : b.Plain) : dateText a < dateText b ↔ a.Earlier b := by
  have year := plain.year
  have year' := plain'.year
  have small : a.year.natAbs < 10 ^ 4 := by omega
  have small' : b.year.natAbs < 10 ^ 4 := by omega
  have years : a.year.natAbs < b.year.natAbs ↔ a.year < b.year := by omega
  have same : a.year.natAbs = b.year.natAbs ↔ a.year = b.year := by omega
  unfold dateText twoDigits Civil.Earlier
  rw [lex_append (by rw [plain.yearText, plain'.yearText, length_padded (by decide) small, length_padded (by decide) small']),
    plain.yearText, plain'.yearText, padded_lt (by decide) small small', padded_inj, years, same]
  refine or_congr_right (and_congr_right fun _ => ?_)
  rw [List.cons_lt_cons_iff, lex_append (by rw [length_padded (by decide) plain.month, length_padded (by decide) plain'.month]),
    padded_lt (by decide) plain.month plain'.month, padded_inj, List.cons_lt_cons_iff,
    padded_lt (by decide) plain.day plain'.day]
  simp

theorem Calendar.plain (calendar : Calendar) {n : Int} (year : 0 ≤ (calendar.civil n).year ∧ (calendar.civil n).year < 10000) :
    (calendar.civil n).Plain :=
  ⟨year, (calendar.small n).1, (calendar.small n).2⟩

theorem Civil.Earlier.asymm (earlier : a.Earlier b) : ¬ b.Earlier a := by
  unfold Civil.Earlier at *
  omega

/-- Days stand in the order of their dates. -/
theorem Calendar.earlier_iff (calendar : Calendar) {m n : Int} (inside : calendar.representable m = true)
    (inside' : calendar.representable n = true) : (calendar.civil m).Earlier (calendar.civil n) ↔ m < n := by
  refine ⟨fun earlier => ?_, calendar.ordered m n inside inside'⟩
  rcases Int.lt_trichotomy m n with less | rfl | more
  · exact less
  · exact absurd earlier earlier.asymm
  · exact absurd earlier (calendar.ordered n m inside' inside more).asymm

end Order

end NixHomeServer.Search
