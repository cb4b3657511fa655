import Mathlib.Data.Nat.Digits.Defs
import Mathlib.Tactic.Ring
import NixHomeServer.MediaManager.SubtitleFormat

/-! Which times can be read, and what they say. -/
namespace NixHomeServer.MediaManager.Subtitles

open NixHomeServer.Library

/-- From right to left. -/
def fieldsOf (token : List Char) : List (List Char) := ((splitTime token).1.splitOn ':').reverse

def fractionOf (token : List Char) : List Char := (splitTime token).2

/-- The fields from the right that are numbers, up to one that is none. -/
def readRun : List (List Char) → List Nat
  | [] => []
  | part :: rest =>
    match parseUnsigned 10 u64 part with
    | some value => value :: readRun rest
    | none => []

/-- The milliseconds that the fields read stand for, without the fraction. -/
def clockMs (token : List Char) : Nat := Nat.ofDigits 60 (readRun (fieldsOf token)) * 1000

def AllRead (token : List Char) : Prop := (readRun (fieldsOf token)).length = (fieldsOf token).length

instance (token : List Char) : Decidable (AllRead token) := inferInstanceAs (Decidable (_ = _))

def fractionMs (digits : List Char) (value : Nat) : Nat := value * 10 ^ (3 - (utf8 digits).length)

/-- The numbers of a time stay in range, and a whole fraction begins with three bytes that are characters. -/
structure Tame (token : List Char) : Prop where
  clock : clockMs token < u64
  fields : (readRun (fieldsOf token)).length ≤ 10
  boundary : AllRead token → (leadingBytes (fractionOf token)).isSome
  total : AllRead token → ∀ digits, leadingBytes (fractionOf token) = some digits →
    ∀ value, parseUnsigned 10 u64 digits = some value → clockMs token + fractionMs digits value < u64

/-- The fields and the fraction are numbers. -/
def Readable (token : List Char) : Prop :=
  AllRead token ∧ ∃ digits, leadingBytes (fractionOf token) = some digits ∧ (parseUnsigned 10 u64 digits).isSome

/-- Up to three digits of a fraction as milliseconds. -/
def thousandths (fraction : List Char) : Option Nat :=
  (numeral 10 (fraction.take 3)).map (· * 10 ^ (3 - (fraction.take 3).length))

/-- The time that is written: numbers of hours, minutes and seconds, further fields to the left
counting sixty of what is right of them, and a fraction in digits. -/
def Written (token : List Char) (ms : Nat) : Prop :=
  ∃ values fraction, List.Forall₂ (fun part value => unsigned 10 part = some value) (fieldsOf token) values ∧
    thousandths (fractionOf token) = some fraction ∧ ms = Nat.ofDigits 60 values * 1000 + fraction

/-- A sign is no digit. -/
def Unsigned (token : List Char) : Prop := (fractionOf token).head? ≠ some '+'

section Fields

theorem pow_sixty_lt {k : Nat} (small : k ≤ 10) : 60 ^ k < u64 :=
  Nat.lt_of_le_of_lt (Nat.pow_le_pow_right (by decide) small) (by decide)

theorem le_pow_sixty {k : Nat} (large : 10 < k) : u64 ≤ 60 ^ k :=
  Nat.le_trans (by decide : u64 ≤ 60 ^ 11) (Nat.pow_le_pow_right (by decide) large)

theorem readRun_some {part : List Char} {value : Nat} (rest : List (List Char))
    (read : parseUnsigned 10 u64 part = some value) : readRun (part :: rest) = value :: readRun rest := by
  rw [readRun, read]

theorem readRun_none {part : List Char} (rest : List (List Char)) (unread : parseUnsigned 10 u64 part = none) :
    readRun (part :: rest) = [] := by
  rw [readRun, unread]

/-- What the loop over the fields comes to: the range of the sum and of the last multiplier decide. -/
theorem addFields_eq (parts : List (List Char)) {total k : Nat} (small : total < u64) (early : k ≤ 10) :
    addFields parts total (60 ^ k) =
      if total + Nat.ofDigits 60 (readRun parts) * 60 ^ k * 1000 < u64 ∧ k + (readRun parts).length ≤ 10 then
        if (readRun parts).length = parts.length then
          .returns (total + Nat.ofDigits 60 (readRun parts) * 60 ^ k * 1000)
        else .fails ()
      else .panics := by
  induction parts generalizing total k with
  | nil => simp [addFields, readRun, small, early]
  | cons part rest ih =>
    rw [addFields]
    cases read : parseUnsigned 10 u64 part with
    | none =>
      simp [readRun_none rest read, small, early]
    | some value =>
      rw [readRun_some rest read, Nat.ofDigits_cons]
      have sum : (value + 60 * Nat.ofDigits 60 (readRun rest)) * 60 ^ k * 1000 =
          value * 60 ^ k * 1000 + Nat.ofDigits 60 (readRun rest) * 60 ^ (k + 1) * 1000 := by
        rw [Nat.pow_succ]
        ring
      simp only [sum, List.length_cons, Checked.ofOption_some, Checked.returns_bind]
      by_cases scaled : value * 60 ^ k < u64
      · by_cases ms : value * 60 ^ k * 1000 < u64
        · by_cases sum : total + value * 60 ^ k * 1000 < u64
          · by_cases last : k + 1 ≤ 10
            · have multiplier : 60 ^ k * 60 < u64 := pow_sixty_lt last
              rw [Checked.within_of_lt scaled, Checked.returns_bind, Checked.within_of_lt ms, Checked.returns_bind,
                Checked.within_of_lt sum, Checked.returns_bind, Checked.within_of_lt multiplier, Checked.returns_bind,
                ← Nat.pow_succ, ih sum last]
              simp only [Nat.add_assoc, Nat.add_comm 1, Nat.add_right_cancel_iff]
            · have multiplier : u64 ≤ 60 ^ k * 60 := le_pow_sixty (Nat.lt_of_not_le last)
              rw [Checked.within_of_lt scaled, Checked.returns_bind, Checked.within_of_lt ms, Checked.returns_bind,
                Checked.within_of_lt sum, Checked.returns_bind, Checked.within_of_le multiplier, Checked.panics_bind,
                if_neg (by omega)]
          · rw [Checked.within_of_lt scaled, Checked.returns_bind, Checked.within_of_lt ms, Checked.returns_bind,
              Checked.within_of_le (Nat.not_lt.mp sum), Checked.panics_bind, if_neg (by omega)]
        · rw [Checked.within_of_lt scaled, Checked.returns_bind, Checked.within_of_le (Nat.not_lt.mp ms),
            Checked.panics_bind, if_neg (by omega)]
      · rw [Checked.within_of_le (Nat.not_lt.mp scaled), Checked.panics_bind, if_neg (by omega)]

theorem addFields_eq_one (parts : List (List Char)) {total : Nat} (small : total < u64) :
    addFields parts total 60 =
      if total + Nat.ofDigits 60 (readRun parts) * 60 * 1000 < u64 ∧ (readRun parts).length + 1 ≤ 10 then
        if (readRun parts).length = parts.length then
          .returns (total + Nat.ofDigits 60 (readRun parts) * 60 * 1000)
        else .fails ()
      else .panics := by
  have run := addFields_eq parts small (by decide : 1 ≤ 10)
  rwa [Nat.add_comm 1, show 60 ^ 1 = 60 from rfl] at run

end Fields

section Tokens

variable {token : List Char}

theorem parseTime_eq (token : List Char) : parseTime token =
    if clockMs token < u64 ∧ (readRun (fieldsOf token)).length ≤ 10 then
      if AllRead token then do
        let digits ← .unwrap (leadingBytes (fractionOf token))
        let value ← .ofOption () (parseUnsigned 10 u64 digits)
        let ms ← .within u64 (fractionMs digits value)
        .within u64 (clockMs token + ms)
      else .fails ()
    else .panics := by
  obtain ⟨last, parts, fields⟩ : ∃ last parts, fieldsOf token = last :: parts :=
    List.exists_cons_of_ne_nil fun none => List.splitOn_ne_nil _ _ (List.reverse_eq_nil_iff.mp none)
  simp only [fieldsOf] at fields
  simp only [parseTime, clockMs, AllRead, fractionOf, fractionMs, fieldsOf, fields]
  rcases Option.eq_none_or_eq_some (parseUnsigned 10 u64 last) with read | ⟨seconds, read⟩
  · have zero : Nat.ofDigits 60 ([] : List Nat) * 1000 < u64 := by decide
    rw [readRun_none parts read, read, if_pos ⟨zero, Nat.zero_le _⟩, if_neg (by simp)]
    rfl
  · rw [readRun_some parts read, Nat.ofDigits_cons, read]
    have sum : (seconds + 60 * Nat.ofDigits 60 (readRun parts)) * 1000 =
        seconds * 1000 + Nat.ofDigits 60 (readRun parts) * 60 * 1000 := by
      ring
    simp only [sum, List.length_cons, Checked.ofOption_some, Checked.returns_bind]
    by_cases small : seconds * 1000 < u64
    · rw [Checked.within_of_lt small, Checked.returns_bind, addFields_eq_one parts small]
      by_cases fits : seconds * 1000 + Nat.ofDigits 60 (readRun parts) * 60 * 1000 < u64 ∧ (readRun parts).length + 1 ≤ 10
      · rw [if_pos fits, if_pos fits]
        by_cases all : (readRun parts).length = parts.length
        · rw [if_pos all, if_pos (congrArg (· + 1) all), Checked.returns_bind]
        · rw [if_neg all, if_neg (fun same => all (Nat.add_right_cancel same)), Checked.fails_bind]
      · rw [if_neg fits, if_neg fits, Checked.panics_bind]
    · rw [Checked.within_of_le (Nat.not_lt.mp small), Checked.panics_bind, if_neg (by omega)]

theorem leadingBytes_eq_some {fraction digits : List Char} (led : leadingBytes fraction = some digits) :
    ∃ right, fraction = digits ++ right ∧ (utf8 digits).length = min (utf8 fraction).length 3 := by
  obtain ⟨⟨left, right⟩, cut, rfl⟩ := Option.map_eq_some_iff.mp led
  obtain ⟨whole, size⟩ := splitAtByte_eq_some cut
  exact ⟨right, whole, size⟩

theorem fractionMs_lt {fraction digits : List Char} {value : Nat} (led : leadingBytes fraction = some digits)
    (read : parseUnsigned 10 u64 digits = some value) : fractionMs digits value < u64 := by
  obtain ⟨right, -, size⟩ := leadingBytes_eq_some led
  rw [parseUnsigned_eq] at read
  have below := lt_of_unsigned (by decide) (Option.filter_eq_some_iff.mp read).1
  have short : (utf8 digits).length ≤ 3 := size ▸ Nat.min_le_right _ _
  calc fractionMs digits value
      < 10 ^ digits.length * 10 ^ (3 - (utf8 digits).length) :=
        Nat.mul_lt_mul_of_pos_right below (Nat.pow_pos (by decide))
    _ ≤ 10 ^ (utf8 digits).length * 10 ^ (3 - (utf8 digits).length) :=
        Nat.mul_le_mul_right _ (Nat.pow_le_pow_right (by decide) (length_le_utf8 digits))
    _ = 10 ^ 3 := by rw [← Nat.pow_add, Nat.add_sub_cancel' short]
    _ < u64 := by decide

theorem parseTime_of_not_tame (wild : ¬ Tame token) : parseTime token = .panics := by
  rw [parseTime_eq]
  split
  · rename_i clock
    split
    · rename_i all
      cases led : leadingBytes (fractionOf token) with
      | none => rfl
      | some digits =>
        cases read : parseUnsigned 10 u64 digits with
        | none =>
          refine absurd ⟨clock.1, clock.2, fun _ => led ▸ rfl, fun _ found same value number => ?_⟩ wild
          cases led.symm.trans same
          cases read.symm.trans number
        | some value =>
          simp only [Checked.unwrap_some, Checked.returns_bind, Checked.ofOption_some, read,
            Checked.within_of_lt (fractionMs_lt led read)]
          refine Checked.within_of_le (Nat.not_lt.mp fun fits => wild ⟨clock.1, clock.2, fun _ => led ▸ rfl, ?_⟩)
          intro _ found same number there
          cases led.symm.trans same
          cases read.symm.trans there
          exact fits
    · rename_i unread
      exact absurd ⟨clock.1, clock.2, fun all => absurd all unread, fun all => absurd all unread⟩ wild
  · rfl

theorem parseTime_of_not_readable (tame : Tame token) (unreadable : ¬ Readable token) : parseTime token = .fails () := by
  rw [parseTime_eq, if_pos ⟨tame.clock, tame.fields⟩]
  split
  · rename_i all
    obtain ⟨digits, led⟩ := Option.isSome_iff_exists.mp (tame.boundary all)
    have unread : parseUnsigned 10 u64 digits = none :=
      Option.not_isSome_iff_eq_none.mp fun read => unreadable ⟨all, digits, led, read⟩
    simp only [led, Checked.unwrap_some, Checked.returns_bind, unread, Checked.ofOption_none, Checked.fails_bind]
  · rfl

theorem parseTime_of_readable (tame : Tame token) (readable : Readable token) :
    ∃ digits value, leadingBytes (fractionOf token) = some digits ∧ parseUnsigned 10 u64 digits = some value ∧
      clockMs token + fractionMs digits value < u64 ∧
      parseTime token = .returns (clockMs token + fractionMs digits value) := by
  obtain ⟨all, digits, led, read⟩ := readable
  obtain ⟨value, read⟩ := Option.isSome_iff_exists.mp read
  have fits := tame.total all digits led value read
  refine ⟨digits, value, led, read, fits, ?_⟩
  rw [parseTime_eq, if_pos ⟨tame.clock, tame.fields⟩, if_pos all]
  simp only [led, Checked.unwrap_some, Checked.returns_bind, read, Checked.ofOption_some,
    Checked.within_of_lt (fractionMs_lt led read), Checked.within_of_lt fits]

theorem unsigned_of_readRun {parts : List (List Char)} (all : (readRun parts).length = parts.length) :
    List.Forall₂ (fun part value => unsigned 10 part = some value) parts (readRun parts) := by
  induction parts with
  | nil => exact .nil
  | cons part rest ih =>
    cases read : parseUnsigned 10 u64 part with
    | none =>
      rw [readRun_none rest read] at all
      cases all
    | some value =>
      rw [readRun_some rest read] at all ⊢
      rw [parseUnsigned_eq] at read
      exact .cons (Option.filter_eq_some_iff.mp read).1 (ih (Nat.succ.inj all))

/-- The bytes taken are the first three digits. -/
theorem thousandths_of_leading {fraction digits : List Char} {value : Nat} (led : leadingBytes fraction = some digits)
    (read : parseUnsigned 10 u64 digits = some value) (plain : fraction.head? ≠ some '+') :
    thousandths fraction = some (fractionMs digits value) := by
  obtain ⟨right, rfl, size⟩ := leadingBytes_eq_some led
  have number : numeral 10 digits = some value := by
    rw [parseUnsigned_eq] at read
    have found := (Option.filter_eq_some_iff.mp read).1
    unfold unsigned at found
    split at found
    · exact absurd rfl plain
    · exact found
  have small : ∀ c ∈ digits, c.toNat < 128 := fun c member => by
    obtain ⟨d, digit⟩ := (digits_of_numeral number).2 c member
    have := (digitOf_decimal.mp digit).2.1
    omega
  have bytes := length_utf8_of_ascii small
  have taken : (digits ++ right).take 3 = digits := by
    rw [utf8_append, List.length_append] at size
    by_cases short : digits.length = 3
    · rw [List.take_append_of_le_length (by omega), List.take_of_length_le (by omega)]
    · have rightless := length_le_utf8 right
      have none : right = [] := List.eq_nil_of_length_eq_zero (by omega)
      rw [none, List.append_nil, List.take_of_length_le (by omega)]
  rw [thousandths, taken, number, fractionMs, bytes]
  rfl

theorem unsigned_of_written {ms : Nat} (written : Written token ms) : Unsigned token := by
  obtain ⟨values, fraction, -, found, -⟩ := written
  intro signed
  obtain ⟨rest, starts⟩ : ∃ rest, fractionOf token = '+' :: rest := by
    cases whole : fractionOf token with
    | nil => rw [whole] at signed; cases signed
    | cons c rest => rw [whole] at signed; cases signed; exact ⟨rest, rfl⟩
  obtain ⟨number, read, -⟩ := Option.map_eq_some_iff.mp found
  rw [starts, List.take_succ_cons] at read
  obtain ⟨d, digit⟩ := (digits_of_numeral read).2 '+' List.mem_cons_self
  cases digit

/-- A time that is read without a signed fraction is the one that is written. -/
theorem written_of_parseTime {ms : Nat} (tame : Tame token) (readable : Readable token) (plain : Unsigned token)
    (returned : parseTime token = .returns ms) : Written token ms := by
  obtain ⟨digits, value, led, read, -, result⟩ := parseTime_of_readable tame readable
  cases result.symm.trans returned
  exact ⟨_, _, unsigned_of_readRun readable.1, thousandths_of_leading led read plain, rfl⟩

end Tokens

end NixHomeServer.MediaManager.Subtitles
