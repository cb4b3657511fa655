import NixHomeServer.Library.ByteRanges
import NixHomeServer.Library.Checked

/-! The byte range that a request asks for: the parser against the grammar of HTTP, and when it
answers as the grammar does. -/
namespace NixHomeServer.HomelabCommon

open NixHomeServer.Library
open NixHomeServer.Library.ByteRange (Written)

abbrev Text := List Char

section Parser

def unitPrefix : Text := ['b', 'y', 't', 'e', 's', '=']

def parseU64 (text : Text) : Option Nat := parseUnsigned 10 (2 ^ 64) text

/-- The end of a range that starts at a given position, cut at the last byte. -/
def lastPosition (rawEnd : Text) (size : Nat) : Checked Empty (Option Nat) :=
  if rawEnd = [] then do return some (← Checked.minus size 1)
  else match parseU64 rawEnd with
    | none => return none
    | some stop => do return some (min stop (← Checked.minus size 1))

/-- The two sides of the first dash. -/
def rangeOf (rawStart rawEnd : Text) (size : Nat) : Checked Empty (Option (Nat × Nat)) :=
  if rawStart = [] ∧ rawEnd = [] ∨ size = 0 then return none
  else if rawStart = [] then
    match parseU64 rawEnd with
    | none => return none
    | some suffix =>
      if suffix = 0 then return none
      else do return some (size - suffix, ← Checked.minus size 1)
  else match parseU64 rawStart with
    | none => return none
    | some start =>
      if size ≤ start then return none
      else do
        match ← lastPosition rawEnd size with
        | none => return none
        | some stop => if start ≤ stop then return some (start, stop) else return none

def parseRange (header : Option Text) (size : UInt64) : Checked Empty (Option (Nat × Nat)) :=
  match header.bind fun text => (trim text).dropPrefix? unitPrefix with
  | none => return none
  | some value =>
    if ',' ∈ value then return none
    else match cutAt '-' value with
      | none => return none
      | some (rawStart, rawEnd) => rangeOf rawStart rawEnd size.toNat

end Parser

section Grammar

variable {text value a b : Text} {range range' : ByteRange} {size n : Nat} {number : Text → Option Nat}

/-- A header that asks for one range, in a given way to write numbers. -/
def Reads (number : Text → Option Nat) (text : Text) (range : ByteRange) : Prop :=
  ∃ value, trim text = unitPrefix ++ value ∧ Written number value range

theorem unsigned_chars (read : unsigned 10 text = some n) : text ≠ [] ∧ ∀ c ∈ text, c = '+' ∨ c.isDigit = true := by
  have bounded : parseUnsigned 10 (n + 1) text = some n := by simp [parseUnsigned_eq, read]
  obtain ⟨filled, chars⟩ := chars_of_parseUnsigned bounded
  refine ⟨filled, fun c member => (chars c member).imp_right ?_⟩
  rintro ⟨d, digit⟩
  obtain ⟨low, high, -⟩ := digitOf_decimal.mp digit
  exact isDigit_iff.mpr ⟨low, high⟩

theorem unsigned_undashed (text : Text) (n : Nat) (read : unsigned 10 text = some n) : text ≠ [] ∧ '-' ∉ text := by
  obtain ⟨filled, chars⟩ := unsigned_chars read
  exact ⟨filled, fun member => (chars '-' member).elim (by decide) (by decide)⟩

theorem parseU64_eq (text : Text) : parseU64 text = (unsigned 10 text).filter (· < 2 ^ 64) := parseUnsigned_eq 10 (2 ^ 64) text

theorem parseU64_undashed (text : Text) (n : Nat) (read : parseU64 text = some n) : text ≠ [] ∧ '-' ∉ text := by
  rw [parseU64_eq] at read
  exact unsigned_undashed text n (Option.filter_eq_some_iff.mp read).1

theorem unsigned_of_plain (plain : '+' ∉ text) : unsigned 10 text = numeral 10 text := by
  unfold unsigned
  split
  · exact absurd List.mem_cons_self plain
  · rfl

theorem plain_of_numeral (read : numeral 10 text = some n) : '+' ∉ text := by
  intro member
  obtain ⟨-, digits⟩ := digits_of_numeral read
  obtain ⟨d, digit⟩ := digits '+' member
  obtain ⟨low, -⟩ := digitOf_decimal.mp digit
  exact absurd low (by decide)

/-- The grammar is what the integer parser reads, less its plus signs. -/
theorem written_plain : Written (numeral 10) value range ↔ Written (unsigned 10) value range ∧ '+' ∉ value := by
  constructor
  · intro written
    constructor
    · refine written.mono fun part n _ read => ?_
      rw [unsigned_of_plain (plain_of_numeral read), read]
    · have others : ∀ c ∈ value, c ≠ '+' := written.chars (by decide) fun part n read c member same =>
        plain_of_numeral read (same ▸ member)
      exact fun member => others '+' member rfl
  · rintro ⟨written, plain⟩
    refine written.mono fun part n inside read => ?_
    rw [← unsigned_of_plain fun member => plain (inside '+' member), read]

theorem reads_plain : Reads (numeral 10) text range ↔ Reads (unsigned 10) text range ∧ '+' ∉ trim text := by
  constructor
  · rintro ⟨value, whole, written⟩
    obtain ⟨signed, plain⟩ := written_plain.mp written
    refine ⟨⟨value, whole, signed⟩, ?_⟩
    simp [whole, unitPrefix, plain]
  · rintro ⟨⟨value, whole, written⟩, plain⟩
    refine ⟨value, whole, written_plain.mpr ⟨written, fun member => plain ?_⟩⟩
    rw [whole]
    exact List.mem_append_right unitPrefix member

theorem reads_u64 : Reads parseU64 text range ↔ Reads (unsigned 10) text range ∧ range.Below (2 ^ 64) := by
  simp only [Reads, ByteRange.written_bounded parseU64_eq, ← and_assoc, exists_and_right]

theorem reads_unique (first : Reads (unsigned 10) text range) (second : Reads (unsigned 10) text range') : range = range' := by
  obtain ⟨value, whole, written⟩ := first
  obtain ⟨value', whole', written'⟩ := second
  obtain rfl : value = value' := List.append_cancel_left (whole.symm.trans whole')
  obtain ⟨a, b, cut, read⟩ := (ByteRange.written_iff unsigned_undashed).mp written
  obtain ⟨a', b', cut', read'⟩ := (ByteRange.written_iff unsigned_undashed).mp written'
  cases cut.symm.trans cut'
  exact Option.some.inj (read.symm.trans read')

end Grammar

section Results

variable {header : Option Text} {size : UInt64} {start stop : Nat} {pair : Nat × Nat}

theorem minus_one {n : Nat} (filled : n ≠ 0) : (Checked.minus n 1 : Checked Empty Nat) = .returns (n - 1) :=
  if_pos (Nat.one_le_iff_ne_zero.mpr filled)

theorem lastPosition_eq (b : Text) {n : Nat} (filled : n ≠ 0) :
    lastPosition b n = .returns (if b = [] then some (n - 1) else (parseU64 b).map (min · (n - 1))) := by
  unfold lastPosition
  split
  · rw [minus_one filled]
    rfl
  · cases parseU64 b with
    | none => rfl
    | some stop =>
      simp only [minus_one filled]
      rfl

/-- The branches are the range that the two sides stand for, and what it selects. -/
theorem rangeOf_eq (a b : Text) (n : Nat) : rangeOf a b n = .returns ((ByteRange.parts parseU64 a b).bind (·.selects n)) := by
  have empty : parseU64 [] = none := rfl
  unfold rangeOf
  by_cases zero : n = 0
  · rw [if_pos (.inr zero)]
    have nothing : ∀ range : ByteRange, range.selects n = none := by
      rintro (⟨first, _ | last⟩ | length) <;> simp [ByteRange.selects, zero]
    simp [nothing]
  · by_cases left : a = []
    · by_cases right : b = []
      · simp [left, right, ByteRange.parts, empty]
      · rw [if_neg (by simp [right, zero]), if_pos left, ByteRange.parts, if_pos left]
        cases parseU64 b with
        | none => rfl
        | some suffix =>
          by_cases blank : suffix = 0
          · simp [blank, ByteRange.selects]
          · simp [blank, ByteRange.selects, minus_one zero, Nat.pos_iff_ne_zero, zero]
    · rw [if_neg (by simp [left, zero]), if_neg left, ByteRange.parts, if_neg left, lastPosition_eq b zero]
      cases parseU64 a with
      | none => cases b <;> rfl
      | some first =>
        by_cases right : b = []
        · by_cases past : n ≤ first
          · simp [right, past, ByteRange.selects]
          · have reaches : first ≤ n - 1 := by omega
            simp [right, past, ByteRange.selects, reaches, Nat.lt_of_not_le past]
        · cases parseU64 b with
          | none => simp [right]
          | some last =>
            by_cases past : n ≤ first
            · simp [right, past, ByteRange.selects, Nat.not_lt_of_le past]
            · have sorted : first ≤ min last (n - 1) ↔ first ≤ last := by omega
              by_cases inverted : first ≤ last
              · simp [right, past, ByteRange.selects, sorted, inverted]
              · simp [right, past, ByteRange.selects, sorted, inverted]

theorem no_comma {value : Text} {range : ByteRange} (written : Written parseU64 value range) : ',' ∉ value := by
  have others : ∀ c ∈ value, c ≠ ',' := written.chars (by decide) fun part n read c member same => by
    rw [parseU64_eq] at read
    obtain ⟨-, chars⟩ := unsigned_chars (Option.filter_eq_some_iff.mp read).1
    exact (chars c member).elim (by simp [same]) (by simp [same])
  exact fun member => others ',' member rfl

/-- The parser gives what the header selects, where it reads as a range in numbers of 64 bits. -/
theorem parseRange_returns (header : Option Text) (size : UInt64) : ∃ result, parseRange header size = .returns result ∧
    ∀ pair, result = some pair ↔
      ∃ text ∈ header, ∃ range, Reads parseU64 text range ∧ range.selects size.toNat = some pair := by
  -- what the header says after its unit, whichever way that is put
  have after : ∀ value, (header.bind fun text => (trim text).dropPrefix? unitPrefix) = some value ↔
      ∃ text ∈ header, trim text = unitPrefix ++ value := by
    simp [Option.bind_eq_some_iff, List.dropPrefix?_eq_some_iff]
  have asked : ∀ pair, (∃ text ∈ header, ∃ range, Reads parseU64 text range ∧ range.selects size.toNat = some pair) ↔
      ∃ value, (header.bind fun text => (trim text).dropPrefix? unitPrefix) = some value ∧
        ∃ range, Written parseU64 value range ∧ range.selects size.toNat = some pair := by
    intro pair
    constructor
    · rintro ⟨text, there, range, ⟨value, whole, written⟩, selected⟩
      exact ⟨value, (after value).mpr ⟨text, there, whole⟩, range, written, selected⟩
    · rintro ⟨value, rest, range, written, selected⟩
      obtain ⟨text, there, whole⟩ := (after value).mp rest
      exact ⟨text, there, range, ⟨value, whole, written⟩, selected⟩
  simp only [asked]
  unfold parseRange
  cases (header.bind fun text => (trim text).dropPrefix? unitPrefix) with
  | none => exact ⟨none, rfl, by simp⟩
  | some value =>
    simp only [Option.some.injEq, exists_eq_left']
    split
    · rename_i comma
      exact ⟨none, rfl, fun pair => ⟨nofun, fun ⟨range, written, _⟩ => absurd comma (no_comma written)⟩⟩
    · cases cut : cutAt '-' value with
      | none =>
        refine ⟨none, rfl, fun pair => ⟨nofun, ?_⟩⟩
        rintro ⟨range, written, -⟩
        obtain ⟨a, b, cut', -⟩ := (ByteRange.written_iff parseU64_undashed).mp written
        cases cut.symm.trans cut'
      | some sides =>
        obtain ⟨rawStart, rawEnd⟩ := sides
        refine ⟨_, rangeOf_eq rawStart rawEnd size.toNat, fun pair => ?_⟩
        rw [Option.bind_eq_some_iff]
        refine exists_congr fun range => and_congr_left fun _ => ?_
        simp [ByteRange.written_iff parseU64_undashed, cut]

variable (header size) in
/-- The answer is that of the grammar: a range inside the file where the header asks for one, and no
arithmetic goes wrong. -/
structure Follows : Prop where
  total : parseRange header size ≠ .panics
  within {start stop : Nat} : parseRange header size = .returns (some (start, stop)) → start ≤ stop ∧ stop < size.toNat
  agrees (pair : Nat × Nat) : parseRange header size = .returns (some pair) ↔
    ∃ text ∈ header, ∃ range, Reads (numeral 10) text range ∧ range.selects size.toNat = some pair

/-- A range that can be satisfied is answered as the grammar says unless a plus sign stands in it, or its
last position or the length of its suffix is beyond 64 bits; where both are the case, it is refused as it
should be. -/
theorem follows_iff : Follows header size ↔ ∀ text ∈ header, ∀ range, Reads (unsigned 10) text range →
    (range.selects size.toNat).isSome → ('+' ∈ trim text ↔ ∃ n ∈ range.limit, 2 ^ 64 ≤ n) := by
  obtain ⟨result, returned, answers⟩ := parseRange_returns header size
  have answered : ∀ pair, parseRange header size = .returns (some pair) ↔
      ∃ text ∈ header, ∃ range, Reads parseU64 text range ∧ range.selects size.toNat = some pair := by
    intro pair
    rw [← answers pair, returned, Checked.returns.injEq]
  have bounded : ∀ range : ByteRange, (range.selects size.toNat).isSome →
      (range.Below (2 ^ 64) ↔ ¬ ∃ n ∈ range.limit, 2 ^ 64 ≤ n) := by
    intro range selected
    rw [ByteRange.below_iff selected (Nat.le_of_lt size.toNat_lt)]
    simp
  constructor
  · intro follows text there range read selected
    obtain ⟨pair, found⟩ := Option.isSome_iff_exists.mp selected
    have same := (answered pair).symm.trans (follows.agrees pair)
    by_contra odd
    by_cases plus : '+' ∈ trim text
    · have below : range.Below (2 ^ 64) := (bounded range selected).mpr fun large => odd ⟨fun _ => large, fun _ => plus⟩
      obtain ⟨text', there', range', read', -⟩ := same.mp ⟨text, there, range, reads_u64.mpr ⟨read, below⟩, found⟩
      cases there.symm.trans there'
      exact (reads_plain.mp read').2 plus
    · obtain ⟨text', there', range', read', -⟩ := same.mpr ⟨text, there, range, reads_plain.mpr ⟨read, plus⟩, found⟩
      cases there.symm.trans there'
      obtain ⟨read', below⟩ := reads_u64.mp read'
      cases reads_unique read read'
      exact odd (by simpa [plus] using (bounded range selected).mp below)
  · intro condition
    refine ⟨by simp [returned], fun answer => ?_, fun pair => (answered pair).trans ?_⟩
    · obtain ⟨text, there, range, read, selected⟩ := (answered _).mp answer
      exact ByteRange.selects_within selected
    · have each : ∀ text ∈ header, ∀ range, range.selects size.toNat = some pair →
          (Reads parseU64 text range ↔ Reads (numeral 10) text range) := by
        intro text there range selected
        rw [reads_u64, reads_plain]
        refine and_congr_right fun read => ?_
        have selects : (range.selects size.toNat).isSome := by simp [selected]
        rw [bounded range selects, condition text there range read selects]
      constructor
      · rintro ⟨text, there, range, read, selected⟩
        exact ⟨text, there, range, (each text there range selected).mp read, selected⟩
      · rintro ⟨text, there, range, read, selected⟩
        exact ⟨text, there, range, (each text there range selected).mpr read, selected⟩

/-- A plus sign is taken for a part of the number. -/
theorem not_follows : ¬ Follows (some ("bytes=+0-4".toList)) 10 := by
  intro follows
  obtain ⟨text, there, range, read, -⟩ := (follows.agrees (0, 4)).mp (by decide +kernel)
  cases there
  exact (reads_plain.mp read).2 (by decide +kernel)

end Results

end NixHomeServer.HomelabCommon
