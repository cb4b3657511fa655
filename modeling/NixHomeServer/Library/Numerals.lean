import Mathlib.Algebra.Group.Nat.Defs
/-! Numerals as the integer parsers of a standard library read them: an optional
sign, then digits of a radix, within the bounds of the type. -/
namespace NixHomeServer.Library

def digitOf (radix : Nat) (c : Char) : Option Nat :=
  let n := c.toNat
  let value :=
    if 48 ≤ n ∧ n ≤ 57 then some (n - 48)
    else if 97 ≤ n ∧ n ≤ 122 then some (n - 87)
    else if 65 ≤ n ∧ n ≤ 90 then some (n - 55)
    else none
  value.filter (· < radix)

def digitsFrom (radix start : Nat) (text : List Char) : Option Nat :=
  text.foldlM (fun n c => (digitOf radix c).map (n * radix + ·)) start

/-- The number that a text of digits stands for; no digits stand for none. -/
def numeral (radix : Nat) (text : List Char) : Option Nat :=
  if text = [] then none else digitsFrom radix 0 text

/-- Digits after an optional plus sign. -/
def unsigned (radix : Nat) (text : List Char) : Option Nat :=
  numeral radix (match text with
    | '+' :: rest => rest
    | rest => rest)

/-- An unsigned type below `bound`. -/
def parseUnsigned (radix bound : Nat) (text : List Char) : Option Nat :=
  let digits := match text with
    | '+' :: rest => rest
    | rest => rest
  (numeral radix digits).filter (· < bound)

/-- A signed type from `-bound` up to below `bound`. -/
def parseSigned (bound : Nat) : List Char → Option Int
  | '+' :: rest => ((numeral 10 rest).filter (· < bound)).map fun n : Nat => (n : Int)
  | '-' :: rest => ((numeral 10 rest).filter (· ≤ bound)).map fun n : Nat => -(n : Int)
  | rest => ((numeral 10 rest).filter (· < bound)).map fun n : Nat => (n : Int)

theorem parseUnsigned_eq (radix bound : Nat) (text : List Char) :
    parseUnsigned radix bound text = (unsigned radix text).filter (· < bound) := rfl

section Digits

variable {radix n : Nat}

theorem alphanumeric_of_digitOf {c : Char} {d : Nat} (digit : digitOf radix c = some d) :
    (48 ≤ c.toNat ∧ c.toNat ≤ 57) ∨ (97 ≤ c.toNat ∧ c.toNat ≤ 122) ∨ (65 ≤ c.toNat ∧ c.toNat ≤ 90) := by
  obtain ⟨found, -⟩ := Option.filter_eq_some_iff.mp digit
  split at found
  · exact .inl ‹_›
  · split at found
    · exact .inr (.inl ‹_›)
    · split at found
      · exact .inr (.inr ‹_›)
      · cases found

theorem digitOf_decimal {c : Char} {d : Nat} :
    digitOf 10 c = some d ↔ 48 ≤ c.toNat ∧ c.toNat ≤ 57 ∧ d = c.toNat - 48 := by
  unfold digitOf
  rw [Option.filter_eq_some_iff]
  split
  · simp only [Option.some.injEq, decide_eq_true_eq]
    omega
  · split
    · simp only [Option.some.injEq, decide_eq_true_eq]
      omega
    · split
      · simp only [Option.some.injEq, decide_eq_true_eq]
        omega
      · simp only [reduceCtorEq, false_and, false_iff]
        omega

theorem digitsFrom_cons {start : Nat} {c : Char} {text : List Char} :
    digitsFrom radix start (c :: text) = some n ↔
      ∃ d, digitOf radix c = some d ∧ digitsFrom radix (start * radix + d) text = some n := by
  simp only [digitsFrom, List.foldlM_cons, Option.bind_eq_bind, Option.bind_eq_some_iff, Option.map_eq_some_iff]
  constructor
  · rintro ⟨m, ⟨d, digit, rfl⟩, rest⟩
    exact ⟨d, digit, rest⟩
  · rintro ⟨d, digit, rest⟩
    exact ⟨_, ⟨d, digit, rfl⟩, rest⟩

theorem digits_of_digitsFrom {start : Nat} {text : List Char} (read : digitsFrom radix start text = some n) :
    ∀ c ∈ text, ∃ d, digitOf radix c = some d := by
  induction text generalizing start with
  | nil => exact fun c member => absurd member List.not_mem_nil
  | cons c rest ih =>
    obtain ⟨d, digit, tail⟩ := digitsFrom_cons.mp read
    intro x member
    rcases List.mem_cons.mp member with rfl | later
    · exact ⟨d, digit⟩
    · exact ih tail x later

theorem digits_of_numeral {text : List Char} (read : numeral radix text = some n) :
    text ≠ [] ∧ ∀ c ∈ text, ∃ d, digitOf radix c = some d := by
  unfold numeral at read
  split at read
  · cases read
  · exact ⟨‹_›, digits_of_digitsFrom read⟩

theorem numeral_two {a b : Char} :
    numeral 10 [a, b] = some n ↔ ∃ x y, digitOf 10 a = some x ∧ digitOf 10 b = some y ∧ n = x * 10 + y := by
  have done : ∀ m, digitsFrom 10 m [] = some n ↔ n = m := fun m =>
    ⟨fun same => (Option.some.inj same).symm, fun same => congrArg some same.symm⟩
  simp only [numeral, if_neg (List.cons_ne_nil a [b]), digitsFrom_cons, done, Nat.zero_mul, Nat.zero_add]
  constructor
  · rintro ⟨x, first, y, second, rfl⟩
    exact ⟨x, y, first, second, rfl⟩
  · rintro ⟨x, y, first, second, rfl⟩
    exact ⟨x, first, y, second, rfl⟩

/-- A numeral starts with a sign or a digit and ends with a digit. -/
theorem chars_of_parseUnsigned {bound : Nat} {text : List Char} (read : parseUnsigned radix bound text = some n) :
    text ≠ [] ∧ ∀ c ∈ text, c = '+' ∨ ∃ d, digitOf radix c = some d := by
  unfold parseUnsigned at read
  obtain ⟨found, -⟩ := Option.filter_eq_some_iff.mp read
  split at found
  · obtain ⟨-, digits⟩ := digits_of_numeral found
    exact ⟨List.cons_ne_nil _ _, fun c member =>
      (List.mem_cons.mp member).imp_right fun later => digits c later⟩
  · obtain ⟨some_digit, digits⟩ := digits_of_numeral found
    exact ⟨some_digit, fun c member => .inr (digits c member)⟩

/-- So does a signed one. -/
theorem chars_of_parseSigned {bound : Nat} {text : List Char} {v : Int} (read : parseSigned bound text = some v) :
    text ≠ [] ∧ ∀ c ∈ text, c = '+' ∨ c = '-' ∨ ∃ d, digitOf 10 c = some d := by
  unfold parseSigned at read
  split at read
  all_goals
    obtain ⟨n, found, -⟩ := Option.map_eq_some_iff.mp read
    obtain ⟨numbered, -⟩ := Option.filter_eq_some_iff.mp found
    obtain ⟨some_digit, digits⟩ := digits_of_numeral numbered
  · exact ⟨List.cons_ne_nil _ _, fun c member =>
      (List.mem_cons.mp member).imp_right fun later => .inr (digits c later)⟩
  · refine ⟨List.cons_ne_nil _ _, fun c member => ?_⟩
    rcases List.mem_cons.mp member with same | later
    · exact .inr (.inl same)
    · exact .inr (.inr (digits c later))
  · exact ⟨some_digit, fun c member => .inr (.inr (digits c member))⟩

theorem parseSigned_unsigned {bound : Nat} {a : Char} {rest : List Char} (plus : a ≠ '+') (minus : a ≠ '-') :
    parseSigned bound (a :: rest) = ((numeral 10 (a :: rest)).filter (· < bound)).map fun n : Nat => (n : Int) := by
  unfold parseSigned
  split
  case h_1 first => exact absurd (List.cons.inj first).1 plus
  case h_2 first => exact absurd (List.cons.inj first).1 minus
  case h_3 => rfl

theorem lt_of_digitOf {c : Char} {d : Nat} (digit : digitOf radix c = some d) : d < radix := by
  simpa using (Option.filter_eq_some_iff.mp digit).2

theorem lt_of_digitsFrom {start : Nat} {text : List Char} (read : digitsFrom radix start text = some n) :
    n < (start + 1) * radix ^ text.length := by
  induction text generalizing start with
  | nil =>
    cases read
    rw [List.length_nil, Nat.pow_zero, Nat.mul_one]
    exact Nat.lt_succ_self n
  | cons c rest ih =>
    obtain ⟨d, digit, tail⟩ := digitsFrom_cons.mp read
    have below := lt_of_digitOf digit
    calc n < (start * radix + d + 1) * radix ^ rest.length := ih tail
      _ ≤ ((start + 1) * radix) * radix ^ rest.length := by
        refine Nat.mul_le_mul_right _ ?_
        rw [Nat.add_mul, Nat.one_mul]
        omega
      _ = (start + 1) * radix ^ (c :: rest).length := by
        rw [List.length_cons, Nat.pow_succ, Nat.mul_assoc, Nat.mul_comm radix]

theorem lt_of_numeral {text : List Char} (read : numeral radix text = some n) : n < radix ^ text.length := by
  unfold numeral at read
  split at read
  · cases read
  · simpa using lt_of_digitsFrom read

theorem lt_of_unsigned {text : List Char} (positive : 0 < radix) (read : unsigned radix text = some n) :
    n < radix ^ text.length := by
  unfold unsigned at read
  split at read
  · exact Nat.lt_of_lt_of_le (lt_of_numeral read) (Nat.pow_le_pow_right positive (Nat.le_succ _))
  · exact lt_of_numeral read

theorem isDigit_iff {c : Char} : c.isDigit = true ↔ 48 ≤ c.toNat ∧ c.toNat ≤ 57 := by
  simp only [Char.isDigit, Bool.and_eq_true, decide_eq_true_eq, UInt32.le_iff_toNat_le, ge_iff_le]
  rfl

theorem digitsFrom_of_digits {start : Nat} {text : List Char} (digits : ∀ c ∈ text, c.isDigit = true) :
    digitsFrom 10 start text = some (Nat.ofDigitChars 10 text start) := by
  induction text generalizing start with
  | nil => rw [Nat.ofDigitChars_nil]; rfl
  | cons c rest ih =>
    obtain ⟨low, high⟩ := isDigit_iff.mp (digits c List.mem_cons_self)
    rw [digitsFrom_cons, Nat.ofDigitChars_cons]
    refine ⟨c.toNat - 48, digitOf_decimal.mpr ⟨low, high, rfl⟩, ?_⟩
    rw [ih fun x member => digits x (List.mem_cons_of_mem _ member), Nat.mul_comm]
    rfl

theorem digits_of_leftpad {width : Nat} {c : Char} (member : c ∈ (Nat.toDigits 10 n).leftpad width '0') :
    c.isDigit = true := by
  rcases List.mem_append.mp member with padding | written
  · obtain ⟨-, rfl⟩ := List.mem_replicate.mp padding
    rfl
  · exact Nat.isDigit_of_mem_toDigits (by decide) (by decide) written

theorem leftpad_ne_nil (width n : Nat) : (Nat.toDigits 10 n).leftpad width '0' ≠ [] :=
  List.append_ne_nil_of_right_ne_nil _ Nat.toDigits_ne_nil

/-- A number written out, with zeros before it or not, is read back. -/
theorem numeral_leftpad (width n : Nat) : numeral 10 ((Nat.toDigits 10 n).leftpad width '0') = some n := by
  rw [numeral, if_neg (leftpad_ne_nil width n), digitsFrom_of_digits fun c => digits_of_leftpad, List.leftpad,
    Nat.ofDigitChars_append, Nat.ofDigitChars_replicate_zero, Nat.mul_zero, Nat.ofDigitChars_ten_toDigits]

theorem parseUnsigned_of_digits {bound : Nat} {text : List Char} (digits : ∀ c ∈ text, c.isDigit = true) :
    parseUnsigned radix bound text = (numeral radix text).filter (· < bound) := by
  unfold parseUnsigned
  split
  · exact absurd (digits '+' List.mem_cons_self) (by decide)
  · rfl

theorem parseUnsigned_leftpad {bound : Nat} (width : Nat) (small : n < bound) :
    parseUnsigned 10 bound ((Nat.toDigits 10 n).leftpad width '0') = some n := by
  rw [parseUnsigned_of_digits fun c => digits_of_leftpad, numeral_leftpad, Option.filter_some, decide_eq_true small,
    if_pos rfl]

end Digits

section Integers

/-- An integer as it is written out. -/
def intText (v : Int) : List Char := if v < 0 then '-' :: Nat.toDigits 10 v.natAbs else Nat.toDigits 10 v.natAbs

variable {v w : Int}

theorem parseSigned_intText {v : Int} {bound : Nat} (low : -(bound : Int) ≤ v) (high : v < bound) : parseSigned bound (intText v) = some v := by
  have digits : numeral 10 (Nat.toDigits 10 v.natAbs) = some v.natAbs := by simpa [List.leftpad] using numeral_leftpad 0 v.natAbs
  unfold intText
  split
  · have within : v.natAbs ≤ bound := by omega
    simp only [parseSigned, digits, Option.filter_some, within, decide_true, if_true, Option.map_some, Option.some.injEq]
    omega
  · have within : v.natAbs < bound := by omega
    obtain ⟨c, rest, whole⟩ := List.exists_cons_of_ne_nil (Nat.toDigits_ne_nil (b := 10) (n := v.natAbs))
    have digit : c.isDigit = true := Nat.isDigit_of_mem_toDigits (by decide) (by decide) (whole ▸ List.mem_cons_self)
    rw [whole] at digits ⊢
    rw [parseSigned_unsigned (by rintro rfl; cases digit) (by rintro rfl; cases digit), digits]
    simp only [Option.filter_some, within, decide_true, if_true, Option.map_some, Option.some.injEq]
    omega

theorem intText_injective (same : intText v = intText w) : v = w := by
  have read (u : Int) (small : u.natAbs ≤ v.natAbs + w.natAbs) :
      parseSigned (v.natAbs + w.natAbs + 1) (intText u) = some u := parseSigned_intText (by omega) (by omega)
  have first := read v (by omega)
  rw [same, read w (by omega)] at first
  exact (Option.some.inj first).symm

theorem chars_of_intText {c : Char} (member : c ∈ intText v) : c = '-' ∨ c.isDigit = true := by
  have digit (inside : c ∈ Nat.toDigits 10 v.natAbs) : c.isDigit = true :=
    Nat.isDigit_of_mem_toDigits (by decide) (by decide) inside
  unfold intText at member
  split at member
  · exact (List.mem_cons.mp member).imp_right digit
  · exact .inr (digit member)

theorem intText_ne_nil (v : Int) : intText v ≠ [] := by
  unfold intText
  split
  · exact List.cons_ne_nil _ _
  · exact Nat.toDigits_ne_nil

end Integers

end NixHomeServer.Library
