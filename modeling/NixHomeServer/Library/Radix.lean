import Mathlib.Data.Nat.Digits.Lemmas

/-! Numbers by their digits, the highest first. -/
namespace NixHomeServer.Library

def number (radix : Nat) (digits : List Nat) : Nat := digits.foldl (fun n d => n * radix + d) 0

/-- So many digits of a number, the last ones of it. -/
def spread (radix : Nat) : Nat → Nat → List Nat
  | 0, _ => []
  | width + 1, n => spread radix width (n / radix) ++ [n % radix]

section Digits

variable {radix : Nat} {digits more : List Nat}

theorem number_eq_ofDigits (digits : List Nat) : number radix digits = Nat.ofDigits radix digits.reverse := by
  induction digits using List.reverseRecOn with
  | nil => rfl
  | append_singleton digits d ih =>
    rw [number, List.foldl_append, ← number, ih]
    simp [Nat.ofDigits_cons, Nat.mul_comm, Nat.add_comm]

theorem number_append (digits more : List Nat) :
    number radix (digits ++ more) = number radix digits * radix ^ more.length + number radix more := by
  simp [number_eq_ofDigits, Nat.ofDigits_append, Nat.mul_comm, Nat.add_comm]

@[simp] theorem number_concat (digits : List Nat) (d : Nat) : number radix (digits ++ [d]) = number radix digits * radix + d := by
  simp [number]

theorem number_lt (large : 1 < radix) (small : ∀ d ∈ digits, d < radix) : number radix digits < radix ^ digits.length := by
  have bound := Nat.ofDigits_lt_base_pow_length (l := digits.reverse) large (by simpa using small)
  simpa [number_eq_ofDigits] using bound

/-- Digits of the same number of places are those of the number. -/
theorem number_injective (large : 1 < radix) (small : ∀ d ∈ digits, d < radix) (small' : ∀ d ∈ more, d < radix)
    (length : digits.length = more.length) (same : number radix digits = number radix more) : digits = more := by
  rw [number_eq_ofDigits, number_eq_ofDigits] at same
  have reversed := Nat.ofDigits_inj_of_len_eq large (by simpa using length) (by simpa using small) (by simpa using small') same
  simpa using reversed

@[simp] theorem length_spread (width n : Nat) : (spread radix width n).length = width := by
  induction width generalizing n with
  | zero => rfl
  | succ width ih => simp [spread, ih]

theorem lt_of_mem_spread (positive : 0 < radix) {width n d : Nat} (member : d ∈ spread radix width n) : d < radix := by
  induction width generalizing n with
  | zero => exact absurd member List.not_mem_nil
  | succ width ih =>
    rcases List.mem_append.mp member with high | low
    · exact ih high
    · rw [List.mem_singleton.mp low]
      exact Nat.mod_lt n positive

theorem number_spread {width n : Nat} (small : n < radix ^ width) : number radix (spread radix width n) = n := by
  induction width generalizing n with
  | zero =>
    have zero : n = 0 := by simpa using small
    rw [zero]
    rfl
  | succ width ih =>
    have high : n / radix < radix ^ width := Nat.div_lt_of_lt_mul (by rwa [Nat.mul_comm, ← Nat.pow_succ])
    rw [spread, number_concat, ih high]
    exact Nat.div_add_mod' n radix

/-- Digits are found again in their number. -/
theorem spread_number (large : 1 < radix) (small : ∀ d ∈ digits, d < radix) :
    spread radix digits.length (number radix digits) = digits :=
  number_injective large (fun _ => lt_of_mem_spread (Nat.zero_lt_of_lt large)) small (length_spread _ _)
    (number_spread (number_lt large small))

end Digits

end NixHomeServer.Library
