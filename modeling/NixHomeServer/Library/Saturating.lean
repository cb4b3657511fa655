import Mathlib.Algebra.GroupWithZero.Nat
import Mathlib.Data.List.Sort
import Mathlib.Order.MinMax

/-! Unsigned sums and products that stop at a bound, and the least, middle and greatest of some numbers. -/
namespace NixHomeServer.Library

section Saturating

def satAdd (bound a b : Nat) : Nat := min (a + b) bound

def satMul (bound a b : Nat) : Nat := min (a * b) bound

def satSum (bound : Nat) (values : List Nat) : Nat := values.foldl (satAdd bound) 0

variable {bound a b c d : Nat}

theorem satAdd_le : satAdd bound a b ≤ bound := Nat.min_le_right _ _

theorem satMul_le : satMul bound a b ≤ bound := Nat.min_le_right _ _

theorem satAdd_mono (left : a ≤ c) (right : b ≤ d) : satAdd bound a b ≤ satAdd bound c d := by
  simp only [satAdd]
  omega

theorem satMul_mono (left : a ≤ c) (right : b ≤ d) : satMul bound a b ≤ satMul bound c d := by
  have product := Nat.mul_le_mul left right
  simp only [satMul]
  omega

theorem le_satMul (fits : a ≤ bound) (positive : 0 < b) : a ≤ satMul bound a b :=
  Nat.le_min.mpr ⟨Nat.le_mul_of_pos_right a positive, fits⟩

theorem foldl_satAdd (fits : a ≤ bound) (values : List Nat) : values.foldl (satAdd bound) a = min (a + values.sum) bound := by
  induction values generalizing a with
  | nil => simpa using fits
  | cons value values ih =>
    rw [List.foldl_cons, ih satAdd_le, List.sum_cons, satAdd]
    omega

theorem satSum_eq (values : List Nat) : satSum bound values = min values.sum bound := by
  rw [satSum, foldl_satAdd (Nat.zero_le bound), Nat.zero_add]

theorem satSum_le (values : List Nat) : satSum bound values ≤ bound := by
  rw [satSum_eq]
  exact Nat.min_le_right _ _

theorem satSum_perm {values other : List Nat} (perm : values.Perm other) : satSum bound values = satSum bound other := by
  rw [satSum_eq, satSum_eq, perm.sum_nat]

end Saturating

section Largest

variable {values other : List Nat}

theorem largest_eq (values : List Nat) : values.max?.getD 0 = values.foldl max 0 := by
  cases values with
  | nil => rfl
  | cons value values => rw [List.max?_cons', List.foldl_cons, Nat.zero_max, Option.getD_some]

theorem foldl_max_perm (perm : values.Perm other) : values.foldl max 0 = other.foldl max 0 :=
  perm.foldl_eq' (fun a _ b _ c => Nat.max_right_comm c a b) 0

theorem largest_perm (perm : values.Perm other) : values.max?.getD 0 = other.max?.getD 0 := by
  rw [largest_eq, largest_eq, foldl_max_perm perm]

theorem largest_le {bound : Nat} (each : ∀ value ∈ values, value ≤ bound) : values.max?.getD 0 ≤ bound := by
  cases found : values.max? with
  | none => exact Nat.zero_le _
  | some value => exact each value (List.max?_mem found)

end Largest

section Ordered

variable {values other : List Nat}

def ascending (values : List Nat) : List Nat := values.mergeSort (· ≤ ·)

theorem ascending_pairwise (values : List Nat) : (ascending values).Pairwise (· ≤ ·) := values.pairwise_mergeSort' (· ≤ ·)

theorem ascending_perm (values : List Nat) : (ascending values).Perm values := values.mergeSort_perm _

theorem ascending_congr (perm : values.Perm other) : ascending values = ascending other := by
  have same := (ascending_perm values).trans (perm.trans (ascending_perm other).symm)
  exact same.eq_of_pairwise (fun a b _ _ le ge => Nat.le_antisymm le ge) (ascending_pairwise values) (ascending_pairwise other)

theorem ascending_le {i j : Nat} (before : i ≤ j) (inside : j < (ascending values).length) :
    (ascending values)[i] ≤ (ascending values)[j] := by
  rcases Nat.lt_or_eq_of_le before with less | rfl
  · exact List.pairwise_iff_getElem.mp (ascending_pairwise values) i j _ inside less
  · exact Nat.le_refl _

end Ordered

end NixHomeServer.Library
