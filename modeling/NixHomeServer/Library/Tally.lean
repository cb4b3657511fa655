import Mathlib.Order.Lattice
import Mathlib.Data.List.Induction
import Mathlib.Data.List.Nodup
import Mathlib.Order.Basic

/-! How often each value stands in a list, and the values that stand there most often. -/
namespace NixHomeServer.Library

section Tally

variable {α : Type} [LinearOrder α] {values : List α} {counts : List (α × Nat)} {a b : α} {n : Nat}

/-- One more of a value, in a map ordered by values. -/
def bump (counts : List (α × Nat)) (a : α) : List (α × Nat) :=
  match counts with
  | [] => [(a, 1)]
  | (b, n) :: rest => if a < b then (a, 1) :: (b, n) :: rest else if a = b then (b, n + 1) :: rest else (b, n) :: bump rest a

def tally (values : List α) : List (α × Nat) := values.foldl bump []

/-- The map has the values of the list, in order, each with how often it stands there. -/
structure Tallies (values : List α) (counts : List (α × Nat)) : Prop where
  ascending : counts.Pairwise fun p q => p.1 < q.1
  counted : ∀ a n, (a, n) ∈ counts ↔ n = values.count a ∧ 0 < n

theorem mem_bump_self (ordered : counts.Pairwise fun p q => p.1 < q.1) :
    (a, n) ∈ bump counts a ↔ (∃ m, (a, m) ∈ counts ∧ n = m + 1) ∨ ((∀ m, (a, m) ∉ counts) ∧ n = 1) := by
  induction counts with
  | nil => simp [bump]
  | cons p rest ih =>
    obtain ⟨c, m⟩ := p
    obtain ⟨above, ordered⟩ := List.pairwise_cons.mp ordered
    have later {k : Nat} (le : a ≤ c) : (a, k) ∉ rest := fun member => lt_irrefl a (le.trans_lt (above _ member))
    unfold bump
    split
    · rename_i less
      have absent (k : Nat) : (a, k) ∉ (c, m) :: rest := by
        simp only [List.mem_cons, Prod.mk.injEq, not_or]
        exact ⟨fun same => less.ne same.1, later less.le⟩
      simp only [List.mem_cons (a := (a, n)) (b := (a, 1)), Prod.mk.injEq, true_and, absent, or_false, false_and,
        exists_false, false_or, not_false_eq_true, implies_true]
    · split
      · rename_i same
        subst same
        simp only [List.mem_cons, Prod.mk.injEq, true_and, later le_rfl, or_false]
        constructor
        · rintro rfl
          exact .inl ⟨m, rfl, rfl⟩
        · rintro (⟨k, rfl, rfl⟩ | ⟨none, -⟩)
          · rfl
          · exact absurd rfl (none m)
      · rename_i other
        have own (k : Nat) : (a, k) ∈ (c, m) :: rest ↔ (a, k) ∈ rest := by
          simp [other]
        simp only [own, ← ih ordered]
        simp [other]

theorem mem_bump_other (other : b ≠ a) : (b, n) ∈ bump counts a ↔ (b, n) ∈ counts := by
  induction counts with
  | nil => simp [bump, other]
  | cons p rest ih =>
    obtain ⟨c, m⟩ := p
    unfold bump
    split
    · simp [other]
    · split
      · rename_i same
        subst same
        simp [other]
      · simp [ih]

theorem ascending_bump (ordered : counts.Pairwise fun p q => p.1 < q.1) :
    (bump counts a).Pairwise fun p q => p.1 < q.1 := by
  induction counts with
  | nil => simp [bump]
  | cons p rest ih =>
    obtain ⟨c, m⟩ := p
    have whole := ordered
    obtain ⟨above, ordered⟩ := List.pairwise_cons.mp ordered
    unfold bump
    split
    · rename_i less
      refine List.pairwise_cons.mpr ⟨fun q member => ?_, whole⟩
      rcases List.mem_cons.mp member with rfl | member
      · exact less
      · exact less.trans (above q member)
    · split
      · exact List.pairwise_cons.mpr ⟨above, ordered⟩
      · rename_i le other
        refine List.pairwise_cons.mpr ⟨fun q member => ?_, ih ordered⟩
        obtain ⟨b, k⟩ := q
        by_cases same : b = a
        · exact same ▸ lt_of_le_of_ne (not_lt.mp le) (Ne.symm other)
        · exact above _ ((mem_bump_other same).mp member)

theorem Tallies.bump (tallies : Tallies values counts) (a : α) : Tallies (values ++ [a]) (Library.bump counts a) where
  ascending := ascending_bump tallies.ascending
  counted b n := by
    rw [List.count_append]
    by_cases same : b = a
    · subst same
      rw [mem_bump_self tallies.ascending, List.count_singleton_self]
      simp only [tallies.counted]
      constructor
      · rintro (⟨m, ⟨rfl, _⟩, rfl⟩ | ⟨none, rfl⟩)
        · omega
        · have zero : ¬ 0 < values.count b := fun positive => none _ ⟨rfl, positive⟩
          omega
      · rintro ⟨rfl, _⟩
        by_cases zero : values.count b = 0
        · exact .inr ⟨fun m both => by omega, by omega⟩
        · exact .inl ⟨values.count b, ⟨rfl, by omega⟩, rfl⟩
    · rw [mem_bump_other same, tallies.counted, List.count_singleton, if_neg (by simpa using Ne.symm same)]
      rfl

/-- More often, or as often and smaller. -/
def Precedes (p q : α × Nat) : Prop := q.2 < p.2 ∨ (p.2 = q.2 ∧ p.1 < q.1)

instance (p q : α × Nat) : Decidable (Precedes p q) := inferInstanceAs (Decidable (_ ∨ _))

def rankLe (p q : α × Nat) : Bool := q.2 < p.2 || (p.2 = q.2 && p.1 ≤ q.1)

/-- The first so many values by how often they stand in the list. -/
def topOf (n : Nat) (counts : List (α × Nat)) : List (α × Nat) := (counts.mergeSort rankLe).take n

theorem Precedes.asymm {p q : α × Nat} (precedes : Precedes p q) : ¬ Precedes q p := by
  rintro (more | ⟨same, less⟩)
  · rcases precedes with more' | ⟨same', _⟩ <;> omega
  · rcases precedes with more' | ⟨_, less'⟩
    · omega
    · exact lt_asymm less less'

end Tally

end NixHomeServer.Library
