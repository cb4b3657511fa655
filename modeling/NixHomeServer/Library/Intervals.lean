import Mathlib.Algebra.GroupWithZero.Nat
import Mathlib.Data.List.Pairwise
import Mathlib.Data.List.Chain
import Mathlib.Order.Interval.Finset.Nat

/-! Intervals of numbers, by where each starts and where it ends. -/
namespace NixHomeServer.Library

def Apart (a b : Nat × Nat) : Prop := a.2 ≤ b.1 ∨ b.2 ≤ a.1

theorem Apart.symm {a b : Nat × Nat} (apart : Apart a b) : Apart b a := Or.symm apart

/-- Intervals that are not empty are disjoint, each from every other, if in some
order each ends before the next starts. -/
theorem pairwise_apart {ranges ordered : List (Nat × Nat)} (same : ordered.Perm ranges)
    (filled : ∀ r ∈ ranges, r.1 < r.2) (adjacent : ordered.IsChain fun a b => a.2 ≤ b.1) : ranges.Pairwise Apart := by
  have ends : ordered.IsChain fun a b => a.2 ≤ b.1 ∧ b.1 < b.2 := by
    refine List.isChain_iff_getElem.mpr fun i inside => ⟨List.isChain_iff_getElem.mp adjacent i inside, ?_⟩
    exact filled _ (same.mem_iff.mp (List.getElem_mem inside))
  have follows : ordered.Pairwise fun a b => a.2 ≤ b.1 ∧ b.1 < b.2 := by
    have trans : IsTrans (Nat × Nat) fun a b => a.2 ≤ b.1 ∧ b.1 < b.2 :=
      ⟨fun a b c first second => ⟨by omega, second.2⟩⟩
    exact ends.pairwise
  have apart : ordered.Pairwise Apart := follows.imp fun both => .inl both.1
  exact (same.pairwise_iff Apart.symm).mp apart

/-- The numbers that lie in one of the intervals. -/
def covered : List (Nat × Nat) → Finset Nat
  | [] => ∅
  | r :: rest => Finset.Ico r.1 r.2 ∪ covered rest

theorem mem_covered {n : Nat} {ranges : List (Nat × Nat)} : n ∈ covered ranges ↔ ∃ r ∈ ranges, r.1 ≤ n ∧ n < r.2 := by
  induction ranges with
  | nil => simp [covered]
  | cons r rest ih => simp [covered, ih]

/-- Disjoint intervals cover as many numbers as they have together. -/
theorem card_covered {ranges : List (Nat × Nat)} (apart : ranges.Pairwise Apart) :
    (covered ranges).card = (ranges.map fun r => r.2 - r.1).sum := by
  induction ranges with
  | nil => rfl
  | cons r rest ih =>
    obtain ⟨first, others⟩ := List.pairwise_cons.mp apart
    have disjoint : Disjoint (Finset.Ico r.1 r.2) (covered rest) := by
      refine Finset.disjoint_left.mpr fun n here there => ?_
      obtain ⟨r', member, lower, upper⟩ := mem_covered.mp there
      obtain ⟨lower', upper'⟩ := Finset.mem_Ico.mp here
      rcases first r' member with before | after <;> omega
    rw [covered, Finset.card_union_of_disjoint disjoint, Nat.card_Ico, ih others, List.map_cons, List.sum_cons]

/-- Disjoint intervals below a bound have no more than it together. -/
theorem sum_lengths_le {ranges : List (Nat × Nat)} {size : Nat} (apart : ranges.Pairwise Apart)
    (inside : ∀ r ∈ ranges, r.2 ≤ size) : (ranges.map fun r => r.2 - r.1).sum ≤ size := by
  rw [← card_covered apart]
  have below : covered ranges ⊆ Finset.range size := by
    intro n member
    obtain ⟨r, there, -, upper⟩ := mem_covered.mp member
    exact Finset.mem_range.mpr (Nat.lt_of_lt_of_le upper (inside r there))
  exact (Finset.card_le_card below).trans_eq (Finset.card_range size)

/-- A list of neighbours, read as pairs. -/
theorem isChain_of_zip_tail {α : Type} {R : α → α → Prop} {items : List α}
    (each : ∀ w ∈ items.zip items.tail, R w.1 w.2) : items.IsChain R := by
  induction items with
  | nil => exact .nil
  | cons a rest ih =>
    cases rest with
    | nil => exact .singleton a
    | cons b rest =>
      refine .cons_cons (each (a, b) List.mem_cons_self) (ih fun w member => ?_)
      exact each w (List.mem_cons_of_mem _ member)

end NixHomeServer.Library
