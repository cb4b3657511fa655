import Mathlib.Data.List.Nodup
import Mathlib.Logic.Function.Basic

/-! Names made different by a number: the first use of a name keeps it, a later one
is numbered with the uses before it. -/
namespace NixHomeServer.Library

section Numbering

variable {α : Type} [DecidableEq α] [BEq α] [LawfulBEq α] {bases : List α} {used : α → Nat} {base : α} {k : Nat}

/-- Each use of a name and how many there were before it. -/
def marks : List α → (α → Nat) → List (α × Nat)
  | [], _ => []
  | base :: rest, used => (base, used base) :: marks rest (Function.update used base (used base + 1))

/-- What a use of a name is called. -/
def labelled (number : α → Nat → α) (base : α) (count : Nat) : α := if count = 0 then base else number base count

theorem mem_marks : (base, k) ∈ marks bases used ↔ used base ≤ k ∧ k < used base + bases.count base := by
  induction bases generalizing used with
  | nil => simp [marks]
  | cons first rest ih =>
    rw [marks, List.mem_cons, ih, Prod.mk.injEq]
    by_cases same : base = first
    · subst same
      simp only [true_and, Function.update_self, List.count_cons_self]
      omega
    · simp only [same, false_and, false_or, Function.update_of_ne same, List.count_cons_of_ne (Ne.symm same)]

theorem nodup_marks : (marks bases used).Nodup := by
  induction bases generalizing used with
  | nil => exact List.nodup_nil
  | cons first rest ih =>
    refine List.nodup_cons.mpr ⟨fun member => ?_, ih⟩
    have later := (mem_marks.mp member).1
    rw [Function.update_self] at later
    omega

variable (number : α → Nat → α)

/-- The names differ exactly if no numbered name is a name of the list. -/
theorem nodup_labelled (other : ∀ base ∈ bases, ∀ k, number base k ≠ base)
    (injective : ∀ base ∈ bases, ∀ base' ∈ bases, ∀ k k', number base k = number base' k' → base = base' ∧ k = k') :
    ((marks bases fun _ => 0).map fun mark => labelled number mark.1 mark.2).Nodup ↔
      ∀ base k, 0 < k → k < bases.count base → number base k ∉ bases := by
  rw [List.nodup_map_iff_inj_on nodup_marks]
  constructor
  · intro distinct base k positive few member
    have listed : base ∈ bases := List.count_pos_iff.mp (by omega)
    have numbered : (base, k) ∈ marks bases fun _ => 0 := mem_marks.mpr ⟨Nat.zero_le k, by omega⟩
    have own : (number base k, 0) ∈ marks bases fun _ => 0 :=
      mem_marks.mpr ⟨Nat.le_refl 0, by have := List.count_pos_iff.mpr member; omega⟩
    have same := distinct _ numbered _ own (by simp [labelled, Nat.pos_iff_ne_zero.mp positive])
    exact other base listed k (Prod.mk.inj same).1.symm
  · rintro apart ⟨base, k⟩ first ⟨base', k'⟩ second same
    have few := (mem_marks.mp first).2
    have few' := (mem_marks.mp second).2
    have listed : base ∈ bases := List.count_pos_iff.mp (by omega)
    have listed' : base' ∈ bases := List.count_pos_iff.mp (by omega)
    by_cases zero : k = 0 <;> by_cases zero' : k' = 0
    · simp only [labelled, zero, zero', if_true] at same
      rw [same, zero, zero']
    · simp only [labelled, zero, zero', if_true, if_false] at same
      exact (apart base' k' (by omega) (by omega) (same ▸ listed)).elim
    · simp only [labelled, zero, zero', if_true, if_false] at same
      exact (apart base k (by omega) (by omega) (same ▸ listed')).elim
    · simp only [labelled, zero, zero', if_false] at same
      obtain ⟨rfl, rfl⟩ := injective base listed base' listed' k k' same
      rfl

end Numbering

end NixHomeServer.Library
