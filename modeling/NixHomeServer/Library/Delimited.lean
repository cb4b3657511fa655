import Mathlib.Algebra.GroupWithZero.Nat
import Mathlib.Tactic.Common
import NixHomeServer.Library.Text

/-! Parts written one after another, each with a separator behind it: when they can be told from what
is written. -/
namespace NixHomeServer.Library

variable {α : Type} {separator : α} {parts parts' : List (List α)} {left right left' right' : List α}

def terminated (separator : α) (parts : List (List α)) : List α := parts.flatMap (· ++ [separator])

@[simp] theorem terminated_nil (separator : α) : terminated separator [] = [] := rfl

theorem terminated_cons (separator : α) (part : List α) (rest : List (List α)) :
    terminated separator (part :: rest) = part ++ separator :: terminated separator rest := by
  simp [terminated]

theorem terminated_append (separator : α) (front back : List (List α)) :
    terminated separator (front ++ back) = terminated separator front ++ terminated separator back := by
  simp [terminated]

/-- A separator in one of several parts can also be read as the end of it. -/
theorem terminated_ambiguous (several : 2 ≤ parts.length) (dirty : ∃ part ∈ parts, separator ∈ part) :
    ∃ parts', parts'.length = parts.length ∧ parts' ≠ parts ∧ terminated separator parts' = terminated separator parts := by
  obtain ⟨part, member, inside⟩ := dirty
  obtain ⟨front, back, rfl⟩ := List.append_of_mem member
  obtain ⟨x, y, rfl⟩ := List.append_of_mem inside
  -- the rest goes to the next part, or what is before it to the one before
  cases back with
  | cons next back =>
    refine ⟨front ++ x :: (y ++ separator :: next) :: back, by simp, ?_, by simp [terminated_append, terminated_cons]⟩
    simp
  | nil =>
    rcases List.eq_nil_or_concat front with rfl | ⟨front, before, rfl⟩
    · simp at several
    · refine ⟨front ++ [before ++ separator :: x, y], by simp, ?_, by simp [terminated_append, terminated_cons]⟩
      simp

variable [DecidableEq α]

theorem count_terminated (separator : α) (parts : List (List α)) :
    (terminated separator parts).count separator = parts.length + (parts.map (List.count separator)).sum := by
  induction parts with
  | nil => rfl
  | cons part rest ih =>
    rw [terminated_cons, List.count_append, List.count_cons_self, ih, List.length_cons, List.map_cons, List.sum_cons]
    omega

theorem count_terminated_iff : (terminated separator parts).count separator = parts.length ↔ ∀ part ∈ parts, separator ∉ part := by
  have none : (parts.map (List.count separator)).sum = 0 ↔ ∀ part ∈ parts, separator ∉ part := by
    simp [List.sum_eq_zero_iff_forall_eq_nat, List.count_eq_zero]
  rw [← none, count_terminated]
  omega

theorem terminated_cons_inj {part part' : List α} (clean : separator ∉ part) (clean' : separator ∉ part') :
    terminated separator (part :: parts) = terminated separator (part' :: parts') ↔
      part = part' ∧ terminated separator parts = terminated separator parts' := by
  constructor
  · intro same
    have cut := congrArg (cutAt separator) same
    rw [terminated_cons, terminated_cons, cutAt_append separator _ clean, cutAt_append separator _ clean'] at cut
    exact Prod.mk.inj (Option.some.inj cut)
  · rintro ⟨rfl, tails⟩
    rw [terminated_cons, terminated_cons, tails]

theorem terminated_inj (clean : ∀ part ∈ parts, separator ∉ part) (clean' : ∀ part ∈ parts', separator ∉ part)
    (same : terminated separator parts = terminated separator parts') : parts = parts' := by
  induction parts generalizing parts' with
  | nil =>
    cases parts' with
    | nil => rfl
    | cons part rest => simp [terminated_cons] at same
  | cons part rest ih =>
    cases parts' with
    | nil => simp [terminated_cons] at same
    | cons part' rest' =>
      obtain ⟨own, others⟩ := List.forall_mem_cons.mp clean
      obtain ⟨own', others'⟩ := List.forall_mem_cons.mp clean'
      obtain ⟨rfl, tails⟩ := (terminated_cons_inj own own').mp same
      rw [ih others others' tails]

/-- As many parts that are written the same are the same where one of them has no separators. -/
theorem eq_of_terminated (clean : ∀ part ∈ parts, separator ∉ part) (lengths : parts.length = parts'.length)
    (same : terminated separator parts = terminated separator parts') : parts = parts' := by
  refine terminated_inj clean (count_terminated_iff.mp ?_) same
  rw [← same, ← lengths]
  exact count_terminated_iff.mpr clean

/-- What is behind the last separator. -/
theorem last_cut (same : left ++ separator :: right = left' ++ separator :: right') (clean : separator ∉ right)
    (clean' : separator ∉ right') : left = left' ∧ right = right' := by
  have turned : right.reverse ++ separator :: left.reverse = right'.reverse ++ separator :: left'.reverse := by
    simpa using congrArg List.reverse same
  have cut := congrArg (cutAt separator) turned
  rw [cutAt_append separator _ (by simpa using clean), cutAt_append separator _ (by simpa using clean')] at cut
  obtain ⟨rights, lefts⟩ := Prod.mk.inj (Option.some.inj cut)
  exact ⟨List.reverse_inj.mp lefts, List.reverse_inj.mp rights⟩

end NixHomeServer.Library
