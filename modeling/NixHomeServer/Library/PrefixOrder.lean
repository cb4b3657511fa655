import Mathlib.Data.Set.Basic
import Mathlib.Order.Compare

/-! Sequences compared at the first place where they differ, and by a rank where one of them
continues the other: when that is transitive. -/
namespace NixHomeServer.Library

section Sequences

variable {κ : Type} [LinearOrder κ] {s t u : List κ} {x y : κ}

/-- The order at the first difference. -/
def firstDifference : List κ → List κ → Ordering
  | x :: s, y :: t => (compare x y).then (firstDifference s t)
  | _, _ => .eq

@[simp] theorem firstDifference_nil (t : List κ) : firstDifference [] t = .eq := rfl

@[simp] theorem firstDifference_to_nil (s : List κ) : firstDifference s [] = .eq := by
  cases s <;> rfl

theorem firstDifference_lt_cons (less : x < y) : firstDifference (x :: s) (y :: t) = .lt := by
  rw [firstDifference, compare_lt_iff_lt.mpr less]
  rfl

theorem firstDifference_gt_cons (greater : y < x) : firstDifference (x :: s) (y :: t) = .gt := by
  rw [firstDifference, compare_gt_iff_gt.mpr greater]
  rfl

@[simp] theorem firstDifference_cons (x : κ) (s t : List κ) : firstDifference (x :: s) (x :: t) = firstDifference s t := by
  rw [firstDifference, compare_eq_iff_eq.mpr rfl]
  rfl

@[simp] theorem firstDifference_append (p s t : List κ) : firstDifference (p ++ s) (p ++ t) = firstDifference s t := by
  induction p with
  | nil => rfl
  | cons x p ih => simp [ih]

theorem firstDifference_swap (s t : List κ) : firstDifference t s = (firstDifference s t).swap := by
  induction s generalizing t with
  | nil => simp
  | cons x s ih =>
    cases t with
    | nil => rfl
    | cons y t =>
      rcases lt_trichotomy x y with less | rfl | greater
      · rw [firstDifference_lt_cons less, firstDifference_gt_cons less]
        rfl
      · simp [ih t]
      · rw [firstDifference_lt_cons greater, firstDifference_gt_cons greater]
        rfl

theorem firstDifference_initial (starts : s <+: t) : firstDifference s t = .eq := by
  obtain ⟨rest, rfl⟩ := starts
  simpa using firstDifference_append s [] rest

/-- Heads that decide nothing are the same. -/
theorem firstDifference_eq_cons : firstDifference (x :: s) (y :: t) = .eq ↔ x = y ∧ firstDifference s t = .eq := by
  rcases lt_trichotomy x y with less | rfl | greater
  · simp [firstDifference_lt_cons less, less.ne]
  · simp
  · simp [firstDifference_gt_cons greater, greater.ne']

theorem firstDifference_lt_cons_iff :
    firstDifference (x :: s) (y :: t) = .lt ↔ x < y ∨ x = y ∧ firstDifference s t = .lt := by
  rcases lt_trichotomy x y with less | rfl | greater
  · simp [firstDifference_lt_cons less, less]
  · simp
  · simp [firstDifference_gt_cons greater, greater.ne', greater.le]

theorem firstDifference_lt_trans (first : firstDifference s t = .lt) (second : firstDifference t u = .lt) :
    firstDifference s u = .lt := by
  induction s generalizing t u with
  | nil => cases first
  | cons x s ih =>
    cases t with
    | nil => cases first
    | cons y t =>
      cases u with
      | nil => simp at second
      | cons z u =>
        rw [firstDifference_lt_cons_iff] at first second ⊢
        rcases first with less | ⟨rfl, first⟩
        · exact .inl (second.elim less.trans fun same => same.1 ▸ less)
        · exact second.imp_right fun later => ⟨later.1, ih first later.2⟩

/-- Before something comes what it continues, or what it continues starts both. -/
theorem firstDifference_eq_lt (first : firstDifference s t = .eq) (second : firstDifference t u = .lt) :
    firstDifference s u = .lt ∨ s <+: t ∧ s <+: u := by
  induction s generalizing t u with
  | nil => exact .inr ⟨List.nil_prefix, List.nil_prefix⟩
  | cons x s ih =>
    cases t with
    | nil => simp at second
    | cons y t =>
      cases u with
      | nil => simp at second
      | cons z u =>
        rw [firstDifference_eq_cons] at first
        obtain ⟨rfl, tails⟩ := first
        rcases firstDifference_lt_cons_iff.mp second with less | ⟨rfl, tails'⟩
        · exact .inl (firstDifference_lt_cons less)
        · simpa using ih tails tails'

theorem firstDifference_lt_eq (first : firstDifference s t = .lt) (second : firstDifference t u = .eq) :
    firstDifference s u = .lt ∨ u <+: s ∧ u <+: t := by
  induction s generalizing t u with
  | nil => cases first
  | cons x s ih =>
    cases u with
    | nil => exact .inr ⟨List.nil_prefix, List.nil_prefix⟩
    | cons z u =>
      cases t with
      | nil => cases first
      | cons y t =>
        rw [firstDifference_eq_cons] at second
        obtain ⟨rfl, tails⟩ := second
        rcases firstDifference_lt_cons_iff.mp first with less | ⟨rfl, tails'⟩
        · exact .inl (firstDifference_lt_cons less)
        · simpa using ih tails' tails

theorem firstDifference_eq_eq (first : firstDifference s t = .eq) (second : firstDifference t u = .eq) :
    firstDifference s u = .eq ∨ t <+: s ∧ t <+: u := by
  induction s generalizing t u with
  | nil => exact .inl rfl
  | cons x s ih =>
    cases t with
    | nil => exact .inr ⟨List.nil_prefix, List.nil_prefix⟩
    | cons y t =>
      cases u with
      | nil => exact .inl rfl
      | cons z u =>
        rw [firstDifference_eq_cons] at first second
        obtain ⟨rfl, tails⟩ := first
        obtain ⟨rfl, tails'⟩ := second
        simpa using ih tails tails'

end Sequences

section Ranked

variable {α κ : Type} [LinearOrder κ] {tokens : α → List κ} {rank : α → Nat} {a b c p x y : α} {S : Set α}

/-- The first difference of the tokens decides, else the ranks do. -/
def ranked (tokens : α → List κ) (rank : α → Nat) (a b : α) : Ordering :=
  (firstDifference (tokens a) (tokens b)).then (compare (rank a) (rank b))

theorem ranked_self (tokens : α → List κ) (rank : α → Nat) (a : α) : ranked tokens rank a a = .eq := by
  rw [ranked, firstDifference_initial List.prefix_rfl, compare_eq_iff_eq.mpr rfl]
  rfl

theorem ranked_swap (tokens : α → List κ) (rank : α → Nat) (a b : α) :
    ranked tokens rank b a = (ranked tokens rank a b).swap := by
  have ranks : compare (rank b) (rank a) = (compare (rank a) (rank b)).swap := Std.OrientedCmp.eq_swap
  rw [ranked, ranked, firstDifference_swap (tokens a), ranks]
  cases firstDifference (tokens a) (tokens b) <;> rfl

theorem ranked_of_lt (less : firstDifference (tokens a) (tokens b) = .lt) : ranked tokens rank a b = .lt := by
  rw [ranked, less]
  rfl

theorem ranked_le_iff : ranked tokens rank a b ≠ .gt ↔
    firstDifference (tokens a) (tokens b) = .lt ∨ firstDifference (tokens a) (tokens b) = .eq ∧ rank a ≤ rank b := by
  rw [ranked]
  cases firstDifference (tokens a) (tokens b) with
  | lt => simp [Ordering.then]
  | gt => simp [Ordering.then]
  | eq => simp [Ordering.then, compare_gt_iff_gt]

/-- Two items continue a third and differ later on, and the ranks put the third between them the other
way round. -/
structure Fork (tokens : α → List κ) (rank : α → Nat) (p x y : α) : Prop where
  lower : tokens p <+: tokens x
  upper : tokens p <+: tokens y
  differ : firstDifference (tokens x) (tokens y) = .lt
  ranks : rank y ≤ rank p ∧ rank p ≤ rank x

/-- The comparison is transitive where there are no forks. -/
theorem ranked_trans_iff : (∀ a ∈ S, ∀ b ∈ S, ∀ c ∈ S, ranked tokens rank a b ≠ .gt → ranked tokens rank b c ≠ .gt →
    ranked tokens rank a c ≠ .gt) ↔ ∀ p ∈ S, ∀ x ∈ S, ∀ y ∈ S, ¬ Fork tokens rank p x y := by
  constructor
  · intro trans p own x first y second fork
    have before : ranked tokens rank y p ≠ .gt := by
      rw [ranked_le_iff, firstDifference_swap (tokens p), firstDifference_initial fork.upper]
      exact .inr ⟨rfl, fork.ranks.1⟩
    have after : ranked tokens rank p x ≠ .gt :=
      ranked_le_iff.mpr (.inr ⟨firstDifference_initial fork.lower, fork.ranks.2⟩)
    have back := trans y second p own x first before after
    rw [ranked_swap tokens rank x y, ranked_of_lt fork.differ] at back
    exact back rfl
  · intro forkless a first b second c third ab bc
    rw [ranked_le_iff] at ab bc
    refine Classical.byContradiction fun greater => ?_
    -- the difference of `a` and `c` is what the other two leave open
    rcases ab with less | ⟨same, ranks⟩
    · rcases bc with less' | ⟨same', ranks'⟩
      · exact greater (ranked_le_iff.mpr (.inl (firstDifference_lt_trans less less')))
      · rcases firstDifference_lt_eq less same' with done | ⟨starts, starts'⟩
        · exact greater (ranked_le_iff.mpr (.inl done))
        · refine forkless c third a first b second ⟨starts, starts', less, ranks', ?_⟩
          by_contra small
          refine greater (ranked_le_iff.mpr (.inr ⟨?_, by omega⟩))
          rw [firstDifference_swap (tokens c), firstDifference_initial starts]
          rfl
    · rcases bc with less' | ⟨same', ranks'⟩
      · rcases firstDifference_eq_lt same less' with done | ⟨starts, starts'⟩
        · exact greater (ranked_le_iff.mpr (.inl done))
        · refine forkless a first b second c third ⟨starts, starts', less', ?_, ranks⟩
          by_contra small
          exact greater (ranked_le_iff.mpr (.inr ⟨firstDifference_initial starts', by omega⟩))
      · rcases firstDifference_eq_eq same same' with done | ⟨starts, starts'⟩
        · exact greater (ranked_le_iff.mpr (.inr ⟨done, ranks.trans ranks'⟩))
        · cases third_way : firstDifference (tokens c) (tokens a) with
          | lt => exact forkless b second c third a first ⟨starts', starts, third_way, ranks, ranks'⟩
          | eq =>
            refine greater (ranked_le_iff.mpr (.inr ⟨?_, ranks.trans ranks'⟩))
            rw [firstDifference_swap (tokens c), third_way]
            rfl
          | gt =>
            refine greater (ranked_le_iff.mpr (.inl ?_))
            rw [firstDifference_swap (tokens c), third_way]
            rfl

end Ranked

end NixHomeServer.Library
