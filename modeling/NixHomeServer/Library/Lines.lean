import Mathlib.Data.List.Basic

/-! Lines: what lies up to and with the next mark. -/
namespace NixHomeServer.Library

section Lines

variable {α : Type}

/-- The items up to and with the first mark, and no more than so many. -/
def lineOf [DecidableEq α] (mark : α) : Nat → List α → List α
  | 0, _ => []
  | _ + 1, [] => []
  | n + 1, x :: rest => if x = mark then [x] else x :: lineOf mark n rest

/-- A mark ends the list and stands nowhere else in it. -/
def IsLine (mark : α) (line : List α) : Prop := ∃ body, mark ∉ body ∧ line = body ++ [mark]

variable {mark : α} {line rest items : List α} {n : Nat}

theorem IsLine.ne_nil (whole : IsLine mark line) : line ≠ [] := by
  obtain ⟨body, -, rfl⟩ := whole
  exact List.append_ne_nil_of_right_ne_nil body (List.cons_ne_nil mark [])

theorem isLine_cons {x : α} (other : x ≠ mark) : IsLine mark (x :: line) ↔ IsLine mark line := by
  constructor
  · rintro ⟨body, absent, split⟩
    cases body with
    | nil => exact absurd (List.cons.inj split).1 other
    | cons y body =>
      obtain ⟨-, tail⟩ := List.cons.inj split
      exact ⟨body, fun member => absent (List.mem_cons_of_mem _ member), tail⟩
  · rintro ⟨body, absent, rfl⟩
    refine ⟨x :: body, fun member => ?_, rfl⟩
    exact (List.mem_cons.mp member).elim (fun same => other same.symm) absent

variable [DecidableEq α]

theorem lineOf_append_drop (mark : α) (n : Nat) (items : List α) :
    lineOf mark n items ++ items.drop (lineOf mark n items).length = items := by
  induction n generalizing items with
  | zero => rfl
  | succ n ih =>
    cases items with
    | nil => rfl
    | cons x rest =>
      rw [lineOf]
      split
      · rfl
      · exact congrArg (x :: ·) (ih rest)

theorem lineOf_of_isLine (whole : IsLine mark line) (short : line.length ≤ n) (rest : List α) :
    lineOf mark n (line ++ rest) = line := by
  induction n generalizing line with
  | zero => exact absurd (List.length_eq_zero_iff.mp (Nat.le_zero.mp short)) whole.ne_nil
  | succ n ih =>
    cases line with
    | nil => exact absurd rfl whole.ne_nil
    | cons x line =>
      rw [List.cons_append, lineOf]
      split
      · rename_i same
        subst same
        obtain ⟨body, absent, split⟩ := whole
        cases body with
        | nil => exact split.symm
        | cons y body => exact absurd ((List.cons.inj split).1 ▸ List.mem_cons_self) absent
      · rename_i other
        exact congrArg (x :: ·) (ih ((isLine_cons other).mp whole) (Nat.le_of_succ_le_succ short))

/-- A line is whole, or it reached the limit, or the end. -/
theorem lineOf_cases (mark : α) (n : Nat) (items : List α) : IsLine mark (lineOf mark n items) ∨
    mark ∉ lineOf mark n items ∧ ((lineOf mark n items).length = n ∨ lineOf mark n items = items) := by
  induction n generalizing items with
  | zero => exact .inr ⟨List.not_mem_nil, .inl rfl⟩
  | succ n ih =>
    cases items with
    | nil => exact .inr ⟨List.not_mem_nil, .inr rfl⟩
    | cons x rest =>
      rw [lineOf]
      split
      · rename_i same
        subst same
        exact .inl ⟨[], List.not_mem_nil, rfl⟩
      · rename_i other
        obtain whole | ⟨absent, stopped⟩ := ih rest
        · exact .inl ((isLine_cons other).mpr whole)
        · refine .inr ⟨fun member => ?_, ?_⟩
          · exact (List.mem_cons.mp member).elim (fun same => other same.symm) absent
          · exact stopped.imp (congrArg (· + 1)) (congrArg (x :: ·))

theorem isLine_append_inj {line' rest' : List α} (whole : IsLine mark line) (whole' : IsLine mark line')
    (same : line ++ rest = line' ++ rest') : line = line' ∧ rest = rest' := by
  have first := lineOf_of_isLine whole (Nat.le_max_left line.length line'.length) rest
  rw [same, lineOf_of_isLine whole' (Nat.le_max_right line.length line'.length) rest'] at first
  subst first
  exact ⟨rfl, List.append_cancel_left same⟩

end Lines

end NixHomeServer.Library
