import Mathlib.Data.List.Basic
import Mathlib.Logic.Function.Basic

/-! Rows under ids drawn from an ascending sequence.
A fresh id is above every row, so an insert never meets an old row. Updates by
id, updates of all rows and selections have one lookup law each. -/
namespace NixHomeServer.Library

structure Table (ρ : Type) where
  get : Nat → Option ρ
  next : Nat
  above : ∀ id, next ≤ id → get id = none

namespace Table

variable {ρ : Type}

def empty : Table ρ := ⟨fun _ => none, 1, fun _ _ => rfl⟩

/-- The row of the id about to be drawn. -/
def insert (t : Table ρ) (row : ρ) : Table ρ where
  get := Function.update t.get t.next (some row)
  next := t.next + 1
  above := by
    intro id high
    have distinct : id ≠ t.next := by omega
    rw [Function.update_of_ne distinct]
    exact t.above id (by omega)

/-- One `UPDATE` over all rows; `f` sees the id and the row. -/
def mapRows (t : Table ρ) (f : Nat → ρ → ρ) : Table ρ where
  get id := (t.get id).map (f id)
  next := t.next
  above := by
    intro id high
    rw [t.above id high]
    rfl

/-- An `UPDATE` by primary key. -/
def modify (t : Table ρ) (target : Nat) (f : ρ → ρ) : Table ρ :=
  t.mapRows (fun id row => if id = target then f row else row)

/-- A `DELETE` of the rows that are not kept. -/
def filterRows (t : Table ρ) (keep : Nat → ρ → Bool) : Table ρ where
  get id := (t.get id).filter (keep id)
  next := t.next
  above := by
    intro id high
    rw [t.above id high]
    rfl

/-- The rows that satisfy a condition, by ascending id. -/
def select (t : Table ρ) (keep : Nat → ρ → Bool) : List (Nat × ρ) :=
  (List.range t.next).filterMap fun id =>
    match t.get id with
    | some row => if keep id row then some (id, row) else none
    | none => none

@[simp] theorem get_empty (id : Nat) : (empty : Table ρ).get id = none := rfl

@[simp] theorem next_empty : (empty : Table ρ).next = 1 := rfl

@[simp] theorem next_insert (t : Table ρ) (row : ρ) : (t.insert row).next = t.next + 1 := rfl

@[simp] theorem next_mapRows (t : Table ρ) (f : Nat → ρ → ρ) : (t.mapRows f).next = t.next := rfl

@[simp] theorem next_modify (t : Table ρ) (target : Nat) (f : ρ → ρ) :
    (t.modify target f).next = t.next := rfl

@[simp] theorem get_insert_self (t : Table ρ) (row : ρ) : (t.insert row).get t.next = some row :=
  Function.update_self ..

theorem get_insert_of_ne (t : Table ρ) (row : ρ) (id : Nat) (distinct : id ≠ t.next) :
    (t.insert row).get id = t.get id :=
  Function.update_of_ne distinct ..

@[simp] theorem get_mapRows (t : Table ρ) (f : Nat → ρ → ρ) (id : Nat) :
    (t.mapRows f).get id = (t.get id).map (f id) := rfl

@[simp] theorem get_modify_self (t : Table ρ) (target : Nat) (f : ρ → ρ) :
    (t.modify target f).get target = (t.get target).map f := by
  simp only [modify, get_mapRows, if_true]

theorem get_modify_of_ne (t : Table ρ) (target : Nat) (f : ρ → ρ) (id : Nat)
    (distinct : id ≠ target) : (t.modify target f).get id = t.get id := by
  simp only [modify, get_mapRows, if_neg distinct, Option.map_id']

@[simp] theorem next_filterRows (t : Table ρ) (keep : Nat → ρ → Bool) :
    (t.filterRows keep).next = t.next := rfl

theorem get_filterRows (t : Table ρ) (keep : Nat → ρ → Bool) (id : Nat) (row : ρ) :
    (t.filterRows keep).get id = some row ↔ t.get id = some row ∧ keep id row = true := by
  simp only [filterRows]
  exact Option.filter_eq_some_iff

theorem lt_next_of_get (t : Table ρ) (id : Nat) (row : ρ) (found : t.get id = some row) :
    id < t.next := by
  by_contra high
  rw [t.above id (Nat.le_of_not_lt high)] at found
  cases found

/-- Rows that were there before an insert are there after it. -/
theorem get_insert_of_get (t : Table ρ) (row : ρ) (id : Nat) (old : ρ)
    (found : t.get id = some old) : (t.insert row).get id = some old := by
  rw [get_insert_of_ne t row id (Nat.ne_of_lt (t.lt_next_of_get id old found))]
  exact found

theorem get_insert_cases (t : Table ρ) (row : ρ) (id : Nat) (found_row : ρ)
    (found : (t.insert row).get id = some found_row) :
    t.get id = some found_row ∨ (id = t.next ∧ found_row = row) := by
  by_cases new : id = t.next
  · subst new
    rw [get_insert_self] at found
    exact Or.inr ⟨rfl, (Option.some.inj found).symm⟩
  · rw [get_insert_of_ne t row id new] at found
    exact Or.inl found

theorem get_modify_cases (t : Table ρ) (target : Nat) (f : ρ → ρ) (id : Nat) (row : ρ)
    (found : (t.modify target f).get id = some row) :
    ∃ old, t.get id = some old ∧ row = if id = target then f old else old := by
  simp only [modify, get_mapRows] at found
  obtain ⟨old, was, rfl⟩ := Option.map_eq_some_iff.mp found
  exact ⟨old, was, rfl⟩

theorem exists_get_modify (t : Table ρ) (target : Nat) (f : ρ → ρ) {id : Nat} {row : ρ}
    (found : t.get id = some row) : ∃ row', (t.modify target f).get id = some row' := by
  simp only [modify, get_mapRows, found, Option.map_some]
  exact ⟨_, rfl⟩

theorem mem_select (t : Table ρ) (keep : Nat → ρ → Bool) (id : Nat) (row : ρ) :
    (id, row) ∈ t.select keep ↔ t.get id = some row ∧ keep id row = true := by
  simp only [select, List.mem_filterMap, List.mem_range]
  constructor
  · rintro ⟨k, _, picked⟩
    split at picked
    · rename_i found_row found
      split at picked
      · rename_i kept
        cases picked
        exact ⟨found, kept⟩
      · cases picked
    · cases picked
  · rintro ⟨found, kept⟩
    refine ⟨id, t.lt_next_of_get id row found, ?_⟩
    simp only [found, kept, if_true]

theorem select_eq_nil (t : Table ρ) (keep : Nat → ρ → Bool) :
    t.select keep = [] ↔ ∀ id row, t.get id = some row → keep id row = false := by
  rw [List.eq_nil_iff_forall_not_mem]
  constructor
  · intro none id row found
    cases kept : keep id row with
    | false => rfl
    | true => exact absurd ((t.mem_select keep id row).mpr ⟨found, kept⟩) (none (id, row))
  · rintro all ⟨id, row⟩ member
    obtain ⟨found, kept⟩ := (t.mem_select keep id row).mp member
    rw [all id row found] at kept
    cases kept

theorem select_ids (t : Table ρ) (keep : Nat → ρ → Bool) :
    (t.select keep).map Prod.fst = (List.range t.next).filter (fun id => (t.get id).any (keep id)) := by
  rw [select, List.map_filterMap, ← List.filterMap_eq_filter]
  apply List.filterMap_congr
  intro id _
  cases found : t.get id with
  | none => simp only [Option.map_none, Option.guard_apply, found, Option.any_none, if_false,
      Bool.false_eq_true]
  | some row =>
    simp only [Option.guard_apply, found, Option.any_some]
    split <;> rfl

end Table

end NixHomeServer.Library
