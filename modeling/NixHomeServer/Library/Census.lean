import Mathlib.Data.List.Basic

/-! Parties in a list, each in a phase of its own. One party moving from a phase
to another changes every count by what the two phases count for. -/
namespace NixHomeServer.Library

section Census

variable {α : Type} {parties : List α} {i : Nat} {old : α}

theorem census_set (counted : α → Bool) (at_i : parties[i]? = some old) (new : α) :
    (parties.set i new).countP counted + (counted old).toNat = parties.countP counted + (counted new).toNat := by
  induction parties generalizing i with
  | nil => cases at_i
  | cons x rest ih =>
    cases i with
    | zero =>
      have same : x = old := Option.some.inj at_i
      subst same
      cases hx : counted x <;> cases hn : counted new <;> simp [hx, hn]
    | succ i =>
      have later := ih at_i
      simp only [List.set_cons_succ, List.countP_cons]
      omega

theorem census_pos (counted : α → Bool) (at_i : parties[i]? = some old) (yes : counted old = true) :
    0 < parties.countP counted :=
  List.countP_pos_iff.mpr ⟨old, List.mem_of_getElem? at_i, yes⟩

theorem census_append (counted : α → Bool) (new : α) :
    (parties ++ [new]).countP counted = parties.countP counted + (counted new).toNat := by
  cases hn : counted new <;> simp [List.countP_append, hn]

/-- A party is where it was, or it is the one that moved. -/
theorem getElem?_set_cases {j : Nat} {new found : α} (at_j : (parties.set i new)[j]? = some found) :
    (j = i ∧ found = new) ∨ (j ≠ i ∧ parties[j]? = some found) := by
  by_cases same : j = i
  · subst same
    have inside : j < parties.length := by
      have := (List.getElem?_eq_some_iff.mp at_j).1
      rwa [List.length_set] at this
    rw [List.getElem?_set_self inside] at at_j
    exact Or.inl ⟨rfl, (Option.some.inj at_j).symm⟩
  · rw [List.getElem?_set_ne (Ne.symm same)] at at_j
    exact Or.inr ⟨same, at_j⟩

theorem getElem?_set_of_getElem? (at_i : parties[i]? = some old) (new : α) : (parties.set i new)[i]? = some new :=
  List.getElem?_set_self (List.getElem?_eq_some_iff.mp at_i).1

/-- Two parties that are counted make the count two. -/
theorem census_two (counted : α → Bool) {j : Nat} {other : α} (at_i : parties[i]? = some old)
    (at_j : parties[j]? = some other) (apart : i < j) (yes_i : counted old = true) (yes_j : counted other = true) :
    2 ≤ parties.countP counted := by
  have front : old ∈ parties.take j := by
    rw [List.mem_take_iff_getElem]
    obtain ⟨inside, same⟩ := List.getElem?_eq_some_iff.mp at_i
    exact ⟨i, by omega, same⟩
  have back : other ∈ parties.drop j := by
    rw [List.mem_drop_iff_getElem]
    obtain ⟨inside, same⟩ := List.getElem?_eq_some_iff.mp at_j
    exact ⟨0, by omega, same⟩
  have first := List.countP_pos_iff.mpr ⟨old, front, yes_i⟩
  have second := List.countP_pos_iff.mpr ⟨other, back, yes_j⟩
  have total := @List.countP_append _ counted (parties.take j) (parties.drop j)
  rw [List.take_append_drop] at total
  omega

/-- Where one party at most is counted, no other one is. -/
theorem census_other (counted : α → Bool) {j : Nat} {other : α} (single : parties.countP counted ≤ 1)
    (at_i : parties[i]? = some old) (at_j : parties[j]? = some other) (apart : j ≠ i)
    (yes_i : counted old = true) : counted other = false := by
  cases yes_j : counted other with
  | false => rfl
  | true =>
    rcases Nat.lt_or_gt_of_ne apart with less | more
    · have := census_two counted at_j at_i less yes_j yes_i
      omega
    · have := census_two counted at_i at_j more yes_i yes_j
      omega

/-- A party that is left out is counted no more. -/
theorem census_filter (counted keep : α → Bool) (member : old ∈ parties) (out : keep old = false) :
    (parties.filter keep).countP counted + (counted old).toNat ≤ parties.countP counted := by
  obtain ⟨front, back, rfl⟩ := List.append_of_mem member
  have first : (front.filter keep).countP counted ≤ front.countP counted := List.filter_sublist.countP_le
  have second : (back.filter keep).countP counted ≤ back.countP counted := List.filter_sublist.countP_le
  have dropped : (old :: back).filter keep = back.filter keep := List.filter_cons_of_neg (by simp [out])
  rw [List.filter_append, dropped, List.countP_append, List.countP_append]
  cases yes : counted old
  · simp only [List.countP_cons, yes, Bool.toNat_false]
    omega
  · simp only [List.countP_cons, yes, Bool.toNat_true, if_true]
    omega

end Census

end NixHomeServer.Library
