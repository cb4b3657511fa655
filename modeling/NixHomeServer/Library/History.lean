import Mathlib.Data.List.Basic

/-! Records in which every entry is justified by the entries before it, and the
part of a record that bears one label. -/
namespace NixHomeServer.Library

section History

variable {α : Type} {reason : List α → α → Prop} {log : List α}

def Justified (reason : List α → α → Prop) (log : List α) : Prop :=
  ∀ early entry late, log = early ++ entry :: late → reason early entry

theorem justified_nil : Justified reason [] := fun early entry late split => by
  cases early <;> cases split

/-- One more entry needs a reason in what is there. -/
theorem Justified.snoc (justified : Justified reason log) {entry : α} (because : reason log entry) :
    Justified reason (log ++ [entry]) := by
  intro early x late split
  cases List.eq_nil_or_concat late with
  | inl nothing =>
    subst nothing
    obtain ⟨rfl, same⟩ := List.append_inj' split rfl
    cases same
    exact because
  | inr more =>
    obtain ⟨late, last, rfl⟩ := more
    rw [List.concat_eq_append, ← List.cons_append, ← List.append_assoc] at split
    exact justified early x late (List.append_inj' split rfl).1

end History

section Slice

variable {α κ β : Type} [DecidableEq κ] (label : α → κ) (content : α → β)

/-- The contents of the entries of one label. -/
def slice (k : κ) (log : List α) : List β := (log.filter fun entry => label entry = k).map content

variable {label content}

theorem slice_append (k : κ) (early late : List α) :
    slice label content k (early ++ late) = slice label content k early ++ slice label content k late := by
  rw [slice, List.filter_append, List.map_append, slice, slice]

theorem slice_of_label {k : κ} {entries : List α} (same : ∀ entry ∈ entries, label entry = k) :
    slice label content k entries = entries.map content := by
  rw [slice, List.filter_eq_self.mpr fun entry member => decide_eq_true (same entry member)]

theorem slice_of_other {k : κ} {entries : List α} (other : ∀ entry ∈ entries, label entry ≠ k) :
    slice label content k entries = [] := by
  rw [slice, List.filter_eq_nil_iff.mpr fun entry member => by simpa using other entry member]
  rfl

end Slice

end NixHomeServer.Library
