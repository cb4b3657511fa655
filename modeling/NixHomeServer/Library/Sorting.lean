import Mathlib.Data.List.Sort
import Mathlib.Data.Prod.Lex

/-! Lists sorted by a key that tells their items apart, and the places of the items in them. -/
namespace NixHomeServer.Library

variable {α κ : Type} {key : α → κ} {l l' : List α} {a b : α}

/-- Items of the list with one key are the same. -/
def Telling (key : α → κ) (l : List α) : Prop := ∀ a ∈ l, ∀ b ∈ l, key a = key b → a = b

theorem Telling.perm (telling : Telling key l) (perm : l'.Perm l) : Telling key l' := fun a own b other =>
  telling a (perm.mem_iff.mp own) b (perm.mem_iff.mp other)

variable [LinearOrder κ]

def keyLe (key : α → κ) (a b : α) : Bool := decide (key a ≤ key b)

def sortBy (key : α → κ) (l : List α) : List α := l.mergeSort (keyLe key)

theorem sortBy_perm (key : α → κ) (l : List α) : (sortBy key l).Perm l := l.mergeSort_perm _

@[simp] theorem mem_sortBy : a ∈ sortBy key l ↔ a ∈ l := (sortBy_perm key l).mem_iff

theorem sortBy_pairwise (key : α → κ) (l : List α) : (sortBy key l).Pairwise fun a b => key a ≤ key b := by
  have sorted : (l.mergeSort (keyLe key)).Pairwise fun a b => keyLe key a b = true := by
    refine List.pairwise_mergeSort (fun a b c first second => ?_) (fun a b => ?_) l
    · exact decide_eq_true ((of_decide_eq_true first).trans (of_decide_eq_true second))
    · rw [Bool.or_eq_true]
      exact (le_total (key a) (key b)).imp decide_eq_true decide_eq_true
  exact sorted.imp of_decide_eq_true

/-- There is one way to stand in the order of the keys. -/
theorem Telling.eq_of_pairwise (telling : Telling key l) (perm : l.Perm l') (sorted : l.Pairwise fun a b => key a ≤ key b)
    (sorted' : l'.Pairwise fun a b => key a ≤ key b) : l = l' :=
  perm.eq_of_pairwise (fun a b own other le ge => telling a own b (perm.mem_iff.mpr other) (le_antisymm le ge)) sorted sorted'

theorem Telling.sortBy_congr (telling : Telling key l) (perm : l.Perm l') : sortBy key l = sortBy key l' :=
  (telling.perm (sortBy_perm key l)).eq_of_pairwise ((sortBy_perm key l).trans (perm.trans (sortBy_perm key l').symm))
    (sortBy_pairwise key l) (sortBy_pairwise key l')

theorem Telling.sortBy_eq_iff (telling : Telling key l) : sortBy key l = l ↔ l.Pairwise fun a b => key a ≤ key b := by
  constructor
  · intro same
    have sorted := sortBy_pairwise key l
    rwa [same] at sorted
  · exact (telling.perm (sortBy_perm key l)).eq_of_pairwise (sortBy_perm key l) (sortBy_pairwise key l)

/-- The places of items in the sorted list stand as their keys do. -/
theorem Telling.idxOf_lt_iff [DecidableEq α] (telling : Telling key l) (own : a ∈ l) (other : b ∈ l) :
    (sortBy key l).idxOf a < (sortBy key l).idxOf b ↔ key a < key b := by
  have sorted := List.pairwise_iff_getElem.mp (sortBy_pairwise key l)
  have there : a ∈ sortBy key l := mem_sortBy.mpr own
  have there' : b ∈ sortBy key l := mem_sortBy.mpr other
  have forward {a b : α} (there : a ∈ sortBy key l) (there' : b ∈ sortBy key l)
      (before : (sortBy key l).idxOf a < (sortBy key l).idxOf b) : key a ≤ key b := by
    simpa using sorted _ _ (List.idxOf_lt_length_of_mem there) (List.idxOf_lt_length_of_mem there') before
  constructor
  · intro before
    refine lt_of_le_of_ne (forward there there' before) fun same => ?_
    rw [telling a own b other same] at before
    exact Nat.lt_irrefl _ before
  · intro less
    rcases Nat.lt_trichotomy ((sortBy key l).idxOf a) ((sortBy key l).idxOf b) with before | same | after
    · exact before
    · rw [(List.idxOf_inj there).mp same] at less
      exact absurd less (lt_irrefl _)
    · exact absurd less (not_lt.mpr (forward there' there after))

/-- In a list in strict order a relation holds along the list where it holds along the keys. -/
theorem pairwise_iff_of_sorted {related : α → α → Prop} (sorted : l.Pairwise fun a b => key a < key b) :
    l.Pairwise related ↔ ∀ a ∈ l, ∀ b ∈ l, key a < key b → related a b := by
  constructor
  · intro along a own b other less
    obtain ⟨i, inside, rfl⟩ := List.getElem_of_mem own
    obtain ⟨j, inside', rfl⟩ := List.getElem_of_mem other
    have order := List.pairwise_iff_getElem.mp sorted
    rcases Nat.lt_trichotomy i j with before | rfl | after
    · exact List.pairwise_iff_getElem.mp along i j inside inside' before
    · exact absurd less (lt_irrefl _)
    · exact absurd less (lt_asymm (order j i inside' inside after))
  · exact fun all => sorted.imp_of_mem fun own other less => all _ own _ other less

/-- The places of the items in the sorted list are all places there are. -/
theorem places_perm [DecidableEq α] (key : α → κ) (distinct : l.Nodup) :
    (l.map fun a => (sortBy key l).idxOf a + 1).Perm (List.range' 1 l.length) := by
  have nodup := (sortBy_perm key l).nodup_iff.mpr distinct
  have own : (sortBy key l).map (fun a => (sortBy key l).idxOf a + 1) = List.range' 1 l.length := by
    refine List.ext_getElem (by simp [(sortBy_perm key l).length_eq]) fun i inside _ => ?_
    rw [List.length_map] at inside
    simp only [List.getElem_map, List.getElem_range', nodup.idxOf_getElem i inside]
    omega
  rw [← own]
  exact ((sortBy_perm key l).symm.map _)

end NixHomeServer.Library
