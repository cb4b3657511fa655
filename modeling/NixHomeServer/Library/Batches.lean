import Mathlib.Data.List.Sort

/-! Items handed on in batches of a bounded size: batches filled from a stream,
and pages of a keyed table read in ascending order of the keys. Neither loses nor
repeats an item. -/
namespace NixHomeServer.Library

structure Batches (α : Type) where
  full : List (List α) := []
  pending : List α := []

namespace Batches

variable {α : Type}

def all (b : Batches α) : List α := b.full.flatten ++ b.pending

/-- One more item; a batch that reaches the size is full. -/
def add (size : Nat) (b : Batches α) (x : α) : Batches α :=
  if (b.pending ++ [x]).length ≥ size then ⟨b.full ++ [b.pending ++ [x]], []⟩
  else ⟨b.full, b.pending ++ [x]⟩

/-- The batches once the items have ended; the last one may be short. -/
def close (b : Batches α) : List (List α) :=
  if b.pending.isEmpty then b.full else b.full ++ [b.pending]

theorem all_add (size : Nat) (b : Batches α) (x : α) : (b.add size x).all = b.all ++ [x] := by
  unfold add all
  split <;> simp only [List.flatten_append, List.flatten_singleton, List.append_nil, List.append_assoc]

theorem flatten_close (b : Batches α) : b.close.flatten = b.all := by
  unfold close all
  split
  case isTrue empty => rw [List.isEmpty_iff.mp empty, List.append_nil]
  case isFalse => rw [List.flatten_append, List.flatten_singleton]

theorem all_foldl_add (size : Nat) (items : List α) (b : Batches α) :
    (items.foldl (add size) b).all = b.all ++ items := by
  induction items generalizing b with
  | nil => exact (List.append_nil _).symm
  | cons x items ih => rw [List.foldl_cons, ih, all_add, List.append_assoc, List.singleton_append]

end Batches

/-- `slice::chunks`. -/
def chunks {α : Type} (size : Nat) (items : List α) : List (List α) :=
  (items.foldl (Batches.add size) {}).close

theorem flatten_chunks {α : Type} (size : Nat) (items : List α) : (chunks size items).flatten = items := by
  rw [chunks, Batches.flatten_close, Batches.all_foldl_add]
  rfl

section Paging

variable {ρ κ : Type} [LinearOrder κ] (key : ρ → κ)

/-- The rows past a key. -/
def past (rows : List ρ) (after : Option κ) : List ρ :=
  rows.filter fun row => after.all fun k => decide (k < key row)

/-- One page: the first rows past a key, by ascending key. -/
def page (limit : Nat) (rows : List ρ) (after : Option κ) : List ρ :=
  ((past key rows after).insertionSort fun a b => key a ≤ key b).take limit

/-- Page after page until one is short, for at most so many pages. -/
def pages (limit : Nat) (rows : List ρ) : Nat → Option κ → List (List ρ)
  | 0, _ => []
  | fuel + 1, after =>
    let batch := page key limit rows after
    if batch.isEmpty then []
    else if batch.length < limit then [batch]
    else batch :: pages limit rows fuel (batch.getLast?.map key)

variable {key}

theorem past_past (rows : List ρ) {after : Option κ} {k : κ} (later : ∀ a, after = some a → a < k) :
    past key rows (some k) = past key (past key rows after) (some k) := by
  simp only [past, List.filter_filter, Option.all_some]
  refine List.filter_congr fun row _ => ?_
  cases after with
  | none => simp only [Option.all_none, Bool.and_true]
  | some a =>
    have below := later a rfl
    by_cases beyond : k < key row
    · simp only [beyond, below.trans beyond, Option.all_some, decide_true, Bool.and_true]
    · simp only [beyond, decide_false, Bool.false_and]

/-- Past the last row of a prefix of an ascending list lies the rest of it. -/
theorem past_append {front back : List ρ} {last : ρ} (final : front.getLast? = some last)
    (ascending : (front ++ back).Pairwise fun a b => key a < key b) :
    past key (front ++ back) (some (key last)) = back := by
  obtain ⟨early, rfl⟩ := List.getLast?_eq_some_iff.mp final
  obtain ⟨inner, later, across⟩ := List.pairwise_append.mp ascending
  have none_early : past key (early ++ [last]) (some (key last)) = [] := by
    refine List.filter_eq_nil_iff.mpr fun row member => ?_
    simp only [Option.all_some, decide_eq_true_eq, not_lt]
    rcases List.mem_append.mp member with member | member
    · exact le_of_lt ((List.pairwise_append.mp inner).2.2 row member last (List.mem_singleton_self _))
    · exact (congrArg key (List.mem_singleton.mp member)).le
  have all_late : past key back (some (key last)) = back := by
    refine List.filter_eq_self.mpr fun row member => ?_
    simp only [Option.all_some, decide_eq_true_eq]
    exact across last (List.mem_append.mpr (Or.inr (List.mem_singleton_self _))) row member
  rw [past, List.filter_append]
  exact (congrArg₂ _ none_early all_late).trans (List.nil_append _)

theorem sorted_ascending {rows : List ρ} (distinct : (rows.map key).Nodup) :
    (rows.insertionSort fun a b => key a ≤ key b).Pairwise fun a b => key a < key b := by
  have : Std.Total fun a b : ρ => key a ≤ key b := ⟨fun a b => le_total (key a) (key b)⟩
  have : IsTrans ρ fun a b => key a ≤ key b := ⟨fun _ _ _ => le_trans⟩
  have sorted := List.pairwise_insertionSort (fun a b : ρ => key a ≤ key b) rows
  have perm := (List.perm_insertionSort (fun a b : ρ => key a ≤ key b) rows).map key
  have apart : (rows.insertionSort fun a b => key a ≤ key b).Pairwise fun a b => key a ≠ key b :=
    List.pairwise_map.mp (perm.nodup_iff.mpr distinct)
  exact (sorted.and apart).imp fun both => lt_of_le_of_ne both.1 both.2

/-- With enough pages every row past the key is on one page, once. -/
theorem pages_perm {limit : Nat} {rows : List ρ} (distinct : (rows.map key).Nodup) (some_rows : 0 < limit) :
    ∀ (fuel : Nat) (after : Option κ), (past key rows after).length < fuel →
      (pages key limit rows fuel after).flatten.Perm (past key rows after) := by
  intro fuel
  induction fuel with
  | zero => intro after short; omega
  | succ fuel ih =>
    intro after short
    have perm := List.perm_insertionSort (fun a b : ρ => key a ≤ key b) (past key rows after)
    have ascending := sorted_ascending (distinct.sublist (List.filter_sublist.map key) :
      ((past key rows after).map key).Nodup)
    generalize sorted_is : (past key rows after).insertionSort (fun a b => key a ≤ key b) = sorted at perm ascending
    have batch_is : page key limit rows after = sorted.take limit := by rw [page, sorted_is]
    simp only [pages, batch_is]
    split
    case isTrue empty =>
      have nothing : sorted = [] := by
        cases sorted with
        | nil => rfl
        | cons x xs => cases limit with
          | zero => omega
          | succ _ => cases empty
      rw [nothing] at perm
      exact perm
    case isFalse some_batch =>
      split
      case isTrue less =>
        have whole : sorted.take limit = sorted := by
          rw [List.length_take] at less
          exact List.take_of_length_le (by omega)
        rw [whole, List.flatten_singleton]
        exact perm
      case isFalse filled =>
        have some_last : ∃ last, (sorted.take limit).getLast? = some last := by
          cases last : (sorted.take limit).getLast? with
          | none => exact absurd (List.getLast?_eq_none_iff.mp last) (by simpa using some_batch)
          | some x => exact ⟨x, rfl⟩
        obtain ⟨last, final⟩ := some_last
        have member : last ∈ past key rows after :=
          perm.mem_iff.mp (List.mem_of_mem_take (List.mem_of_getLast? final))
        have later : ∀ a, after = some a → a < key last := by
          rintro a rfl
          have kept := (List.mem_filter.mp member).2
          exact of_decide_eq_true kept
        have rest : (past key rows (some (key last))).Perm (sorted.drop limit) := by
          rw [past_past rows later]
          have same := perm.symm.filter fun row => decide (key last < key row)
          have split := List.take_append_drop limit sorted
          rw [← split] at same ascending
          have tail := past_append final ascending
          exact same.trans (List.Perm.of_eq tail)
        have fewer : (past key rows (some (key last))).length < fuel := by
          have count := perm.length_eq
          rw [rest.length_eq, List.length_drop]
          rw [List.length_take] at filled
          omega
        rw [List.flatten_cons, final, Option.map_some]
        have tail := (ih (some (key last)) fewer).trans rest
        refine (List.Perm.append_left (sorted.take limit) tail).trans ?_
        rw [List.take_append_drop]
        exact perm

end Paging

end NixHomeServer.Library
