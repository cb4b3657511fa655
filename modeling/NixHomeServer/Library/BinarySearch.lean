import Mathlib.Order.Lattice
import Mathlib.Order.Compare
import Mathlib.Data.List.Basic

/-! Binary search for a key in rows that ascend strictly by it. The loop copies
the half-open window of the usual implementation; on strictly ascending rows it
finds exactly the row of the key. -/
namespace NixHomeServer.Library.BinarySearch

/-- The loop over the window from `lo` to `hi`; `probe` compares a row with the wanted key. -/
def loop (probe : Nat → Ordering) : Nat → Nat → Nat → Option Nat
  | 0, _, _ => none
  | fuel + 1, lo, hi =>
    if lo < hi then
      let mid := lo + (hi - lo) / 2
      match probe mid with
      | .eq => some mid
      | .lt => loop probe fuel (mid + 1) hi
      | .gt => loop probe fuel lo mid
    else none

def search (probe : Nat → Ordering) (size : Nat) : Option Nat := loop probe size 0 size

/-- Rows before one that is not above the key are below it. -/
def Ascending (probe : Nat → Ordering) (size : Nat) : Prop :=
  ∀ i j, i < j → j < size → probe j ≠ .gt → probe i = .lt

theorem loop_sound (probe : Nat → Ordering) (fuel lo hi i : Nat)
    (found : loop probe fuel lo hi = some i) : i < hi ∧ probe i = .eq := by
  induction fuel generalizing lo hi with
  | zero => cases found
  | succ fuel ih =>
    simp only [loop] at found
    split at found
    · rename_i window
      split at found
      · rename_i here
        cases found
        exact ⟨by omega, here⟩
      · exact ih _ _ found
      · obtain ⟨below, here⟩ := ih _ _ found
        exact ⟨by omega, here⟩
    · cases found

theorem loop_complete (probe : Nat → Ordering) (size fuel lo hi i : Nat)
    (ascending : Ascending probe size) (enough : hi - lo ≤ fuel) (within : hi ≤ size)
    (low : lo ≤ i) (high : i < hi) (here : probe i = .eq) : loop probe fuel lo hi = some i := by
  induction fuel generalizing lo hi with
  | zero => omega
  | succ fuel ih =>
    have window : lo < hi := by omega
    simp only [loop, if_pos window]
    have mid_lt : lo + (hi - lo) / 2 < hi := by omega
    split
    · rename_i at_mid
      have same : lo + (hi - lo) / 2 = i := by
        by_contra apart
        rcases Nat.lt_or_gt_of_ne apart with before | after
        · have below := ascending _ i before (by omega) (by rw [here]; nofun)
          rw [below] at at_mid
          cases at_mid
        · have below := ascending i _ after (by omega) (by rw [at_mid]; nofun)
          rw [below] at here
          cases here
      rw [same]
    · rename_i at_mid
      have right : lo + (hi - lo) / 2 < i := by
        by_contra left
        rcases Nat.lt_or_eq_of_le (Nat.le_of_not_lt left) with after | same
        · have below := ascending i _ after (by omega) (by rw [at_mid]; nofun)
          rw [below] at here
          cases here
        · rw [← same, here] at at_mid
          cases at_mid
      exact ih _ hi (by omega) within (by omega) high
    · rename_i at_mid
      have left : i < lo + (hi - lo) / 2 := by
        by_contra right
        rcases Nat.lt_or_eq_of_le (Nat.le_of_not_lt right) with before | same
        · have below := ascending _ i before (by omega) (by rw [here]; nofun)
          rw [below] at at_mid
          cases at_mid
        · rw [same, here] at at_mid
          cases at_mid
      exact ih lo _ (by omega) (by omega) low left

theorem search_eq_some_iff (probe : Nat → Ordering) (size i : Nat)
    (ascending : Ascending probe size) :
    search probe size = some i ↔ i < size ∧ probe i = .eq := by
  constructor
  · exact loop_sound probe size 0 size i
  · intro ⟨high, here⟩
    exact loop_complete probe size size 0 size i ascending (by omega) (Nat.le_refl _)
      (Nat.zero_le i) high here

section Rows

variable {ρ κ : Type} [LinearOrder κ]

def probeAt (key : ρ → κ) (rows : List ρ) (k : κ) (i : Nat) : Ordering :=
  match rows[i]? with
  | some row => cmp (key row) k
  | none => .gt

/-- The position of the row with the key. -/
def position (key : ρ → κ) (rows : List ρ) (k : κ) : Option Nat :=
  search (probeAt key rows k) rows.length

theorem probeAt_of_lt (key : ρ → κ) (rows : List ρ) (k : κ) {i : Nat} (within : i < rows.length) :
    probeAt key rows k i = cmp (key rows[i]) k := by
  rw [probeAt, List.getElem?_eq_getElem within]

theorem probeAt_ascending (key : ρ → κ) (rows : List ρ) (k : κ)
    (sorted : rows.Pairwise (fun a b => key a < key b)) :
    Ascending (probeAt key rows k) rows.length := by
  intro i j less within not_above
  have before : i < rows.length := Nat.lt_trans less within
  have ordered := List.pairwise_iff_getElem.mp sorted i j before within less
  rw [probeAt_of_lt _ _ _ within] at not_above
  rw [probeAt_of_lt _ _ _ before, cmp_eq_lt_iff]
  have reached : key rows[j] ≤ k := by
    by_contra above
    exact not_above ((cmp_eq_gt_iff _ _).mpr (lt_of_not_ge above))
  exact lt_of_lt_of_le ordered reached

theorem position_eq_some_iff (key : ρ → κ) (rows : List ρ) (k : κ) (i : Nat)
    (sorted : rows.Pairwise (fun a b => key a < key b)) :
    position key rows k = some i ↔ ∃ row, rows[i]? = some row ∧ key row = k := by
  rw [position, search_eq_some_iff _ _ _ (probeAt_ascending key rows k sorted)]
  constructor
  · rintro ⟨within, here⟩
    refine ⟨rows[i], List.getElem?_eq_getElem within, ?_⟩
    rw [probeAt_of_lt _ _ _ within] at here
    exact (cmp_eq_eq_iff _ _).mp here
  · rintro ⟨row, at_i, same⟩
    refine ⟨(List.getElem?_eq_some_iff.mp at_i).1, ?_⟩
    rw [probeAt, at_i]
    exact (cmp_eq_eq_iff _ _).mpr same

end Rows

end NixHomeServer.Library.BinarySearch
