import Mathlib.Data.List.Sort
import Mathlib.Data.List.Dedup

/-! Keyed rows read in key order through a window of keys.
A row without a key is never read. Two adjacent windows read one after the
other read what their union reads, and rows outside a window do not change it. -/
namespace NixHomeServer.Library.Timeline

variable {ρ κ σ : Type} [LinearOrder κ]

/-- The distinct keys of the window, ascending. -/
def keys (key : ρ → Option κ) (window : κ → Bool) (rows : List ρ) : List κ :=
  ((rows.filterMap key).filter window).dedup.insertionSort (· ≤ ·)

/-- All rows that carry one key. -/
def group (key : ρ → Option κ) (k : κ) (rows : List ρ) : List ρ :=
  rows.filter (fun r => decide (key r = some k))

/-- One sample for each group that `pick` accepts, in key order. -/
def series (key : ρ → Option κ) (pick : κ → List ρ → Option σ) (window : κ → Bool)
    (rows : List ρ) : List σ :=
  (keys key window rows).filterMap (fun k => pick k (group key k rows))

theorem mem_keys (key : ρ → Option κ) (window : κ → Bool) (rows : List ρ) (k : κ) :
    k ∈ keys key window rows ↔ (∃ r ∈ rows, key r = some k) ∧ window k = true := by
  simp only [keys, List.mem_insertionSort, List.mem_dedup, List.mem_filter, List.mem_filterMap]

theorem keys_ascending (key : ρ → Option κ) (window : κ → Bool) (rows : List ρ) :
    (keys key window rows).Pairwise (· < ·) := by
  have sorted := List.pairwise_insertionSort (· ≤ ·) ((rows.filterMap key).filter window).dedup
  have distinct : (keys key window rows).Nodup :=
    (List.perm_insertionSort _ _).nodup_iff.mpr (List.nodup_dedup _)
  exact (sorted.and distinct).imp fun both => lt_of_le_of_ne both.1 both.2

/-- Two adjacent windows list their keys one after the other. -/
theorem keys_append (key : ρ → Option κ) (early late whole : κ → Bool) (rows : List ρ)
    (covers : ∀ k, whole k = (early k || late k))
    (ordered : ∀ a b, early a = true → late b = true → a < b) :
    keys key whole rows = keys key early rows ++ keys key late rows := by
  apply List.Pairwise.eq_of_mem_iff (keys_ascending key whole rows)
  · refine List.pairwise_append.mpr
      ⟨keys_ascending key early rows, keys_ascending key late rows, ?_⟩
    intro a inEarly b inLate
    exact ordered a b ((mem_keys ..).mp inEarly).2 ((mem_keys ..).mp inLate).2
  · intro k
    simp only [List.mem_append, mem_keys, covers, Bool.or_eq_true, and_or_left]

theorem series_append (key : ρ → Option κ) (pick : κ → List ρ → Option σ)
    (early late whole : κ → Bool) (rows : List ρ)
    (covers : ∀ k, whole k = (early k || late k))
    (ordered : ∀ a b, early a = true → late b = true → a < b) :
    series key pick whole rows = series key pick early rows ++ series key pick late rows := by
  simp only [series, keys_append key early late whole rows covers ordered, List.filterMap_append]

/-- Rows outside the window leave its series unchanged. -/
theorem series_frame (key : ρ → Option κ) (pick : κ → List ρ → Option σ) (window : κ → Bool)
    (rows fresh : List ρ)
    (outside : ∀ r ∈ fresh, ∀ k, key r = some k → window k = false) :
    series key pick window (rows ++ fresh) = series key pick window rows := by
  have same_keys : keys key window (rows ++ fresh) = keys key window rows := by
    apply List.Pairwise.eq_of_mem_iff (keys_ascending ..) (keys_ascending ..)
    intro k
    simp only [mem_keys, List.mem_append]
    constructor
    · rintro ⟨⟨r, member, named⟩, kept⟩
      rcases member with old | new
      · exact ⟨⟨r, old, named⟩, kept⟩
      · rw [outside r new k named] at kept
        cases kept
    · rintro ⟨⟨r, member, named⟩, kept⟩
      exact ⟨⟨r, Or.inl member, named⟩, kept⟩
  simp only [series, same_keys]
  apply List.filterMap_congr
  intro k inWindow
  have kept : window k = true := ((mem_keys ..).mp inWindow).2
  have none_new : group key k fresh = [] := by
    apply List.filter_eq_nil_iff.mpr
    intro r member named
    rw [outside r member k (of_decide_eq_true named)] at kept
    cases kept
  simp only [group, List.filter_append] at none_new ⊢
  rw [none_new, List.append_nil]

theorem series_congr_window (key : ρ → Option κ) (pick : κ → List ρ → Option σ)
    (window window' : κ → Bool) (rows : List ρ) (same : ∀ k, window k = window' k) :
    series key pick window rows = series key pick window' rows := by
  rw [funext same]

/-- The samples come from distinct groups of the window, in strictly ascending order. -/
theorem series_pairwise (key : ρ → Option κ) (pick : κ → List ρ → Option σ) (stamp : σ → κ)
    (window : κ → Bool) (rows : List ρ)
    (stamped : ∀ k g s, pick k g = some s → stamp s = k) :
    (series key pick window rows).Pairwise (fun a b => stamp a < stamp b) ∧
    ∀ s ∈ series key pick window rows, window (stamp s) = true := by
  constructor
  · apply List.Pairwise.filterMap _ _ (keys_ascending key window rows)
    intro a b less s picked t picked'
    rw [stamped _ _ _ picked, stamped _ _ _ picked']
    exact less
  · intro s member
    obtain ⟨k, inWindow, picked⟩ := List.mem_filterMap.mp member
    rw [stamped _ _ _ picked]
    exact ((mem_keys ..).mp inWindow).2

end NixHomeServer.Library.Timeline
