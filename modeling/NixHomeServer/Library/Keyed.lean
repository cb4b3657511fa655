import Mathlib.Data.List.Nodup

/-! Rows under a key that each row carries. A write replaces the row of its key;
writes and deletions have one lookup law each, and so have lists of writes with
distinct keys. -/
namespace NixHomeServer.Library

structure Keyed {ρ κ : Type} (key : ρ → κ) where
  rows : List ρ
  distinct : (rows.map key).Nodup

namespace Keyed

variable {ρ κ : Type} [DecidableEq κ] {key : ρ → κ}

def empty : Keyed key := ⟨[], List.nodup_nil⟩

def get (t : Keyed key) (k : κ) : Option ρ := t.rows.find? fun row => key row = k

/-- A `DELETE` of the rows that are not kept. -/
def filter (t : Keyed key) (keep : ρ → Bool) : Keyed key where
  rows := t.rows.filter keep
  distinct := t.distinct.sublist (List.filter_sublist.map key)

/-- An insert that replaces the row of the same key. -/
def put (t : Keyed key) (row : ρ) : Keyed key where
  rows := (t.filter fun other => key other ≠ key row).rows ++ [row]
  distinct := by
    simp only [List.map_append, List.map_cons, List.map_nil]
    refine List.nodup_append.mpr ⟨(t.filter _).distinct, List.nodup_singleton _, ?_⟩
    rintro k member l single rfl
    obtain ⟨other, kept, keyed⟩ := List.mem_map.mp member
    have differs := of_decide_eq_true (List.mem_filter.mp kept).2
    exact differs (keyed.trans (List.mem_singleton.mp single))

/-- An `UPDATE` that keeps the keys. -/
def mapRows (t : Keyed key) (f : ρ → ρ) (same : ∀ row, key (f row) = key row) : Keyed key where
  rows := t.rows.map f
  distinct := by
    have keys : (t.rows.map f).map key = t.rows.map key := by
      rw [List.map_map]
      exact List.map_congr_left fun row _ => same row
    exact keys ▸ t.distinct

def putAll (t : Keyed key) (rows : List ρ) : Keyed key := rows.foldl put t

@[simp] theorem get_empty (k : κ) : (empty : Keyed key).get k = none := rfl

theorem get_eq_some {t : Keyed key} {k : κ} {row : ρ} : t.get k = some row ↔ row ∈ t.rows ∧ key row = k := by
  constructor
  · intro found
    have same := List.find?_some found
    exact ⟨List.mem_of_find?_eq_some found, of_decide_eq_true same⟩
  · rintro ⟨member, rfl⟩
    cases found : t.get (key row) with
    | none => exact absurd (decide_eq_true rfl) (List.find?_eq_none.mp found row member)
    | some other =>
      have same := List.find?_some found
      exact congrArg some (List.inj_on_of_nodup_map t.distinct (List.mem_of_find?_eq_some found) member
        (of_decide_eq_true same))

theorem key_of_get {t : Keyed key} {k : κ} {row : ρ} (found : t.get k = some row) : key row = k :=
  (get_eq_some.mp found).2

theorem mem_iff_get {t : Keyed key} {row : ρ} : row ∈ t.rows ↔ t.get (key row) = some row := by
  rw [get_eq_some]
  exact ⟨fun member => ⟨member, rfl⟩, And.left⟩

/-- Tables that answer alike have the same rows. -/
theorem rows_perm {t other : Keyed key} (alike : ∀ k, t.get k = other.get k) : t.rows.Perm other.rows := by
  refine (List.perm_ext_iff_of_nodup (List.Nodup.of_map _ t.distinct) (List.Nodup.of_map _ other.distinct)).mpr fun row => ?_
  rw [mem_iff_get, mem_iff_get, alike]

theorem get_filter (t : Keyed key) (keep : ρ → Bool) (k : κ) : (t.filter keep).get k = (t.get k).filter keep := by
  apply Option.ext
  intro row
  rw [get_eq_some, Option.filter_eq_some_iff, get_eq_some]
  simp only [filter, List.mem_filter]
  exact and_right_comm

theorem get_filter_not_mem (t : Keyed key) (ks : List κ) (k : κ) :
    (t.filter fun row => key row ∉ ks).get k = if k ∈ ks then none else t.get k := by
  rw [get_filter]
  cases found : t.get k with
  | none => simp
  | some row =>
    rw [Option.filter_some, key_of_get found]
    by_cases inside : k ∈ ks <;> simp [inside]

theorem get_mapRows (t : Keyed key) (f : ρ → ρ) (same : ∀ row, key (f row) = key row) (k : κ) :
    (t.mapRows f same).get k = (t.get k).map f := by
  unfold get mapRows
  rw [List.find?_map]
  congr 2
  funext row
  simp [same]

theorem mem_put {t : Keyed key} {row other : ρ} :
    other ∈ (t.put row).rows ↔ (other ∈ t.rows ∧ key other ≠ key row) ∨ other = row := by
  simp only [put, filter, List.mem_append, List.mem_filter, decide_eq_true_eq, List.mem_singleton]

theorem get_put (t : Keyed key) (row : ρ) (k : κ) :
    (t.put row).get k = if key row = k then some row else t.get k := by
  split
  case isTrue same => exact get_eq_some.mpr ⟨mem_put.mpr (Or.inr rfl), same⟩
  case isFalse other =>
    apply Option.ext
    intro found
    rw [get_eq_some, get_eq_some, mem_put]
    constructor
    · rintro ⟨⟨member, _⟩ | rfl, keyed⟩
      · exact ⟨member, keyed⟩
      · exact absurd keyed other
    · rintro ⟨member, keyed⟩
      exact ⟨Or.inl ⟨member, fun same => other (same.symm.trans keyed)⟩, keyed⟩

theorem putAll_append (t : Keyed key) (early late : List ρ) :
    t.putAll (early ++ late) = (t.putAll early).putAll late :=
  List.foldl_append

/-- The last write of a key is what is found. -/
theorem get_putAll (t : Keyed key) (rows : List ρ) (k : κ) :
    (t.putAll rows).get k = (rows.reverse.find? fun row => key row = k).or (t.get k) := by
  induction rows generalizing t with
  | nil => rfl
  | cons row rows ih =>
    have first : (t.putAll (row :: rows)) = (t.put row).putAll rows := rfl
    rw [first, ih, get_put, List.reverse_cons, List.find?_append, List.find?_singleton]
    cases rows.reverse.find? fun row => key row = k with
    | some found => rfl
    | none => by_cases same : key row = k <;> simp [same]

/-- Writes of distinct keys that are not there yet are appended. -/
theorem rows_putAll (t : Keyed key) {rows : List ρ} (distinct : (rows.map key).Nodup)
    (fresh : ∀ row ∈ rows, ∀ other ∈ t.rows, key other ≠ key row) : (t.putAll rows).rows = t.rows ++ rows := by
  induction rows generalizing t with
  | nil => exact (List.append_nil _).symm
  | cons row rest ih =>
    obtain ⟨new, distinct⟩ := List.nodup_cons.mp distinct
    have kept : (t.put row).rows = t.rows ++ [row] := by
      have all : (t.rows.filter fun other => key other ≠ key row) = t.rows :=
        List.filter_eq_self.mpr fun other member => decide_eq_true (fresh row List.mem_cons_self other member)
      exact congrArg (· ++ [row]) all
    have later : ∀ next ∈ rest, ∀ other ∈ (t.put row).rows, key other ≠ key next := by
      intro next member other there
      rw [kept] at there
      rcases List.mem_append.mp there with before | same
      · exact fresh next (List.mem_cons_of_mem _ member) other before
      · obtain rfl := List.mem_singleton.mp same
        exact fun same => new (same ▸ List.mem_map_of_mem member)
    have tail := ih (t.put row) distinct later
    rw [kept, List.append_assoc, List.singleton_append] at tail
    exact tail

/-- What is there after writes is one of them or was there before. -/
theorem get_putAll_cases (t : Keyed key) {rows : List ρ} {k : κ} {row : ρ}
    (found : (t.putAll rows).get k = some row) : row ∈ rows ∨ t.get k = some row := by
  rw [get_putAll, Option.or_eq_some_iff] at found
  rcases found with written | ⟨-, before⟩
  · exact .inl (List.mem_reverse.mp (List.mem_of_find?_eq_some written))
  · exact .inr before

theorem isSome_putAll (t : Keyed key) (rows : List ρ) {k : κ} (there : (t.get k).isSome) :
    ((t.putAll rows).get k).isSome := by
  rw [get_putAll, Option.isSome_or, there, Bool.or_true]

omit [DecidableEq κ] in
theorem filter_filter (t : Keyed key) (p q : ρ → Bool) : (t.filter p).filter q = t.filter fun row => q row && p row := by
  simp only [filter, List.filter_filter]

omit [DecidableEq κ] in
theorem filter_not_mem_append (t : Keyed key) {α : Type} [DecidableEq α] (f : ρ → α) (early late : List α) :
    (t.filter fun row => f row ∉ early).filter (fun row => f row ∉ late) = t.filter fun row => f row ∉ early ++ late := by
  rw [filter_filter]
  congr 1
  funext row
  by_cases first : f row ∈ early <;> by_cases last : f row ∈ late <;> simp [first, last]

end Keyed

end NixHomeServer.Library
