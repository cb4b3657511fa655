import NixHomeServer.Filesync.Settle

/-! The hashes that a fresh manifest takes over from the one before it: the merge
of two sorted listings looks every entry up. -/
namespace NixHomeServer.Filesync

/-- The same file with the same metadata, and its hash. -/
def Source (previous : List ManifestEntry) (e : ManifestEntry) (h : String) : Prop :=
  ∃ c ∈ previous, c.path = e.path ∧ c.size = e.size ∧ c.mtimeUnixMs = e.mtimeUnixMs ∧ c.hash = some h

def carriedHash (previous : List ManifestEntry) (e : ManifestEntry) : Option String :=
  (previous.find? fun c => decide (c.path = e.path)).bind fun c =>
    if c.size ≠ e.size ∨ c.mtimeUnixMs ≠ e.mtimeUnixMs then none else c.hash

def carry (previous : List ManifestEntry) (e : ManifestEntry) : ManifestEntry :=
  match carriedHash previous e with
  | some hash => { e with hash := some hash }
  | none => e

abbrev Ascending (entries : List ManifestEntry) : Prop := entries.Pairwise fun a b => a.path < b.path

section Lookup

variable {previous later : List ManifestEntry} {c e : ManifestEntry} {h : String}

theorem carriedHash_skip (skipped : List ManifestEntry) (other : ∀ c ∈ skipped, c.path ≠ e.path) :
    carriedHash (skipped ++ later) e = carriedHash later e := by
  have none : skipped.find? (fun c => decide (c.path = e.path)) = none :=
    List.find?_eq_none.mpr fun c member same => other c member (of_decide_eq_true same)
  rw [carriedHash, List.find?_append, none, Option.none_or, carriedHash]

theorem carriedHash_absent (other : ∀ c ∈ previous, c.path ≠ e.path) : carriedHash previous e = none := by
  have skip : carriedHash (previous ++ []) e = carriedHash [] e := carriedHash_skip previous other
  rwa [List.append_nil] at skip

theorem carriedHash_first (same : c.path = e.path) : carriedHash (c :: later) e =
    if c.size ≠ e.size ∨ c.mtimeUnixMs ≠ e.mtimeUnixMs then none else c.hash := by
  rw [carriedHash, List.find?_cons_of_pos (by rw [decide_eq_true_eq]; exact same), Option.bind_some]

theorem carriedHash_eq_some (sorted : Ascending previous) : carriedHash previous e = some h ↔ Source previous e h := by
  constructor
  · intro carried
    obtain ⟨c, found, hash⟩ := Option.bind_eq_some_iff.mp carried
    have same : c.path = e.path := by simpa using List.find?_some found
    split at hash
    · cases hash
    · rename_i agree
      simp only [ne_eq, not_or, not_not] at agree
      exact ⟨c, List.mem_of_find?_eq_some found, same, agree.1, agree.2, hash⟩
  · rintro ⟨c, member, path, size, time, hash⟩
    obtain ⟨before, after, rfl⟩ := List.append_of_mem member
    have less : ∀ d ∈ before, d.path ≠ e.path := fun d earlier same => by
      have below := (List.pairwise_append.mp sorted).2.2 d earlier c List.mem_cons_self
      exact absurd (same.trans path.symm) (ne_of_lt below)
    rw [carriedHash_skip before less, carriedHash_first path, if_neg (by simp [size, time]), hash]

end Lookup

/-- Every entry looked up for itself, and how many were found. -/
def lookedUp (previous entries : List ManifestEntry) : List ManifestEntry × Nat :=
  (entries.map (carry previous), (entries.filter fun e => (carriedHash previous e).isSome).length)

theorem lookedUp_congr {previous later entries : List ManifestEntry}
    (same : ∀ d ∈ entries, carriedHash previous d = carriedHash later d) : lookedUp previous entries = lookedUp later entries := by
  refine Prod.ext (List.map_congr_left fun d member => by rw [carry, carry, same d member]) ?_
  exact congrArg List.length (List.filter_congr fun d member => by rw [same d member])

theorem lookedUp_absent {previous entries : List ManifestEntry} (none : ∀ d ∈ entries, carriedHash previous d = none) :
    lookedUp previous entries = (entries, 0) := by
  refine Prod.ext ?_ ?_
  · conv => rhs; rw [← List.map_id entries]
    exact List.map_congr_left fun d member => by rw [carry, none d member]; rfl
  · rw [lookedUp, List.filter_eq_nil_iff.mpr fun d member => by rw [none d member]; nofun]
    rfl

theorem lookedUp_cons {previous entries : List ManifestEntry} {e : ManifestEntry} : lookedUp previous (e :: entries) =
    match carriedHash previous e with
    | some hash => ({ e with hash := some hash } :: (lookedUp previous entries).1, (lookedUp previous entries).2 + 1)
    | none => (e :: (lookedUp previous entries).1, (lookedUp previous entries).2) := by
  simp only [lookedUp, List.map_cons, List.filter_cons, carry]
  cases carriedHash previous e <;> rfl

/-- The merge of two sorted listings is a lookup of each entry. -/
theorem reuseLoop_eq (entries previous : List ManifestEntry) (fresh : Ascending entries) (sorted : Ascending previous) :
    reuseLoop entries previous = lookedUp previous entries := by
  induction entries generalizing previous with
  | nil => rfl
  | cons e rest ih =>
    obtain ⟨first, ascending⟩ := List.pairwise_cons.mp fresh
    obtain ⟨skipped, split⟩ : ∃ skipped, skipped = previous.takeWhile fun c => decide (c.path < e.path) := ⟨_, rfl⟩
    have below : ∀ c ∈ skipped, c.path < e.path := by
      subst split
      exact fun c member => of_decide_eq_true (List.all_eq_true.mp List.all_takeWhile c member)
    have whole : skipped ++ previous.dropWhile (fun c => decide (c.path < e.path)) = previous := by
      rw [split, List.takeWhile_append_dropWhile]
    have past : ∀ later, ∀ d ∈ e :: rest, carriedHash (skipped ++ later) d = carriedHash later d := by
      intro later d member
      refine carriedHash_skip skipped fun c earlier => ?_
      rcases List.mem_cons.mp member with rfl | after
      · exact ne_of_lt (below c earlier)
      · exact ne_of_lt (lt_trans (below c earlier) (first d after))
    rw [reuseLoop]
    split
    · rename_i ended
      rw [ended] at whole
      exact (lookedUp_absent fun d member => by rw [← whole, past [] d member]; rfl).symm
    · rename_i candidate later ahead
      rw [ahead] at whole
      have tail : Ascending (candidate :: later) := (List.pairwise_append.mp (whole ▸ sorted)).2.1
      have stopped := List.head?_dropWhile_not (fun c => decide (c.path < e.path)) previous
      simp only [ahead, List.head?_cons, decide_eq_false_iff_not] at stopped
      rw [← whole, lookedUp_congr (past _)]
      split
      · rename_i other
        have above : e.path < candidate.path := lt_of_le_of_ne (not_lt.mp stopped) (Ne.symm other)
        have none : carriedHash (candidate :: later) e = none := by
          refine carriedHash_absent fun c member => ?_
          rcases List.mem_cons.mp member with rfl | after
          · exact other
          · exact ne_of_gt (lt_trans above ((List.pairwise_cons.mp tail).1 c after))
        rw [ih _ ascending tail, lookedUp_cons, none]
      · rename_i same
        rw [not_not] at same
        have rest_past : ∀ d ∈ rest, carriedHash (candidate :: later) d = carriedHash later d := fun d member =>
          carriedHash_skip [candidate] fun c single => by
            rw [List.mem_singleton.mp single, same]
            exact ne_of_lt (first d member)
        rw [lookedUp_cons, carriedHash_first same, lookedUp_congr rest_past, ih _ ascending tail.of_cons]
        split
        · rfl
        · cases candidate.hash <;> rfl

/-- A hash is carried over exactly from the same file with the same metadata; every other entry is
as it was, and the count is of the hashes carried over. -/
theorem reuseHashes_pointwise (m previous : Manifest) (fresh : m.Sorted) (sorted : previous.Sorted) :
    ∃ carried : ManifestEntry → Option String,
      (∀ e h, carried e = some h ↔ Source previous.entries e h) ∧
      reuseHashes m (some previous) = { m with
        entries := m.entries.map fun e => match carried e with
          | some hash => { e with hash := some hash }
          | none => e
        reused := m.reused + (m.entries.filter fun e => (carried e).isSome).length } := by
  refine ⟨carriedHash previous.entries, fun e h => carriedHash_eq_some sorted, ?_⟩
  rw [reuseHashes, reuseLoop_eq m.entries previous.entries fresh sorted]
  rfl

/-- A changed size, a new file and a file that is gone. -/
theorem reuseHashes_example :
    let previous : Manifest := { entries := [⟨"a", 10, 1, some "aaa"⟩, ⟨"c", 30, 3, some "ccc"⟩, ⟨"e", 50, 5, some "eee"⟩] }
    let m : Manifest := { entries := [⟨"a", 10, 1, none⟩, ⟨"b", 20, 2, none⟩, ⟨"c", 31, 3, none⟩] }
    ∃ carried : ManifestEntry → Option String,
      (∀ e h, carried e = some h ↔ Source previous.entries e h) ∧
      reuseHashes m (some previous) = { m with
        entries := m.entries.map fun e => match carried e with
          | some hash => { e with hash := some hash }
          | none => e
        reused := m.reused + (m.entries.filter fun e => (carried e).isSome).length } := by
  refine reuseHashes_pointwise _ _ ?_ ?_ <;> decide

end NixHomeServer.Filesync
