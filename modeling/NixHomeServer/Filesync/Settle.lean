import Mathlib.Algebra.GroupWithZero.Nat
import NixHomeServer.Filesync.Transfer

/-! What one pass of the diff computes: both loops settle every file of the source
from the manifest they started with, and tally the outcomes. -/
namespace NixHomeServer.Filesync

open NixHomeServer.Library

section Tally

/-- One settled file, under the outcome the loops give it. -/
def DiffResult.record (r : DiffResult) (path : Path) (size : Nat) : Outcome → DiffResult
  | .same => r.skip
  | .different => r.countPending path size
  | .needHash => r.waitFor path
  | .unreadable => r.giveUp path

variable {ι : Type}

def tally (path : ι → Path) (size : ι → Nat) (outcome : ι → Outcome) (r : DiffResult)
    (items : List ι) : DiffResult :=
  items.foldl (fun r x => r.record (path x) (size x) (outcome x)) r

variable (path : ι → Path) (size : ι → Nat) (outcome : ι → Outcome)

/-- The paths of the files with one outcome. -/
def settledAs (o : Outcome) (items : List ι) : List Path :=
  (items.filter (fun x => decide (outcome x = o))).map path

theorem settledAs_cons (o : Outcome) (x : ι) (rest : List ι) :
    settledAs path outcome o (x :: rest) =
      if outcome x = o then path x :: settledAs path outcome o rest
      else settledAs path outcome o rest := by
  unfold settledAs
  by_cases here : outcome x = o
  · rw [List.filter_cons_of_pos (by simpa only [decide_eq_true_eq] using here), if_pos here,
      List.map_cons]
  · rw [List.filter_cons_of_neg (by simpa only [decide_eq_true_eq] using here), if_neg here]

theorem mem_settledAs (o : Outcome) (items : List ι) (p : Path) :
    p ∈ settledAs path outcome o items ↔ ∃ x ∈ items, outcome x = o ∧ path x = p := by
  simp only [settledAs, List.mem_map, List.mem_filter, decide_eq_true_eq, and_assoc]

theorem tally_lists (r : DiffResult) (items : List ι) :
    (tally path size outcome r items).pending = r.pending ++ settledAs path outcome .different items ∧
      (tally path size outcome r items).needsHash =
        r.needsHash ++ settledAs path outcome .needHash items ∧
      (tally path size outcome r items).unreadable =
        r.unreadable ++ settledAs path outcome .unreadable items := by
  induction items generalizing r with
  | nil => simp only [tally, settledAs, List.foldl_nil, List.filter_nil, List.map_nil,
      List.append_nil, and_self]
  | cons x rest ih =>
    obtain ⟨pending, needs, unreadable⟩ := ih (r.record (path x) (size x) (outcome x))
    simp only [tally, List.foldl_cons] at pending needs unreadable ⊢
    rw [pending, needs, unreadable]
    simp only [settledAs_cons]
    cases outcome x <;>
      simp only [DiffResult.record, DiffResult.skip, DiffResult.countPending, DiffResult.waitFor,
        DiffResult.giveUp, reduceCtorEq, if_true, if_false, List.append_assoc, List.cons_append,
        List.nil_append, and_self]

theorem tally_counts (r : DiffResult) (items : List ι) :
    (tally path size outcome r items).pendingCount =
        r.pendingCount + (settledAs path outcome .different items).length ∧
      (tally path size outcome r items).skipped + (settledAs path outcome .different items).length +
          (settledAs path outcome .needHash items).length +
          (settledAs path outcome .unreadable items).length = r.skipped + items.length := by
  induction items generalizing r with
  | nil => exact ⟨rfl, rfl⟩
  | cons x rest ih =>
    obtain ⟨count, total⟩ := ih (r.record (path x) (size x) (outcome x))
    simp only [tally, List.foldl_cons] at count total ⊢
    simp only [settledAs_cons]
    cases found : outcome x <;>
      simp only [found, DiffResult.record, DiffResult.skip, DiffResult.countPending,
        DiffResult.waitFor, DiffResult.giveUp, reduceCtorEq, if_true, if_false,
        List.length_cons] at count total ⊢ <;> omega

/-- Saturating additions one by one saturate the sum. -/
theorem tally_bytes (r : DiffResult) (items : List ι) (start : r.pendingBytes ≤ u64Max) :
    (tally path size outcome r items).pendingBytes = min (r.pendingBytes +
      ((items.filter (fun x => decide (outcome x = .different))).map size).sum) u64Max := by
  induction items generalizing r with
  | nil =>
    simp only [tally, List.foldl_nil, List.filter_nil, List.map_nil, List.sum_nil]
    omega
  | cons x rest ih =>
    have saturated : (r.record (path x) (size x) (outcome x)).pendingBytes ≤ u64Max := by
      cases outcome x with
      | different => exact Nat.min_le_right _ _
      | same => exact start
      | needHash => exact start
      | unreadable => exact start
    have rest_bytes := ih (r.record (path x) (size x) (outcome x)) saturated
    simp only [tally, List.foldl_cons] at rest_bytes ⊢
    rw [rest_bytes]
    cases found : outcome x <;>
      simp only [found, DiffResult.record, DiffResult.skip, DiffResult.countPending,
        DiffResult.waitFor, DiffResult.giveUp, saturatingAdd, reduceCtorEq, decide_true,
        decide_false, Bool.false_eq_true, not_false_eq_true, List.filter_cons_of_pos,
        List.filter_cons_of_neg, List.map_cons, List.sum_cons]
    omega

theorem tally_congr (other : ι → Outcome) (r : DiffResult) (items : List ι)
    (same : ∀ x ∈ items, outcome x = other x) :
    tally path size outcome r items = tally path size other r items := by
  induction items generalizing r with
  | nil => rfl
  | cons x rest ih =>
    simp only [tally, List.foldl_cons, same x List.mem_cons_self]
    exact ih _ (fun y member => same y (List.mem_cons_of_mem _ member))

end Tally

section Lookup

abbrev Manifest.Sorted (m : Manifest) : Prop :=
  m.entries.Pairwise (fun a b => a.path < b.path)

theorem find_eq_some_iff (m : Manifest) (sorted : m.Sorted) (path : Path) (e : ManifestEntry) :
    m.find path = some e ↔ e ∈ m.entries ∧ e.path = path := by
  simp only [Manifest.find, Option.bind_eq_some_iff,
    BinarySearch.position_eq_some_iff _ _ _ _ sorted]
  constructor
  · rintro ⟨i, ⟨row, at_i, named⟩, found⟩
    rw [at_i] at found
    cases found
    exact ⟨List.mem_of_getElem? at_i, named⟩
  · rintro ⟨member, named⟩
    obtain ⟨i, at_i⟩ := List.mem_iff_getElem?.mp member
    exact ⟨i, ⟨e, at_i, named⟩, at_i⟩

theorem find_eq_none_iff (m : Manifest) (sorted : m.Sorted) (path : Path) :
    m.find path = none ↔ ∀ e ∈ m.entries, e.path ≠ path := by
  rw [Option.eq_none_iff_forall_ne_some]
  constructor
  · intro absent e member named
    exact absent e ((find_eq_some_iff m sorted path e).mpr ⟨member, named⟩)
  · intro absent e found
    obtain ⟨member, named⟩ := (find_eq_some_iff m sorted path e).mp found
    exact absent e member named

/-- One entry was renewed in place; the listing is as it was. -/
structure Renewed (index : Nat) (m m' : Manifest) : Prop where
  others : ∀ j, j ≠ index → m'.entries[j]? = m.entries[j]?
  paths : m'.entries.map ManifestEntry.path = m.entries.map ManifestEntry.path

theorem Renewed.refl (index : Nat) (m : Manifest) : Renewed index m m :=
  ⟨fun _ _ => rfl, rfl⟩

theorem Renewed.sorted {index : Nat} {m m' : Manifest} (renewed : Renewed index m m')
    (sorted : m.Sorted) : m'.Sorted := by
  have by_paths : (m'.entries.map ManifestEntry.path).Pairwise (· < ·) := by
    rw [renewed.paths]
    exact List.pairwise_map.mpr sorted
  exact List.pairwise_map.mp by_paths

theorem Renewed.path_at {index : Nat} {m m' : Manifest} (renewed : Renewed index m m') (j : Nat) :
    (m'.entries[j]?).map ManifestEntry.path = (m.entries[j]?).map ManifestEntry.path := by
  rw [← List.getElem?_map, ← List.getElem?_map, renewed.paths]

theorem Renewed.find {index : Nat} {m m' : Manifest} (renewed : Renewed index m m')
    (sorted : m.Sorted) (e : ManifestEntry) (at_index : m.entries[index]? = some e) (path : Path)
    (other : path ≠ e.path) : m'.find path = m.find path := by
  have same_position : ∀ j, BinarySearch.position ManifestEntry.path m'.entries path = some j ↔
      BinarySearch.position ManifestEntry.path m.entries path = some j := by
    intro j
    rw [BinarySearch.position_eq_some_iff _ _ _ _ (renewed.sorted sorted),
      BinarySearch.position_eq_some_iff _ _ _ _ sorted]
    have at_j := renewed.path_at j
    constructor
    · rintro ⟨row, found, named⟩
      rw [found, Option.map_some] at at_j
      obtain ⟨row', found', named'⟩ := Option.map_eq_some_iff.mp at_j.symm
      exact ⟨row', found', named'.trans named⟩
    · rintro ⟨row, found, named⟩
      rw [found, Option.map_some] at at_j
      obtain ⟨row', found', named'⟩ := Option.map_eq_some_iff.mp at_j
      exact ⟨row', found', named'.trans named⟩
  have positions := Option.ext same_position
  unfold Manifest.find
  rw [positions]
  cases found : BinarySearch.position ManifestEntry.path m.entries path with
  | none => rfl
  | some j =>
    obtain ⟨row, at_j, named⟩ := (BinarySearch.position_eq_some_iff _ _ _ _ sorted).mp found
    apply renewed.others
    intro same
    rw [same, at_index] at at_j
    cases at_j
    exact other named.symm

end Lookup

section Loops

variable (sha256 : Bytes → String) (folder : Folder)

/-- The digest an entry can be compared by: `none` fails the request, and `some none` is a file
that was listed but is not there. -/
def evidence (e : ManifestEntry) : Option (Option String) :=
  match e.hash with
  | some h => some (some h)
  | none =>
    match openAndRead folder e.path with
    | .bytes content => some (some (sha256 content))
    | .notFound => some none
    | .failed => none

/-- How one pass settles a file that both sides hold. -/
def settle (e : ManifestEntry) (l : LocalFile) : Option Outcome :=
  if e.size = l.size ∧ e.mtimeUnixMs = l.mtimeUnixMs then some .same
  else
    match l.hash with
    | none => some .needHash
    | some localHash =>
      match evidence sha256 folder e with
      | none => none
      | some none => some .unreadable
      | some (some remoteHash) => some (if remoteHash = localHash then .same else .different)

def judgeUpload (m : Manifest) (l : LocalFile) : Option Outcome :=
  match m.find l.path with
  | none => some .different
  | some e => settle sha256 folder e l

def judgeDownload (byPath : Path → Option LocalFile) (e : ManifestEntry) : Option Outcome :=
  match byPath e.path with
  | none => some .different
  | some l => settle sha256 folder e l

def settled (judgement : Option Outcome) : Outcome := judgement.getD .unreadable

theorem hashEntryAt_spec (m : Manifest) (index : Nat) (e : ManifestEntry)
    (at_index : m.entries[index]? = some e) :
    match evidence sha256 folder e with
    | none => hashEntryAt sha256 folder m index = .error .readFailed
    | some hash => ∃ m', hashEntryAt sha256 folder m index = .ok (hash, m') ∧ Renewed index m m' := by
  simp only [evidence, hashEntryAt, at_index]
  cases e.hash with
  | some h => exact ⟨m, rfl, Renewed.refl index m⟩
  | none =>
    cases openAndRead folder e.path with
    | notFound => exact ⟨m, rfl, Renewed.refl index m⟩
    | failed => rfl
    | bytes content =>
      refine ⟨_, rfl, ?_, ?_⟩
      · intro j other
        exact List.getElem?_set_ne (Ne.symm other)
      · rw [List.map_set]
        apply List.ext_getElem?
        intro j
        by_cases here : index = j
        · subst here
          have bound := (List.getElem?_eq_some_iff.mp at_index).1
          rw [List.getElem?_set_self (by rw [List.length_map]; exact bound), List.getElem?_map,
            at_index]
          rfl
        · rw [List.getElem?_set_ne here]

theorem compare_spec (m : Manifest) (sorted : m.Sorted) (e : ManifestEntry) (l : LocalFile)
    (r : DiffResult) (found : m.find l.path = some e) :
    match settle sha256 folder e l with
    | none => compare sha256 folder m l.path e.size e.mtimeUnixMs l r = .error .readFailed
    | some o => ∃ m', compare sha256 folder m l.path e.size e.mtimeUnixMs l r =
        .ok (o, m', if o = .needHash then r.waitFor l.path else r) ∧ m'.Sorted ∧
          ∀ q, q ≠ l.path → m'.find q = m.find q := by
  obtain ⟨member, named⟩ := (find_eq_some_iff m sorted l.path e).mp found
  obtain ⟨index, at_index⟩ := List.mem_iff_getElem?.mp member
  have position : BinarySearch.position ManifestEntry.path m.entries l.path = some index :=
    (BinarySearch.position_eq_some_iff _ _ _ _ sorted).mpr ⟨e, at_index, named⟩
  have hashed := hashEntryAt_spec sha256 folder m index e at_index
  by_cases agree : e.size = l.size ∧ e.mtimeUnixMs = l.mtimeUnixMs
  · simp only [settle, compare, if_pos agree]
    exact ⟨m, rfl, sorted, fun _ _ => rfl⟩
  · simp only [settle, compare, if_neg agree]
    cases l.hash with
    | none => exact ⟨m, rfl, sorted, fun _ _ => rfl⟩
    | some localHash =>
      simp only [hashEntry, position]
      cases known : evidence sha256 folder e with
      | none =>
        simp only [known] at hashed ⊢
        rw [hashed]
      | some hash =>
        simp only [known] at hashed ⊢
        obtain ⟨m', result, renewed⟩ := hashed
        have keeps : ∀ q, q ≠ l.path → m'.find q = m.find q := fun q other =>
          renewed.find sorted e at_index q (fun same => other (same.trans named))
        rw [result]
        cases hash with
        | none => exact ⟨m', rfl, renewed.sorted sorted, keeps⟩
        | some remoteHash =>
          refine ⟨m', ?_, renewed.sorted sorted, keeps⟩
          simp only
          split <;> rfl

/-- The upload loop fails at a file it cannot read, or tallies what the manifest says of each. -/
theorem uploadLoop_spec (locals : List LocalFile) (m : Manifest) (r : DiffResult) (sorted : m.Sorted)
    (unique : (locals.map LocalFile.path).Nodup) :
    ((∃ l ∈ locals, judgeUpload sha256 folder m l = none) ∧
      uploadLoop sha256 folder locals m r = .error .readFailed) ∨
    ((∀ l ∈ locals, judgeUpload sha256 folder m l ≠ none) ∧
      ∃ m', uploadLoop sha256 folder locals m r = .ok (m', tally LocalFile.path LocalFile.size
        (fun l => settled (judgeUpload sha256 folder m l)) r locals)) := by
  induction locals generalizing m r with
  | nil => exact Or.inr ⟨nofun, m, rfl⟩
  | cons l rest ih =>
    obtain ⟨apart, unique_rest⟩ := List.nodup_cons.mp unique
    -- What the manifest says of the later files is not touched by this one.
    have next : ∀ (o : Outcome) (m' : Manifest), judgeUpload sha256 folder m l = some o → m'.Sorted →
        (∀ q, q ≠ l.path → m'.find q = m.find q) →
        uploadLoop sha256 folder (l :: rest) m r =
          uploadLoop sha256 folder rest m' (r.record l.path l.size o) →
        ((∃ x ∈ l :: rest, judgeUpload sha256 folder m x = none) ∧
          uploadLoop sha256 folder (l :: rest) m r = .error .readFailed) ∨
        ((∀ x ∈ l :: rest, judgeUpload sha256 folder m x ≠ none) ∧
          ∃ m', uploadLoop sha256 folder (l :: rest) m r = .ok (m', tally LocalFile.path LocalFile.size
            (fun x => settled (judgeUpload sha256 folder m x)) r (l :: rest))) := by
      intro o m' judged sorted' keeps step
      have same : ∀ x ∈ rest, judgeUpload sha256 folder m' x = judgeUpload sha256 folder m x := by
        intro x member
        unfold judgeUpload
        rw [keeps x.path (fun named => apart (List.mem_map.mpr ⟨x, member, named⟩))]
      rcases ih m' (r.record l.path l.size o) sorted' unique_rest with
        ⟨⟨x, member, failed⟩, result⟩ | ⟨fine, m'', result⟩
      · exact Or.inl ⟨⟨x, List.mem_cons_of_mem _ member, (same x member).symm.trans failed⟩,
          step.trans result⟩
      · refine Or.inr ⟨?_, m'', ?_⟩
        · intro x member
          cases member with
          | head => rw [judged]; exact Option.some_ne_none o
          | tail _ later => rw [← same x later]; exact fine x later
        · rw [step, result]
          simp only [tally, List.foldl_cons, judged, settled, Option.getD_some]
          congr 2
          exact tally_congr _ _ _ _ _ _ (fun x member => by rw [same x member])
    cases found : m.find l.path with
    | none =>
      apply next .different m
      · simp only [judgeUpload, found]
      · exact sorted
      · exact fun _ _ => rfl
      · simp only [uploadLoop, Manifest.get, found, Option.map_none, DiffResult.record]
    | some e =>
      have compared := compare_spec sha256 folder m sorted e l r found
      cases judged : settle sha256 folder e l with
      | none =>
        simp only [judged] at compared
        refine Or.inl ⟨⟨l, List.mem_cons_self, ?_⟩, ?_⟩
        · simp only [judgeUpload, found, judged]
        · simp only [uploadLoop, Manifest.get, found, Option.map_some, compared]
      | some o =>
        simp only [judged] at compared
        obtain ⟨m', result, sorted', keeps⟩ := compared
        apply next o m' _ sorted' keeps
        · simp only [uploadLoop, Manifest.get, found, Option.map_some, result]
          cases o <;> simp only [DiffResult.record, reduceCtorEq, if_true, if_false]
        · simp only [judgeUpload, found, judged]

/-- The download loop over the entries that remain, which it meets as they were at the start. -/
theorem downloadLoop_spec (byPath : Path → Option LocalFile)
    (named : ∀ p l, byPath p = some l → l.path = p) (rest : List ManifestEntry) (index : Nat)
    (m : Manifest) (r : DiffResult) (remaining : m.entries.drop index = rest) :
    ((∃ e ∈ rest, judgeDownload sha256 folder byPath e = none) ∧
      downloadLoop sha256 folder byPath rest.length index m r = .error .readFailed) ∨
    ((∀ e ∈ rest, judgeDownload sha256 folder byPath e ≠ none) ∧
      ∃ m', downloadLoop sha256 folder byPath rest.length index m r =
        .ok (m', tally ManifestEntry.path ManifestEntry.size
          (fun e => settled (judgeDownload sha256 folder byPath e)) r rest)) := by
  induction rest generalizing index m r with
  | nil => exact Or.inr ⟨nofun, m, rfl⟩
  | cons e rest ih =>
    have at_index : m.entries[index]? = some e := by
      have head := congrArg (fun l => l[0]?) remaining
      simpa only [List.getElem?_drop, Nat.add_zero, List.getElem?_cons_zero] using head
    have dropped : m.entries.drop (index + 1) = rest := by
      rw [← List.drop_drop, remaining]
      rfl
    have next : ∀ (o : Outcome) (m' : Manifest), judgeDownload sha256 folder byPath e = some o →
        m'.entries.drop (index + 1) = rest →
        downloadLoop sha256 folder byPath (rest.length + 1) index m r =
          downloadLoop sha256 folder byPath rest.length (index + 1) m' (r.record e.path e.size o) →
        ((∃ x ∈ e :: rest, judgeDownload sha256 folder byPath x = none) ∧
          downloadLoop sha256 folder byPath (rest.length + 1) index m r = .error .readFailed) ∨
        ((∀ x ∈ e :: rest, judgeDownload sha256 folder byPath x ≠ none) ∧
          ∃ m', downloadLoop sha256 folder byPath (rest.length + 1) index m r =
            .ok (m', tally ManifestEntry.path ManifestEntry.size
              (fun x => settled (judgeDownload sha256 folder byPath x)) r (e :: rest))) := by
      intro o m' judged remaining' step
      rcases ih (index + 1) m' (r.record e.path e.size o) remaining' with
        ⟨⟨x, member, failed⟩, result⟩ | ⟨fine, m'', result⟩
      · exact Or.inl ⟨⟨x, List.mem_cons_of_mem _ member, failed⟩, step.trans result⟩
      · refine Or.inr ⟨?_, m'', ?_⟩
        · intro x member
          cases member with
          | head => rw [judged]; exact Option.some_ne_none o
          | tail _ later => exact fine x later
        · rw [step, result]
          simp only [tally, List.foldl_cons, judged, settled, Option.getD_some]
    have hashed := hashEntryAt_spec sha256 folder m index e at_index
    simp only [List.length_cons]
    cases held : byPath e.path with
    | none =>
      apply next .different m _ dropped
      · simp only [downloadLoop, at_index, held, DiffResult.record]
      · simp only [judgeDownload, held]
    | some l =>
      have same_path := named e.path l held
      by_cases agree : e.size = l.size ∧ e.mtimeUnixMs = l.mtimeUnixMs
      · apply next .same m _ dropped
        · simp only [downloadLoop, at_index, held, if_pos agree, DiffResult.record]
        · simp only [judgeDownload, held, settle, if_pos agree]
      · cases given : l.hash with
        | none =>
          apply next .needHash m _ dropped
          · simp only [downloadLoop, at_index, held, if_neg agree, given, DiffResult.record, same_path]
          · simp only [judgeDownload, held, settle, if_neg agree, given]
        | some localHash =>
          cases known : evidence sha256 folder e with
          | none =>
            simp only [known] at hashed
            refine Or.inl ⟨⟨e, List.mem_cons_self, ?_⟩, ?_⟩
            · simp only [judgeDownload, held, settle, if_neg agree, given, known]
            · simp only [downloadLoop, at_index, held, if_neg agree, given, hashed]
          | some hash =>
            simp only [known] at hashed
            obtain ⟨m', result, renewed⟩ := hashed
            have remaining' : m'.entries.drop (index + 1) = rest := by
              rw [← dropped]
              apply List.ext_getElem?
              intro j
              rw [List.getElem?_drop, List.getElem?_drop, renewed.others _ (by omega)]
            cases hash with
            | none =>
              apply next .unreadable m' _ remaining'
              · simp only [downloadLoop, at_index, held, if_neg agree, given, result,
                  DiffResult.record, same_path]
              · simp only [judgeDownload, held, settle, if_neg agree, given, known]
            | some remoteHash =>
              apply next (if remoteHash = localHash then .same else .different) m' _ remaining'
              · simp only [downloadLoop, at_index, held, if_neg agree, given, result]
                split <;> rfl
              · simp only [judgeDownload, held, settle, if_neg agree, given, known]

end Loops

end NixHomeServer.Filesync
