import NixHomeServer.Filesync.Settle

/-! The estimate against the transfer. A manifest lists the folder; on a pair of
files that one pass settles, metadata agreement stands for equal content, and the
digests decide the rest. -/
namespace NixHomeServer.Filesync

open NixHomeServer.Library

variable (sha256 : Bytes → String)

section Listing

def ManifestEntry.listing (e : ManifestEntry) : Path × Nat × Nat := (e.path, e.size, e.mtimeUnixMs)

def ServerFile.listing (f : ServerFile) : Path × Nat × Nat := (f.path, f.size, f.mtimeUnixMs)

/-- A sorted manifest of the folder, whose hashes are absent or the digests of the files. -/
structure Listed (folder : Folder) (m : Manifest) : Prop where
  sorted : m.Sorted
  files : (m.entries.map ManifestEntry.listing).Perm (folder.map ServerFile.listing)
  hashes : ∀ e ∈ m.entries, ∀ f ∈ folder, f.path = e.path → ∀ h, e.hash = some h → h = sha256 f.content

variable {sha256} {folder : Folder} {m : Manifest}

theorem Listed.file (listed : Listed sha256 folder m) (e : ManifestEntry) (member : e ∈ m.entries) :
    ∃ f ∈ folder, f.listing = e.listing :=
  List.mem_map.mp ((listed.files.mem_iff).mp (List.mem_map_of_mem member))

theorem Listed.entry (listed : Listed sha256 folder m) (f : ServerFile) (member : f ∈ folder) :
    ∃ e ∈ m.entries, e.listing = f.listing :=
  List.mem_map.mp ((listed.files.mem_iff).mpr (List.mem_map_of_mem member))

theorem Listed.paths (listed : Listed sha256 folder m) :
    (m.entries.map ManifestEntry.path).Perm (folder.map ServerFile.path) := by
  have projected := listed.files.map Prod.fst
  rwa [List.map_map, List.map_map] at projected

theorem Listed.unique_entries (listed : Listed sha256 folder m) :
    (m.entries.map ManifestEntry.path).Nodup := by
  have ascending : (m.entries.map ManifestEntry.path).Pairwise (· < ·) :=
    List.pairwise_map.mpr listed.sorted
  exact ascending.imp ne_of_lt

theorem Listed.unique (listed : Listed sha256 folder m) (f g : ServerFile) (in_f : f ∈ folder)
    (in_g : g ∈ folder) (same : f.path = g.path) : f = g :=
  List.inj_on_of_nodup_map (listed.paths.nodup_iff.mp listed.unique_entries) in_f in_g same

theorem toStringLossy_osName (p : Path) : toStringLossy (osName p) = p := by
  simp only [toStringLossy, osName, List.map_map]
  have same : NamePart.lossy ∘ NamePart.char = id := rfl
  rw [same, List.map_id, String.ofList_toList]

/-- What is read under a listed path is the listed file. -/
theorem evidence_listed (listed : Listed sha256 folder m) (e : ManifestEntry) (member : e ∈ m.entries)
    (f : ServerFile) (in_folder : f ∈ folder) (same : f.path = e.path) :
    evidence sha256 folder e = some (some (sha256 f.content)) ∨
      (evidence sha256 folder e = some none ∧ openAndRead folder f.path = .notFound) ∨
      (evidence sha256 folder e = none ∧ openAndRead folder f.path = .failed) := by
  unfold evidence
  cases cached : e.hash with
  | some h =>
    rw [listed.hashes e member f in_folder same h cached]
    exact Or.inl rfl
  | none =>
    rw [← same]
    simp only [openAndRead]
    cases found : folder.find? (fun g => decide (g.name = osName f.path)) with
    | none => exact Or.inr (Or.inl ⟨rfl, rfl⟩)
    | some g =>
      have named : g.name = osName f.path := by
        have matched := List.find?_some found
        rwa [decide_eq_true_eq] at matched
      have listed_same : g.path = f.path := by
        rw [ServerFile.path, named, toStringLossy_osName]
      have identical := listed.unique g f (List.mem_of_find?_eq_some found) in_folder listed_same
      subst identical
      cases readable : g.readable with
      | true => exact Or.inl (by simp only [readable, if_true])
      | false =>
        exact Or.inr (Or.inr ⟨by simp only [readable, Bool.false_eq_true, if_false],
          by simp only [readable, Bool.false_eq_true, if_false]⟩)

end Listing

section Pairs

/-- Equal size and time mean equal content. -/
def Agrees (folder : Folder) (device : List DeviceFile) : Prop :=
  ∀ f ∈ folder, ∀ d ∈ device, f.path = d.path → f.size = d.size → f.mtimeUnixMs = d.mtimeUnixMs →
    f.content = d.content

/-- Both sides hold the file, with different metadata. -/
def Changed (f : ServerFile) (d : DeviceFile) : Prop :=
  f.path = d.path ∧ ¬(f.size = d.size ∧ f.mtimeUnixMs = d.mtimeUnixMs)

/-- Some changed file gives this result when the server opens it by its listed path. -/
def ChangedOpens (folder : Folder) (device : List DeviceFile) (p : Path) (result : ReadResult) : Prop :=
  ∃ f ∈ folder, ∃ d ∈ device, Changed f d ∧ f.path = p ∧ openAndRead folder p = result

variable {sha256} {folder : Folder} {m : Manifest} {device : List DeviceFile}

@[simp] theorem answering_path (wanted : List Path) (d : DeviceFile) :
    (d.answering sha256 wanted).path = d.path := by
  unfold DeviceFile.answering
  split <;> rfl

@[simp] theorem answering_size (wanted : List Path) (d : DeviceFile) :
    (d.answering sha256 wanted).size = d.size := by
  unfold DeviceFile.answering
  split <;> rfl

@[simp] theorem answering_mtime (wanted : List Path) (d : DeviceFile) :
    (d.answering sha256 wanted).mtimeUnixMs = d.mtimeUnixMs := by
  unfold DeviceFile.answering
  split <;> rfl

theorem answering_nil (d : DeviceFile) : d.answering sha256 [] = d.bare :=
  if_neg List.not_mem_nil

/-- Without digests a pair is settled by its metadata or waits. -/
theorem settle_bare (e : ManifestEntry) (f : ServerFile) (d : DeviceFile)
    (same : f.listing = e.listing) :
    settle sha256 folder e d.bare ≠ none ∧
      (Changed f d → settle sha256 folder e d.bare = some .needHash) := by
  obtain ⟨_, size, mtime⟩ : f.path = e.path ∧ f.size = e.size ∧ f.mtimeUnixMs = e.mtimeUnixMs := by
    simpa only [ServerFile.listing, ManifestEntry.listing, Prod.mk.injEq] using same
  unfold settle
  rw [← size, ← mtime]
  by_cases agree : f.size = d.bare.size ∧ f.mtimeUnixMs = d.bare.mtimeUnixMs
  · rw [if_pos agree]
    exact ⟨nofun, fun changed => absurd agree changed.2⟩
  · rw [if_neg agree]
    exact ⟨nofun, fun _ => rfl⟩

/-- Once every changed pair has its digest, a pair is settled by content. -/
theorem settle_pair (listed : Listed sha256 folder m) (agrees : Agrees folder device)
    (e : ManifestEntry) (member : e ∈ m.entries) (f : ServerFile) (in_folder : f ∈ folder)
    (same : f.listing = e.listing) (d : DeviceFile) (in_device : d ∈ device) (path : f.path = d.path)
    (wanted : List Path) (answered : Changed f d → d.path ∈ wanted) :
    match settle sha256 folder e (d.answering sha256 wanted) with
    | none => Changed f d ∧ openAndRead folder f.path = .failed
    | some .same => sha256 f.content = sha256 d.content
    | some .different => sha256 f.content ≠ sha256 d.content
    | some .needHash => False
    | some .unreadable => Changed f d ∧ openAndRead folder f.path = .notFound := by
  obtain ⟨listed_path, size, mtime⟩ :
      f.path = e.path ∧ f.size = e.size ∧ f.mtimeUnixMs = e.mtimeUnixMs := by
    simpa only [ServerFile.listing, ManifestEntry.listing, Prod.mk.injEq] using same
  unfold settle
  rw [answering_size, answering_mtime, ← size, ← mtime]
  by_cases agree : f.size = d.size ∧ f.mtimeUnixMs = d.mtimeUnixMs
  · rw [if_pos agree]
    exact congrArg sha256 (agrees f in_folder d in_device path agree.1 agree.2)
  · rw [if_neg agree]
    have changed : Changed f d := ⟨path, agree⟩
    have digest : (d.answering sha256 wanted).hash = some (sha256 d.content) := by
      rw [DeviceFile.answering, if_pos (answered changed)]
    rw [digest]
    rcases evidence_listed listed e member f in_folder listed_path with
      known | ⟨missing, there⟩ | ⟨failed, there⟩
    · simp only [known]
      by_cases equal : sha256 f.content = sha256 d.content
      · simp only [if_pos equal]
        exact equal
      · simp only [if_neg equal]
        exact equal
    · simp only [missing]
      exact ⟨changed, there⟩
    · simp only [failed]
      exact ⟨changed, there⟩

end Pairs

section Predictions

/-- The result a pass ends with, against the files of the source and those a sync transfers. -/
structure Predicts (source : List (Path × Nat)) (transfer missing : Path → Prop)
    (data : DiffResult) : Prop where
  decided : data.needsHash = []
  pending : ∀ p, p ∈ data.pending ↔ transfer p ∧ p ∉ data.unreadable
  once : data.pending.Nodup
  count : data.pendingCount = data.pending.length
  bytes : data.pendingBytes =
    min ((source.filter (fun s => decide (s.1 ∈ data.pending))).map Prod.snd).sum u64Max
  total : data.skipped + data.pendingCount + data.unreadable.length = source.length
  unreadable : ∀ p ∈ data.unreadable, missing p

variable {ι : Type} (path : ι → Path) (size : ι → Nat) (outcome : ι → Outcome)

theorem settledAs_nodup (o : Outcome) (items : List ι) (unique : (items.map path).Nodup) :
    (settledAs path outcome o items).Nodup :=
  unique.sublist (List.filter_sublist.map path)

/-- Among files with distinct paths, the lists of a tally tell the outcomes. -/
theorem path_mem_settledAs (o : Outcome) (items : List ι) (unique : (items.map path).Nodup) (x : ι)
    (member : x ∈ items) : path x ∈ settledAs path outcome o items ↔ outcome x = o := by
  rw [mem_settledAs]
  constructor
  · rintro ⟨y, in_items, as_, same⟩
    rw [← List.inj_on_of_nodup_map unique in_items member same]
    exact as_
  · intro as_
    exact ⟨x, member, as_, rfl⟩

theorem tally_predicts (items : List ι) (transfer missing : Path → Prop)
    (unique : (items.map path).Nodup)
    (covered : ∀ p, transfer p → ∃ x ∈ items, path x = p)
    (judged : ∀ x ∈ items, match outcome x with
      | .same => ¬transfer (path x)
      | .different => transfer (path x)
      | .needHash => False
      | .unreadable => missing (path x)) :
    Predicts (items.map (fun x => (path x, size x))) transfer missing
      (tally path size outcome {} items) := by
  obtain ⟨pending, needs, unreadable⟩ := tally_lists path size outcome {} items
  obtain ⟨count, total⟩ := tally_counts path size outcome {} items
  have bytes := tally_bytes path size outcome {} items (Nat.zero_le _)
  simp only [List.nil_append, Nat.zero_add] at pending needs unreadable count total bytes
  have decided : settledAs path outcome .needHash items = [] := by
    rw [List.eq_nil_iff_forall_not_mem]
    intro p waiting
    obtain ⟨x, member, as_, _⟩ := (mem_settledAs path outcome .needHash items p).mp waiting
    have verdict := judged x member
    rw [as_] at verdict
    exact verdict
  constructor
  · rw [needs, decided]
  · intro p
    rw [pending, unreadable]
    constructor
    · intro moved
      obtain ⟨x, member, as_, rfl⟩ := (mem_settledAs path outcome .different items p).mp moved
      have verdict := judged x member
      rw [as_] at verdict
      refine ⟨verdict, ?_⟩
      rw [path_mem_settledAs path outcome _ items unique x member, as_]
      exact nofun
    · rintro ⟨moves, present⟩
      obtain ⟨x, member, rfl⟩ := covered p moves
      rw [path_mem_settledAs path outcome _ items unique x member] at present ⊢
      have verdict := judged x member
      cases as_ : outcome x with
      | different => rfl
      | same =>
        rw [as_] at verdict
        exact absurd moves verdict
      | needHash =>
        rw [as_] at verdict
        exact verdict.elim
      | unreadable => exact absurd as_ present
  · rw [pending]
    exact settledAs_nodup path outcome .different items unique
  · rw [count, pending]
  · rw [bytes, pending, List.filter_map, List.map_map]
    congr 3
    apply List.filter_congr
    intro x member
    simp only [Function.comp]
    congr 1
    exact propext (path_mem_settledAs path outcome .different items unique x member).symm
  · rw [decided, List.length_nil] at total
    rw [count, unreadable, List.length_map]
    omega
  · intro p unread
    rw [unreadable] at unread
    obtain ⟨x, member, as_, rfl⟩ := (mem_settledAs path outcome .unreadable items p).mp unread
    have verdict := judged x member
    rw [as_] at verdict
    exact verdict

theorem Predicts.perm {source source' : List (Path × Nat)} {transfer missing : Path → Prop}
    {data : DiffResult} (predicts : Predicts source transfer missing data)
    (permuted : source.Perm source') : Predicts source' transfer missing data where
  decided := predicts.decided
  pending := predicts.pending
  once := predicts.once
  count := predicts.count
  bytes := by
    rw [predicts.bytes, ((permuted.filter _).map Prod.snd).sum_nat]
  total := by
    rw [predicts.total, permuted.length_eq]
  unreadable := predicts.unreadable

end Predictions

section Transfers

theorem collected_eq_some_iff {ρ : Type} (key : ρ → Path) (rows : List ρ) (unique : (rows.map key).Nodup)
    (p : Path) (row : ρ) : collected key rows p = some row ↔ row ∈ rows ∧ key row = p := by
  unfold collected
  constructor
  · intro found
    have named := List.find?_some found
    rw [decide_eq_true_eq] at named
    exact ⟨List.mem_reverse.mp (List.mem_of_find?_eq_some found), named⟩
  · rintro ⟨member, named⟩
    cases found : rows.reverse.find? (fun row => decide (key row = p)) with
    | none =>
      have absent := List.find?_eq_none.mp found row (List.mem_reverse.mpr member)
      rw [decide_eq_true_eq] at absent
      exact absurd named absent
    | some other =>
      have named' := List.find?_some found
      rw [decide_eq_true_eq] at named'
      have in_rows := List.mem_reverse.mp (List.mem_of_find?_eq_some found)
      rw [List.inj_on_of_nodup_map unique in_rows member (named'.trans named.symm)]

theorem collected_any {ρ : Type} (key : ρ → Path) (rows : List ρ) (unique : (rows.map key).Nodup)
    (p : Path) (test : ρ → Bool) :
    (collected key rows p).any test = true ↔ ∃ row ∈ rows, key row = p ∧ test row = true := by
  rw [Option.any_eq_true]
  constructor
  · rintro ⟨row, found, holds⟩
    obtain ⟨member, named⟩ := (collected_eq_some_iff key rows unique p row).mp found
    exact ⟨row, member, named, holds⟩
  · rintro ⟨row, member, named, holds⟩
    exact ⟨row, (collected_eq_some_iff key rows unique p row).mpr ⟨member, named⟩, holds⟩

theorem plan_transfer {ι : Type} (path : ι → Path) (size : ι → Nat) (present : ι → Bool)
    (plan : SyncPlan) (items : List ι) :
    (items.foldl (fun plan x => plan.settle (path x) (size x) (present x)) plan).transfer =
      plan.transfer ++ (items.filter (fun x => !present x)).map (fun x => (path x, size x)) := by
  induction items generalizing plan with
  | nil => simp only [List.foldl_nil, List.filter_nil, List.map_nil, List.append_nil]
  | cons x rest ih =>
    rw [List.foldl_cons, ih]
    cases known : present x <;>
      simp only [SyncPlan.settle, known, if_true, if_false, Bool.false_eq_true, Bool.not_true,
        Bool.not_false, not_false_eq_true, List.filter_cons_of_pos, List.filter_cons_of_neg,
        List.map_cons, List.append_assoc, List.cons_append, List.nil_append]

/-- A sync in this direction transfers the file. -/
def Transfers (folder : Folder) (device : List DeviceFile) (direction : Direction) (p : Path) : Prop :=
  p ∈ (syncPair sha256 (folder.map (ServerFile.remote sha256)) device direction).transfer.map Prod.fst

def sourceFiles (folder : Folder) (device : List DeviceFile) : Direction → List (Path × Nat)
  | .phoneToServer => device.map (fun d => (d.path, d.size))
  | .serverToPhone => folder.map (fun f => (f.path, f.size))

variable {sha256} {folder : Folder} {device : List DeviceFile}

theorem remote_paths (folder : Folder) :
    (folder.map (ServerFile.remote sha256)).map RemoteEntry.path = folder.map ServerFile.path := by
  rw [List.map_map]
  rfl

theorem transfers_upload (unique : (folder.map ServerFile.path).Nodup) (p : Path) :
    Transfers sha256 folder device .phoneToServer p ↔ ∃ d ∈ device, d.path = p ∧
      ∀ f ∈ folder, f.path = d.path → sha256 f.content ≠ sha256 d.content := by
  simp only [Transfers, syncPair, plan_transfer, List.nil_append, List.map_map, List.mem_map,
    List.mem_filter, Function.comp, Bool.not_eq_true', and_assoc]
  have present : ∀ d : DeviceFile,
      (collected RemoteEntry.path (folder.map (ServerFile.remote sha256)) d.path).any
        (fun r => decide (r.sha256 = sha256 d.content)) = false ↔
      ∀ f ∈ folder, f.path = d.path → sha256 f.content ≠ sha256 d.content := by
    intro d
    rw [← Bool.not_eq_true, collected_any _ _ (by rw [remote_paths]; exact unique)]
    constructor
    · intro absent f member same equal
      exact absent ⟨f.remote sha256, List.mem_map_of_mem member, same, decide_eq_true equal⟩
    · rintro differs ⟨r, member, same, equal⟩
      obtain ⟨f, in_folder, rfl⟩ := List.mem_map.mp member
      exact differs f in_folder same (of_decide_eq_true equal)
  constructor
  · rintro ⟨d, member, absent, rfl⟩
    exact ⟨d, member, rfl, (present d).mp absent⟩
  · rintro ⟨d, member, rfl, differs⟩
    exact ⟨d, member, (present d).mpr differs, rfl⟩

theorem transfers_download (unique : (device.map DeviceFile.path).Nodup) (p : Path) :
    Transfers sha256 folder device .serverToPhone p ↔ ∃ f ∈ folder, f.path = p ∧
      ∀ d ∈ device, d.path = f.path → sha256 d.content ≠ sha256 f.content := by
  simp only [Transfers, syncPair, plan_transfer, List.nil_append, List.map_map, List.mem_map,
    List.mem_filter, Function.comp, Bool.not_eq_true', and_assoc]
  have present : ∀ f : ServerFile,
      (collected DeviceFile.path device f.path).any
        (fun l => decide (sha256 l.content = sha256 f.content)) = false ↔
      ∀ d ∈ device, d.path = f.path → sha256 d.content ≠ sha256 f.content := by
    intro f
    rw [← Bool.not_eq_true, collected_any _ _ unique]
    constructor
    · intro absent d member same equal
      exact absent ⟨d, member, same, decide_eq_true equal⟩
    · rintro differs ⟨d, member, same, equal⟩
      exact differs d member same (of_decide_eq_true equal)
  constructor
  · rintro ⟨r, ⟨f, member, rfl⟩, absent, rfl⟩
    exact ⟨f, member, rfl, (present f).mp absent⟩
  · rintro ⟨f, member, rfl, differs⟩
    exact ⟨f.remote sha256, ⟨f, member, rfl⟩, (present f).mpr differs, rfl⟩

end Transfers

section Passes

variable {sha256} {folder : Folder} {m : Manifest} {device : List DeviceFile}

theorem answering_paths (wanted : List Path) (device : List DeviceFile) :
    (device.map (DeviceFile.answering sha256 wanted)).map LocalFile.path =
      device.map DeviceFile.path := by
  rw [List.map_map]
  exact List.map_congr_left (fun d _ => answering_path wanted d)

/-- What a file of the device finds in a manifest of the folder. -/
theorem find_listed (listed : Listed sha256 folder m) (p : Path) :
    (m.find p = none ∧ ∀ f ∈ folder, f.path ≠ p) ∨
      ∃ e f, m.find p = some e ∧ e ∈ m.entries ∧ f ∈ folder ∧ f.listing = e.listing ∧ f.path = p := by
  cases found : m.find p with
  | none =>
    refine Or.inl ⟨rfl, ?_⟩
    intro f member same
    obtain ⟨e, in_entries, listing⟩ := listed.entry f member
    have absent := (find_eq_none_iff m listed.sorted p).mp found e in_entries
    exact absent ((congrArg Prod.fst listing).trans same)
  | some e =>
    obtain ⟨member, named⟩ := (find_eq_some_iff m listed.sorted p e).mp found
    obtain ⟨f, in_folder, listing⟩ := listed.file e member
    exact Or.inr ⟨e, f, rfl, member, in_folder, listing, (congrArg Prod.fst listing).trans named⟩

/-- A pass that has the digest of every changed file fails at a file it cannot read, or predicts. -/
def PassOk (sha256 : Bytes → String) (folder : Folder) (device : List DeviceFile)
    (direction : Direction) (result : Except ReadError (Manifest × DiffResult)) : Prop :=
  (result = .error .readFailed ∧ ∃ p, ChangedOpens folder device p .failed) ∨
  ∃ m' data, result = .ok (m', data) ∧ Predicts (sourceFiles folder device direction)
    (Transfers sha256 folder device direction) (fun p => ChangedOpens folder device p .notFound) data

theorem upload_pass (listed : Listed sha256 folder m) (agrees : Agrees folder device)
    (unique : (device.map DeviceFile.path).Nodup) (wanted : List Path)
    (answered : ∀ f ∈ folder, ∀ d ∈ device, Changed f d → d.path ∈ wanted) :
    PassOk sha256 folder device .phoneToServer
      (diff sha256 folder m (device.map (DeviceFile.answering sha256 wanted)) .phoneToServer) := by
  have unique_files := listed.paths.nodup_iff.mp listed.unique_entries
  have judgement : ∀ d ∈ device,
      match judgeUpload sha256 folder m (d.answering sha256 wanted) with
      | none => ChangedOpens folder device d.path .failed
      | some .same => ¬Transfers sha256 folder device .phoneToServer d.path
      | some .different => Transfers sha256 folder device .phoneToServer d.path
      | some .needHash => False
      | some .unreadable => ChangedOpens folder device d.path .notFound := by
    intro d in_device
    unfold judgeUpload
    rw [answering_path]
    rcases find_listed listed d.path with ⟨missing, absent⟩ | ⟨e, f, found, member, in_folder, listing, same⟩
    · rw [missing]
      exact (transfers_upload unique_files d.path).mpr
        ⟨d, in_device, rfl, fun f in_folder same => absurd same (absent f in_folder)⟩
    · rw [found]
      have pair := settle_pair listed agrees e member f in_folder listing d in_device same wanted
        (answered f in_folder d in_device)
      simp only
      cases verdict : settle sha256 folder e (d.answering sha256 wanted) with
      | none =>
        rw [verdict] at pair
        exact ⟨f, in_folder, d, in_device, pair.1, same, same ▸ pair.2⟩
      | some o =>
        rw [verdict] at pair
        cases o with
        | same =>
          intro moves
          obtain ⟨d', in_device', same', differs⟩ := (transfers_upload unique_files d.path).mp moves
          cases List.inj_on_of_nodup_map unique in_device' in_device same'
          exact differs f in_folder same pair
        | different =>
          refine (transfers_upload unique_files d.path).mpr ⟨d, in_device, rfl, ?_⟩
          intro g in_folder' same'
          cases listed.unique g f in_folder' in_folder (same'.trans same.symm)
          exact pair
        | needHash => exact pair
        | unreadable => exact ⟨f, in_folder, d, in_device, pair.1, same, same ▸ pair.2⟩
  rcases uploadLoop_spec sha256 folder (device.map (DeviceFile.answering sha256 wanted)) m {}
      listed.sorted (by rw [answering_paths]; exact unique) with
    ⟨⟨l, member, failed⟩, result⟩ | ⟨fine, m', result⟩
  · obtain ⟨d, in_device, rfl⟩ := List.mem_map.mp member
    have judged := judgement d in_device
    rw [failed] at judged
    exact Or.inl ⟨result, _, judged⟩
  · refine Or.inr ⟨m', _, result, ?_⟩
    have predicted := tally_predicts LocalFile.path LocalFile.size
      (fun l => settled (judgeUpload sha256 folder m l))
      (device.map (DeviceFile.answering sha256 wanted))
      (Transfers sha256 folder device .phoneToServer)
      (fun p => ChangedOpens folder device p .notFound) (by rw [answering_paths]; exact unique)
      (by
        intro p moves
        obtain ⟨d, in_device, same, _⟩ := (transfers_upload unique_files p).mp moves
        exact ⟨_, List.mem_map_of_mem in_device, (answering_path wanted d).trans same⟩)
      (by
        intro l member
        have readable := fine l member
        obtain ⟨d, in_device, rfl⟩ := List.mem_map.mp member
        have judged := judgement d in_device
        cases verdict : judgeUpload sha256 folder m (d.answering sha256 wanted) with
        | none => exact absurd verdict readable
        | some o =>
          simp only [verdict, settled, Option.getD_some, answering_path] at judged ⊢
          cases o <;> exact judged)
    simp only [List.map_map, Function.comp_def, answering_path, answering_size] at predicted
    exact predicted

theorem download_pass (listed : Listed sha256 folder m) (agrees : Agrees folder device)
    (unique : (device.map DeviceFile.path).Nodup) (wanted : List Path)
    (answered : ∀ f ∈ folder, ∀ d ∈ device, Changed f d → d.path ∈ wanted) :
    PassOk sha256 folder device .serverToPhone
      (diff sha256 folder m (device.map (DeviceFile.answering sha256 wanted)) .serverToPhone) := by
  have unique_sent : ((device.map (DeviceFile.answering sha256 wanted)).map LocalFile.path).Nodup := by
    rw [answering_paths]
    exact unique
  let byPath := collected LocalFile.path (device.map (DeviceFile.answering sha256 wanted))
  have held : ∀ p l, byPath p = some l ↔
      ∃ d ∈ device, d.answering sha256 wanted = l ∧ d.path = p := by
    intro p l
    rw [collected_eq_some_iff _ _ unique_sent]
    constructor
    · rintro ⟨member, named⟩
      obtain ⟨d, in_device, rfl⟩ := List.mem_map.mp member
      exact ⟨d, in_device, rfl, (answering_path wanted d).symm.trans named⟩
    · rintro ⟨d, in_device, rfl, named⟩
      exact ⟨List.mem_map_of_mem in_device, (answering_path wanted d).trans named⟩
  have judgement : ∀ e ∈ m.entries,
      match judgeDownload sha256 folder byPath e with
      | none => ChangedOpens folder device e.path .failed
      | some .same => ¬Transfers sha256 folder device .serverToPhone e.path
      | some .different => Transfers sha256 folder device .serverToPhone e.path
      | some .needHash => False
      | some .unreadable => ChangedOpens folder device e.path .notFound := by
    intro e member
    obtain ⟨f, in_folder, listing⟩ := listed.file e member
    have listed_path : f.path = e.path := congrArg Prod.fst listing
    unfold judgeDownload
    cases found : byPath e.path with
    | none =>
      refine (transfers_download unique e.path).mpr ⟨f, in_folder, listed_path, ?_⟩
      intro d in_device same
      have there := (held e.path _).mpr ⟨d, in_device, rfl, same.trans listed_path⟩
      rw [found] at there
      cases there
    | some l =>
      obtain ⟨d, in_device, rfl, named⟩ := (held e.path l).mp found
      have same : f.path = d.path := listed_path.trans named.symm
      have pair := settle_pair listed agrees e member f in_folder listing d in_device same wanted
        (answered f in_folder d in_device)
      simp only
      cases verdict : settle sha256 folder e (d.answering sha256 wanted) with
      | none =>
        rw [verdict] at pair
        exact ⟨f, in_folder, d, in_device, pair.1, listed_path, listed_path ▸ pair.2⟩
      | some o =>
        rw [verdict] at pair
        cases o with
        | same =>
          intro moves
          obtain ⟨g, in_folder', same', differs⟩ := (transfers_download unique e.path).mp moves
          cases listed.unique g f in_folder' in_folder (same'.trans listed_path.symm)
          exact differs d in_device same.symm pair.symm
        | different =>
          refine (transfers_download unique e.path).mpr ⟨f, in_folder, listed_path, ?_⟩
          intro d' in_device' same' equal
          cases List.inj_on_of_nodup_map unique in_device' in_device (same'.trans same)
          exact pair equal.symm
        | needHash => exact pair
        | unreadable =>
          exact ⟨f, in_folder, d, in_device, pair.1, listed_path, listed_path ▸ pair.2⟩
  rcases downloadLoop_spec sha256 folder byPath
      (fun p l found => by
        obtain ⟨d, _, rfl, named⟩ := (held p l).mp found
        exact (answering_path wanted d).trans named)
      m.entries 0 m {} List.drop_zero with
    ⟨⟨e, member, failed⟩, result⟩ | ⟨fine, m', result⟩
  · have judged := judgement e member
    rw [failed] at judged
    exact Or.inl ⟨result, _, judged⟩
  · refine Or.inr ⟨m', _, result, ?_⟩
    have predicted := tally_predicts ManifestEntry.path ManifestEntry.size
      (fun e => settled (judgeDownload sha256 folder byPath e)) m.entries
      (Transfers sha256 folder device .serverToPhone)
      (fun p => ChangedOpens folder device p .notFound) listed.unique_entries
      (by
        intro p moves
        obtain ⟨f, in_folder, same, _⟩ := (transfers_download unique p).mp moves
        obtain ⟨e, member, listing⟩ := listed.entry f in_folder
        exact ⟨e, member, (congrArg Prod.fst listing).trans same⟩)
      (by
        intro e member
        have readable := fine e member
        have judged := judgement e member
        cases verdict : judgeDownload sha256 folder byPath e with
        | none => exact absurd verdict readable
        | some o =>
          simp only [verdict, settled, Option.getD_some] at judged ⊢
          cases o <;> exact judged)
    apply predicted.perm
    have listing := listed.files.map (fun x => (x.1, x.2.1))
    rwa [List.map_map, List.map_map] at listing

theorem final_pass (listed : Listed sha256 folder m) (agrees : Agrees folder device)
    (unique : (device.map DeviceFile.path).Nodup) (direction : Direction) (wanted : List Path)
    (answered : ∀ f ∈ folder, ∀ d ∈ device, Changed f d → d.path ∈ wanted) :
    PassOk sha256 folder device direction
      (diff sha256 folder m (device.map (DeviceFile.answering sha256 wanted)) direction) := by
  cases direction with
  | phoneToServer => exact upload_pass listed agrees unique wanted answered
  | serverToPhone => exact download_pass listed agrees unique wanted answered

/-- The first pass reads nothing, and asks for every changed file. -/
theorem first_pass (listed : Listed sha256 folder m) (unique : (device.map DeviceFile.path).Nodup)
    (direction : Direction) : ∃ m' data,
      diff sha256 folder m (device.map DeviceFile.bare) direction = .ok (m', data) ∧
        ∀ f ∈ folder, ∀ d ∈ device, Changed f d → d.path ∈ data.needsHash := by
  have unique_sent : ((device.map DeviceFile.bare).map LocalFile.path).Nodup := by
    rw [List.map_map]
    exact unique
  cases direction with
  | phoneToServer =>
    rcases uploadLoop_spec sha256 folder (device.map DeviceFile.bare) m {} listed.sorted unique_sent with
      ⟨⟨l, member, failed⟩, _⟩ | ⟨_, m', result⟩
    · obtain ⟨d, _, rfl⟩ := List.mem_map.mp member
      rcases find_listed listed d.path with ⟨missing, _⟩ | ⟨e, f, found, _, _, listing, _⟩
      · simp only [judgeUpload, show d.bare.path = d.path from rfl, missing, reduceCtorEq] at failed
      · simp only [judgeUpload, show d.bare.path = d.path from rfl, found] at failed
        exact absurd failed (settle_bare e f d listing).1
    · refine ⟨m', _, result, ?_⟩
      intro f in_folder d in_device changed
      rw [(tally_lists _ _ _ _ _).2.1, List.nil_append, mem_settledAs]
      refine ⟨d.bare, List.mem_map_of_mem in_device, ?_, rfl⟩
      rcases find_listed listed d.path with ⟨_, absent⟩ | ⟨e, g, found, _, in_folder', listing, same⟩
      · exact absurd changed.1 (absent f in_folder)
      · cases listed.unique f g in_folder in_folder' (changed.1.trans same.symm)
        simp only [judgeUpload, show d.bare.path = d.path from rfl, found,
          (settle_bare e f d listing).2 changed, settled, Option.getD_some]
  | serverToPhone =>
    let byPath := collected LocalFile.path (device.map DeviceFile.bare)
    have held : ∀ p l, byPath p = some l → ∃ d ∈ device, d.bare = l ∧ d.path = p := by
      intro p l found
      obtain ⟨member, named⟩ := (collected_eq_some_iff _ _ unique_sent p l).mp found
      obtain ⟨d, in_device, rfl⟩ := List.mem_map.mp member
      exact ⟨d, in_device, rfl, named⟩
    rcases downloadLoop_spec sha256 folder byPath
        (fun p l found => by
          obtain ⟨d, _, rfl, named⟩ := held p l found
          exact named)
        m.entries 0 m {} List.drop_zero with
      ⟨⟨e, member, failed⟩, _⟩ | ⟨_, m', result⟩
    · obtain ⟨f, _, listing⟩ := listed.file e member
      cases found : byPath e.path with
      | none => simp only [judgeDownload, found, reduceCtorEq] at failed
      | some l =>
        obtain ⟨d, _, rfl, _⟩ := held e.path l found
        simp only [judgeDownload, found] at failed
        exact absurd failed (settle_bare e f d listing).1
    · refine ⟨m', _, result, ?_⟩
      intro f in_folder d in_device changed
      obtain ⟨e, member, listing⟩ := listed.entry f in_folder
      have named : e.path = d.path := (congrArg Prod.fst listing).trans changed.1
      rw [(tally_lists _ _ _ _ _).2.1, List.nil_append, mem_settledAs]
      refine ⟨e, member, ?_, named⟩
      have found : byPath e.path = some d.bare :=
        (collected_eq_some_iff _ _ unique_sent e.path d.bare).mpr
          ⟨List.mem_map_of_mem in_device, named.symm⟩
      simp only [judgeDownload, found, (settle_bare e f d listing.symm).2 changed, settled,
        Option.getD_some]

end Passes

section Estimates

variable {folder : Folder} {device : List DeviceFile}

/-- Two passes fail at a changed file the server cannot read, or predict the transfer. -/
theorem twoPasses_predict (first second : Manifest) (direction : Direction)
    (listed₁ : Listed sha256 folder first) (listed₂ : Listed sha256 folder second)
    (unique : (device.map DeviceFile.path).Nodup) (agrees : Agrees folder device) :
    (twoPasses sha256 folder first second device direction = .error .readFailed ∧
      ∃ p, ChangedOpens folder device p .failed) ∨
    ∃ data, twoPasses sha256 folder first second device direction = .ok data ∧
      Predicts (sourceFiles folder device direction) (Transfers sha256 folder device direction)
        (fun p => ChangedOpens folder device p .notFound) data := by
  obtain ⟨m', data, asked, waiting⟩ := first_pass listed₁ unique direction
  unfold twoPasses
  rw [asked]
  simp only
  by_cases settled_at_once : data.needsHash = []
  · rw [if_pos settled_at_once]
    have unchanged : ∀ f ∈ folder, ∀ d ∈ device, Changed f d → d.path ∈ ([] : List Path) := by
      intro f in_folder d in_device changed
      rw [← settled_at_once]
      exact waiting f in_folder d in_device changed
    have bare : device.map (DeviceFile.answering sha256 []) = device.map DeviceFile.bare :=
      List.map_congr_left (fun d _ => answering_nil d)
    have pass := final_pass listed₁ agrees unique direction [] unchanged
    rw [bare, asked] at pass
    rcases pass with ⟨impossible, _⟩ | ⟨_, _, same, predicts⟩
    · cases impossible
    · cases same
      exact Or.inr ⟨data, rfl, predicts⟩
  · rw [if_neg settled_at_once]
    rcases final_pass listed₂ agrees unique direction data.needsHash waiting with
      ⟨result, failed⟩ | ⟨_, final, result, predicts⟩
    · rw [result]
      exact Or.inl ⟨rfl, failed⟩
    · rw [result]
      exact Or.inr ⟨final, rfl, predicts⟩

/-- On an unchanged folder and device the estimate predicts the transfer, except for changed files
that the server lists under a path it cannot open; if it can open them all, exactly. -/
theorem estimate_predicts_transfer (first second : Manifest) (direction : Direction)
    (listed₁ : Listed sha256 folder first) (listed₂ : Listed sha256 folder second)
    (unique : (device.map DeviceFile.path).Nodup) (agrees : Agrees folder device) :
    ((twoPasses sha256 folder first second device direction = .error .readFailed ∧
        ∃ p, ChangedOpens folder device p .failed) ∨
      ∃ data, twoPasses sha256 folder first second device direction = .ok data ∧
        Predicts (sourceFiles folder device direction) (Transfers sha256 folder device direction)
          (fun p => ChangedOpens folder device p .notFound) data) ∧
    ((∀ f ∈ folder, ∀ d ∈ device, Changed f d → openAndRead folder f.path = .bytes f.content) →
      ∃ data, twoPasses sha256 folder first second device direction = .ok data ∧
        data.needsHash = [] ∧ data.unreadable = [] ∧
        (∀ p, p ∈ data.pending ↔ Transfers sha256 folder device direction p) ∧
        data.pendingBytes = min (((sourceFiles folder device direction).filter
          (fun s => decide (s.1 ∈ data.pending))).map Prod.snd).sum u64Max ∧
        data.skipped + data.pendingCount = (sourceFiles folder device direction).length) := by
  have passes := twoPasses_predict sha256 first second direction listed₁ listed₂ unique agrees
  refine ⟨passes, ?_⟩
  intro opens
  rcases passes with ⟨_, p, f, in_folder, d, in_device, changed, rfl, failed⟩ | ⟨data, result, predicts⟩
  · rw [opens f in_folder d in_device changed] at failed
    cases failed
  · have all_read : data.unreadable = [] := by
      rw [List.eq_nil_iff_forall_not_mem]
      intro p unread
      obtain ⟨f, in_folder, d, in_device, changed, rfl, missing⟩ := predicts.unreadable p unread
      rw [opens f in_folder d in_device changed] at missing
      cases missing
    refine ⟨data, result, predicts.decided, all_read, ?_, predicts.bytes, ?_⟩
    · intro p
      rw [predicts.pending p, all_read]
      exact and_iff_left List.not_mem_nil
    · have total := predicts.total
      rwa [all_read, List.length_nil, Nat.add_zero] at total

/-- An estimate the device shows is exact; otherwise it shows why there is none. -/
theorem estimatePair_exact (first second : Manifest) (direction : Direction)
    (listed₁ : Listed sha256 folder first) (listed₂ : Listed sha256 folder second)
    (unique : (device.map DeviceFile.path).Nodup) (agrees : Agrees folder device)
    (shown : EstimateResult)
    (estimated : estimatePair sha256 folder first second device direction = .ok shown) :
    ∃ data, twoPasses sha256 folder first second device direction = .ok data ∧
      (∀ p, p ∈ data.pending ↔ Transfers sha256 folder device direction p) ∧
      shown = ⟨data.pendingBytes, data.pending.length, data.skipped⟩ := by
  unfold estimatePair at estimated
  rcases twoPasses_predict sha256 first second direction listed₁ listed₂ unique agrees with
    ⟨result, _⟩ | ⟨data, result, predicts⟩
  · rw [result] at estimated
    cases estimated
  · rw [result] at estimated
    simp only [predicts.decided, ne_eq, not_true_eq_false, if_false] at estimated
    split at estimated
    · cases estimated
    · rename_i all_read
      rw [not_not] at all_read
      cases estimated
      refine ⟨data, result, ?_, ?_⟩
      · intro p
        rw [predicts.pending p, all_read]
        exact and_iff_left List.not_mem_nil
      · rw [predicts.count]

end Estimates

section Scans

variable {sha256} {folder : Folder}

theorem scan_listed (unique : (folder.map ServerFile.path).Nodup) :
    Listed sha256 folder (scan folder) := by
  have permuted : (scan folder).entries.Perm (folder.map ServerFile.entry) :=
    List.perm_insertionSort _ _
  have paths : ((scan folder).entries.map ManifestEntry.path).Nodup := by
    rw [(permuted.map ManifestEntry.path).nodup_iff, List.map_map]
    exact unique
  constructor
  · have total : Std.Total (fun a b : ManifestEntry => a.path ≤ b.path) :=
      ⟨fun a b => le_total a.path b.path⟩
    have transitive : IsTrans ManifestEntry (fun a b => a.path ≤ b.path) :=
      ⟨fun _ _ _ first second => le_trans first second⟩
    have ordered : (scan folder).entries.Pairwise (fun a b => a.path ≤ b.path) :=
      List.pairwise_insertionSort _ _
    exact ordered.imp₂ (fun _ _ le ne => lt_of_le_of_ne le ne) (List.pairwise_map.mp paths)
  · have listings := permuted.map ManifestEntry.listing
    rwa [List.map_map] at listings
  · intro e member f _ _ h cached
    obtain ⟨g, _, rfl⟩ := List.mem_map.mp (permuted.mem_iff.mp member)
    cases cached

/-- What a cached manifest still says of the folder is right. -/
def ValidCache (sha256 : Bytes → String) (folder : Folder) (m : Manifest) : Prop :=
  ∀ c ∈ m.entries, ∀ f ∈ folder, f.listing = c.listing → ∀ h, c.hash = some h → h = sha256 f.content

theorem reuseLoop_spec (entries previous : List ManifestEntry) :
    (reuseLoop entries previous).1.map ManifestEntry.listing = entries.map ManifestEntry.listing ∧
      ∀ e' ∈ (reuseLoop entries previous).1, ∀ h, e'.hash = some h →
        ∃ c ∈ entries ++ previous, c.listing = e'.listing ∧ c.hash = some h := by
  induction entries generalizing previous with
  | nil => exact ⟨rfl, nofun⟩
  | cons e rest ih =>
    have dropped : ∀ c, c ∈ previous.dropWhile (fun candidate => decide (candidate.path < e.path)) →
        c ∈ previous := fun c member => (List.dropWhile_sublist _).mem member
    have kept : ∀ later : List ManifestEntry, (∀ c ∈ later, c ∈ previous) →
        ((e :: (reuseLoop rest later).1).map ManifestEntry.listing = (e :: rest).map ManifestEntry.listing ∧
          ∀ e' ∈ e :: (reuseLoop rest later).1, ∀ h, e'.hash = some h →
            ∃ c ∈ e :: rest ++ previous, c.listing = e'.listing ∧ c.hash = some h) := by
      intro later within
      obtain ⟨listings, hashes⟩ := ih later
      refine ⟨by rw [List.map_cons, listings, List.map_cons], ?_⟩
      intro e' member h known
      cases member with
      | head => exact ⟨e, List.mem_append_left _ List.mem_cons_self, rfl, known⟩
      | tail _ member =>
        obtain ⟨c, found, same⟩ := hashes e' member h known
        refine ⟨c, ?_, same⟩
        cases List.mem_append.mp found with
        | inl fresh => exact List.mem_append_left _ (List.mem_cons_of_mem _ fresh)
        | inr old => exact List.mem_append_right _ (within c old)
    unfold reuseLoop
    split
    · refine ⟨rfl, ?_⟩
      intro e' member h known
      exact ⟨e', List.mem_append_left _ member, rfl, known⟩
    · rename_i candidate later merged
      rw [merged] at dropped
      have within : ∀ c ∈ later, c ∈ previous := fun c member => dropped c (List.mem_cons_of_mem _ member)
      split
      · exact kept (candidate :: later) dropped
      · rename_i same_path
        rw [not_not] at same_path
        simp only
        split
        · exact kept later within
        · rename_i agree
          simp only [not_or, not_not] at agree
          split
          · rename_i hash carried
            obtain ⟨listings, hashes⟩ := kept later within
            refine ⟨listings, ?_⟩
            intro e' member h known
            cases member with
            | head =>
              refine ⟨candidate, List.mem_append_right _ (dropped candidate List.mem_cons_self), ?_,
                carried.trans known⟩
              simp only [ManifestEntry.listing, same_path, agree.1, agree.2]
            | tail _ member => exact hashes e' (List.mem_cons_of_mem _ member) h known
          · exact kept later within

/-- The manifest of a request, whatever valid manifest was cached. -/
theorem manifestFor_listed (unique : (folder.map ServerFile.path).Nodup) (cached : Option Manifest)
    (valid : ∀ m, cached = some m → ValidCache sha256 folder m) :
    Listed sha256 folder (manifestFor folder cached) := by
  have fresh : Listed sha256 folder (scan folder) := scan_listed unique
  cases cached with
  | none => exact fresh
  | some previous =>
    obtain ⟨listings, hashes⟩ := reuseLoop_spec (scan folder).entries previous.entries
    have paths := congrArg (List.map Prod.fst) listings
    rw [List.map_map, List.map_map] at paths
    constructor
    · have ascending : ((scan folder).entries.map ManifestEntry.path).Pairwise (· < ·) :=
        List.pairwise_map.mpr fresh.sorted
      exact List.pairwise_map.mp (paths.symm ▸ ascending)
    · exact listings.symm ▸ fresh.files
    · intro e member f in_folder same h known
      obtain ⟨c, found, listing, carried⟩ := hashes e member h known
      have listed : e.listing ∈ folder.map ServerFile.listing := by
        rw [← fresh.files.mem_iff, ← listings]
        exact List.mem_map_of_mem member
      obtain ⟨g, in_folder', same'⟩ := List.mem_map.mp listed
      have identical := fresh.unique f g in_folder in_folder'
        (same.trans (congrArg Prod.fst same').symm)
      subst identical
      cases List.mem_append.mp found with
      | inl scanned =>
        exact fresh.hashes c scanned f in_folder (congrArg Prod.fst (same'.trans listing.symm)) h carried
      | inr old => exact valid previous rfl c old f in_folder (same'.trans listing.symm) h carried

end Scans

section Samples

/-- The digests of the two contents below. -/
def sampleDigest (content : Bytes) : String :=
  if content = [1, 2, 3] then "039058c6f2c0cb492c533b0a4d14ef77cc0f78abccced5287d84a1a2011cfb81"
  else "a12871fee210fb8619291eaea194581cbd2531e4b23759d225f6806923f63222"

def album : Folder :=
  [{ name := osName "b.flac", size := 3, mtimeUnixMs := 5, content := [1, 2, 3] },
   { name := osName "a.flac", size := 2, mtimeUnixMs := 7, content := [1, 2] }]

def phone : List DeviceFile :=
  [{ path := "b.flac", size := 2, mtimeUnixMs := 9, content := [1, 2] },
   { path := "a.flac", size := 2, mtimeUnixMs := 8, content := [1, 2] },
   { path := "c.flac", size := 3, mtimeUnixMs := 1, content := [1, 2, 3] }]

/-- One changed, one touched and one new file; only the touched one is skipped. -/
theorem estimate_of_a_changed_album : ∃ data,
    twoPasses sampleDigest album (scan album) (scan album) phone .phoneToServer = .ok data ∧
      data.needsHash = [] ∧ data.unreadable = [] ∧
      (∀ p, p ∈ data.pending ↔ Transfers sampleDigest album phone .phoneToServer p) ∧
      data.pendingBytes = min (((sourceFiles album phone .phoneToServer).filter
        (fun s => decide (s.1 ∈ data.pending))).map Prod.snd).sum u64Max ∧
      data.skipped + data.pendingCount = (sourceFiles album phone .phoneToServer).length := by
  have listed : Listed sampleDigest album (scan album) := scan_listed (by decide)
  have agrees : Agrees album phone := by
    unfold Agrees
    decide
  have opens : ∀ f ∈ album, ∀ d ∈ phone, Changed f d → openAndRead album f.path = .bytes f.content := by
    unfold Changed
    decide
  exact (estimate_predicts_transfer sampleDigest (scan album) (scan album) .phoneToServer listed listed
    (by decide) agrees).2 opens

/-- The server file has a name that is no text, and the device a file of the name it is listed by. -/
def oddAlbum : Folder :=
  [{ name := [.invalid [0xff]], size := 3, mtimeUnixMs := 1, content := [1, 2, 3] }]

def oddPhone : List DeviceFile :=
  [{ path := String.singleton (Char.ofNat 0xFFFD), size := 2, mtimeUnixMs := 2, content := [1, 2] }]

/-- The upload would move the file, and the estimate reports it unreadable instead. -/
theorem unreadable_file_not_pending :
    Listed sampleDigest oddAlbum (scan oddAlbum) ∧ (oddPhone.map DeviceFile.path).Nodup ∧
      Agrees oddAlbum oddPhone ∧
      ¬∃ data, twoPasses sampleDigest oddAlbum (scan oddAlbum) (scan oddAlbum) oddPhone .phoneToServer =
          .ok data ∧
        ∀ p, p ∈ data.pending ↔ Transfers sampleDigest oddAlbum oddPhone .phoneToServer p := by
  refine ⟨scan_listed (by decide), by decide, by unfold Agrees; decide, ?_⟩
  rintro ⟨data, result, exact_⟩
  have moved : Transfers sampleDigest oddAlbum oddPhone .phoneToServer
      (String.singleton (Char.ofNat 0xFFFD)) := by
    unfold Transfers
    decide
  have pending : data.pending = [] := by
    have computed : (twoPasses sampleDigest oddAlbum (scan oddAlbum) (scan oddAlbum) oddPhone
        .phoneToServer).toOption.map DiffResult.pending = some [] := by decide
    rw [result] at computed
    exact Option.some.inj computed
  have listed := (exact_ _).mpr moved
  rw [pending] at listed
  cases listed

end Samples

end NixHomeServer.Filesync
