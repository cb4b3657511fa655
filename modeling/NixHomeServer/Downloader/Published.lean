import NixHomeServer.Downloader.Publish

/-! Whose files lie in a folder, and which files are recorded for a job. -/
namespace NixHomeServer.Downloader

open NixHomeServer.Library

/-- The entry has been copied into the folder, under a name of its own. -/
def Placed (files : Files) (folder : Path) (entry : Entry) : Prop :=
  ∃ name : Name, ∀ path content, (path, .file content) ∈ entry.items →
    files.item (folder ++ [name] ++ path) = some (.file content)

/-- The folder that a job is about to make. -/
def Phase.enters : Phase → Option Path
  | .downloading folder => some folder
  | _ => none

namespace Site

/-- No file lies in the folder, and no job that is copying into the library or recording its files has
a folder in there or around it. -/
def Clear (x : Site) (folder : Path) : Prop :=
  (∀ entry ∈ x.files.entries.rows, entry.2 ≠ .folder → ¬folder <+: entry.1) ∧
    ∀ other ∈ x.jobs, ∀ taken ∈ other.phase.publishes, ¬folder <+: taken ∧ ¬taken <+: folder

instance (x : Site) (folder : Path) : Decidable (x.Clear folder) := by
  unfold Clear
  infer_instance

/-- A job makes its folder where it is clear. -/
def Meets (x : Site) : Move → Prop
  | .advance i => ∀ job ∈ x.jobs[i]?, ∀ folder ∈ job.phase.enters, x.Clear folder
  | .fail _ => True

instance (x : Site) (move : Move) : Decidable (x.Meets move) := by
  cases move <;> unfold Meets <;> infer_instance

/-- A job owns what it publishes. -/
structure Owned (x : Site) : Prop where
  whole : ∀ job ∈ x.jobs, ∀ folder rows, job.phase = .completed folder rows →
    ∀ entry ∈ job.order.entries, Placed x.files folder entry
  recorded : ∀ job ∈ x.jobs, ∀ folder rows, job.phase = .completed folder rows →
    ∀ path, (∃ row ∈ rows, row.path = path) ↔ folder ++ path ∈ job.copied
  own : ∀ (i j : Nat) a b, i ≠ j → x.jobs[i]? = some a → x.jobs[j]? = some b → ∀ path ∈ a.copied, path ∉ b.copied
  apart : ∀ (i j : Nat) a b, i ≠ j → x.jobs[i]? = some a → x.jobs[j]? = some b → a.into = b.into →
    a.copied ≠ [] → b.copied ≠ [] → a.order.request.includeChannel = true ∧ b.order.request.includeChannel = true

end Site

/-- Nothing goes away, and no file comes into the folder. -/
structure Undisturbed (taken : Option Path) (t t' : Files) : Prop where
  kept : ∀ path i, t.item path = some i → t'.item path = some i
  new : ∀ folder ∈ taken, ∀ path content, folder <+: path → t'.item path = some (.file content) →
    t.item path = some (.file content)

section Changes

variable {files made : Files} {path : Path} {content : String}

theorem undisturbed_refl (taken : Option Path) (t : Files) : Undisturbed taken t t :=
  ⟨fun _ _ there => there, fun _ _ _ _ _ there => there⟩

theorem undisturbed_folders (more : files.MoreFolders made) (taken : Option Path) : Undisturbed taken files made where
  kept path i there := by
    cases i with
    | folder => exact more.folder path there
    | file content => exact (more.file path content).mpr there
  new _ _ path content _ there := (more.file path content).mp there

theorem makeFolder_spec (done : makeFolder files path = some made) :
    files.MoreFolders made ∧ made.item path = some .folder := by
  unfold makeFolder at done
  split at done
  · rename_i fits
    cases done
    exact ⟨FileTree.put_folder fits.1 fits.2.1 (by rw [fits.2.2]; simp) fits.2.2, by rw [FileTree.item_put, if_pos rfl]⟩
  · cases done

theorem overwrite_spec (done : overwrite files path content = some made) :
    files.item path ≠ some .folder ∧ ∀ other, made.item other = if other = path then some (.file content) else files.item other := by
  unfold overwrite at done
  split at done
  · rename_i fits
    cases done
    exact ⟨fits.2.2, files.item_put fits.1 fits.2.1 fits.2.2⟩
  · cases done

/-- A file is written where there was none. -/
theorem overwrite_kept (done : overwrite files path content = some made)
    (free : ∀ content, files.item path ≠ some (.file content)) (other : Path) (i : Item String)
    (there : files.item other = some i) : made.item other = some i := by
  obtain ⟨noFolder, written⟩ := overwrite_spec done
  rw [written]
  split
  · rename_i same
    subst same
    cases i with
    | folder => exact absurd there noFolder
    | file content => exact absurd there (free content)
  · exact there

/-- It is written below another folder. -/
theorem undisturbed_overwrite (done : overwrite files path content = some made)
    (free : ∀ content, files.item path ≠ some (.file content)) {taken : Option Path}
    (apart : ∀ folder ∈ taken, ¬folder <+: path) : Undisturbed taken files made where
  kept := overwrite_kept done free
  new folder member other content below there := by
    rw [(overwrite_spec done).2] at there
    split at there
    · rename_i same
      exact absurd (same ▸ below) (apart folder member)
    · exact there

end Changes

/-- How far a job has come. -/
def Progress (files : Files) (job : Publication) : Phase → Prop
  | .preparing | .choosing _ _ | .downloading _ => job.copied = [] ∧ job.into = none
  | .copying folder rest => ∃ done, job.order.entries = done ++ rest ∧ ∀ entry ∈ done, Placed files folder entry
  | .naming folder entry _ rest =>
    ∃ done, job.order.entries = done ++ entry :: rest ∧ ∀ entry ∈ done, Placed files folder entry
  | .placing folder destination items rest => ∃ done entry earlier name, job.order.entries = done ++ entry :: rest ∧
    (∀ entry ∈ done, Placed files folder entry) ∧ destination = folder ++ [name] ∧ entry.items = earlier ++ items ∧
    ∀ path content, (path, .file content) ∈ earlier → files.item (destination ++ path) = some (.file content)
  | .writing folder destination path content items rest =>
    (∃ done entry earlier name, job.order.entries = done ++ entry :: rest ∧
      (∀ entry ∈ done, Placed files folder entry) ∧ destination = folder ++ [name] ∧
      entry.items = earlier ++ (path, .file content) :: items ∧
      ∀ path content, (path, .file content) ∈ earlier → files.item (destination ++ path) = some (.file content)) ∧
    ∀ content, files.item (destination ++ path) ≠ some (.file content)
  | .walking folder walk => (∀ entry ∈ job.order.entries, Placed files folder entry) ∧ walk.Covers files folder
  | .completed folder rows => (∀ entry ∈ job.order.entries, Placed files folder entry) ∧
    ∀ path, (∃ row ∈ rows, row.path = path) ↔ folder ++ path ∈ job.copied
  | .spent => True

structure Publication.Fits (files : Files) (job : Publication) : Prop where
  into : ∀ folder ∈ job.phase.publishes, job.into = some folder
  there : ∀ path ∈ job.copied, ∃ folder ∈ job.into, folder <+: path ∧ ∃ content, files.item path = some (.file content)
  all : ∀ folder ∈ job.phase.publishes, files.item folder = some .folder ∧
    ∀ path content, folder <+: path → files.item path = some (.file content) → path ∈ job.copied
  progress : Progress files job job.phase

section Fits

variable {files files' : Files} {job : Publication}

theorem Placed.change {folder : Path} {entry : Entry} (placed : Placed files folder entry)
    (kept : ∀ path i, files.item path = some i → files'.item path = some i) : Placed files' folder entry := by
  obtain ⟨name, all⟩ := placed
  exact ⟨name, fun path content member => kept _ _ (all path content member)⟩

theorem Progress.change {phase : Phase} (progress : Progress files job phase)
    (quiet : Undisturbed phase.publishes files files') : Progress files' job phase := by
  have kept := quiet.kept
  cases phase with
  | preparing => exact progress
  | choosing root index => exact progress
  | downloading folder => exact progress
  | copying folder rest =>
    obtain ⟨done, split, placed⟩ := progress
    exact ⟨done, split, fun entry member => (placed entry member).change kept⟩
  | naming folder entry index rest =>
    obtain ⟨done, split, placed⟩ := progress
    exact ⟨done, split, fun entry member => (placed entry member).change kept⟩
  | placing folder destination items rest =>
    obtain ⟨done, entry, earlier, name, split, placed, here, parts, written⟩ := progress
    exact ⟨done, entry, earlier, name, split, fun entry member => (placed entry member).change kept, here, parts,
      fun path content member => kept _ _ (written path content member)⟩
  | writing folder destination path content items rest =>
    obtain ⟨⟨done, entry, earlier, name, split, placed, rfl, parts, written⟩, free⟩ := progress
    refine ⟨⟨done, entry, earlier, name, split, fun entry member => (placed entry member).change kept, rfl, parts,
      fun path content member => kept _ _ (written path content member)⟩, fun content there => free content ?_⟩
    exact quiet.new folder rfl _ content ⟨name :: path, by simp⟩ there
  | walking folder walk =>
    obtain ⟨placed, covers⟩ := progress
    exact ⟨fun entry member => (placed entry member).change kept,
      covers.change (fun inner i _ there => kept inner i there) (quiet.new folder rfl)⟩
  | completed folder rows =>
    exact ⟨fun entry member => (progress.1 entry member).change kept, progress.2⟩
  | spent => trivial

/-- What others do leaves a job as it is. -/
theorem Publication.Fits.change (fits : job.Fits files) (quiet : Undisturbed job.phase.publishes files files') :
    job.Fits files' where
  into := fits.into
  there path member := by
    obtain ⟨folder, into, below, content, there⟩ := fits.there path member
    exact ⟨folder, into, below, content, quiet.kept _ _ there⟩
  all folder member := by
    obtain ⟨there, all⟩ := fits.all folder member
    exact ⟨quiet.kept _ _ there, fun path content below here =>
      all path content below (quiet.new folder member path content below here)⟩
  progress := fits.progress.change quiet

/-- A job goes on in its folder. -/
theorem Publication.Fits.goes (fits : job.Fits files) {phase : Phase} (same : phase.publishes = job.phase.publishes)
    (next : Progress files job phase) : Publication.Fits files { job with phase := phase } where
  into folder member := fits.into folder (same ▸ member)
  there := fits.there
  all folder member := fits.all folder (same ▸ member)
  progress := by
    cases phase <;> exact next

theorem Publication.Fits.ends (fits : job.Fits files) {phase : Phase} (idle : phase.publishes = none)
    (next : Progress files job phase) : Publication.Fits files { job with phase := phase } where
  into folder member := absurd (idle.symm.trans member) nofun
  there := fits.there
  all folder member := absurd (idle.symm.trans member) nofun
  progress := by
    cases phase <;> exact next

/-- A folder of the job's own is made. -/
theorem Publication.Fits.enters (fits : job.Fits files) {folder : Path} (phase : job.phase = .downloading folder)
    {made : Files} (more : files.MoreFolders made) (there : made.item folder = some .folder)
    (clear : ∀ path content, folder <+: path → files.item path ≠ some (.file content)) :
    Publication.Fits made { job with phase := .copying folder job.order.entries, into := some folder } := by
  have bare := fits.progress
  rw [phase] at bare
  refine ⟨fun _ member => member, fun path member => absurd (bare.1 ▸ member) List.not_mem_nil, ?_,
    [], rfl, fun _ none => absurd none List.not_mem_nil⟩
  intro other member
  cases member
  exact ⟨there, fun path content below here => absurd ((more.file path content).mp here) (clear path content below)⟩

/-- A file of the job's own is written. -/
theorem Publication.Fits.writes (fits : job.Fits files) {folder destination path : Path} {content : String}
    {items : List (Path × Item String)} {rest : List Entry}
    (phase : job.phase = .writing folder destination path content items rest) {made : Files}
    (done : overwrite files (destination ++ path) content = some made) :
    Publication.Fits made { job with
      phase := .placing folder destination items rest
      copied := job.copied ++ [destination ++ path] } := by
  have progress := fits.progress
  rw [phase] at progress
  obtain ⟨⟨placed, entry, earlier, name, split, all, rfl, parts, written⟩, free⟩ := progress
  have into : job.into = some folder := fits.into folder (by rw [phase]; rfl)
  have kept := overwrite_kept done free
  have new := (overwrite_spec done).2
  have here := new (folder ++ [name] ++ path)
  rw [if_pos rfl] at here
  have below : folder <+: folder ++ [name] ++ path := ⟨name :: path, by simp⟩
  refine ⟨fun _ member => into.trans member, fun other member => ?_, fun other member => ?_, ?_⟩
  · rcases List.mem_append.mp member with old | own
    · obtain ⟨folder, into, below, content, there⟩ := fits.there other old
      exact ⟨folder, into, below, content, kept _ _ there⟩
    · obtain rfl := List.mem_singleton.mp own
      exact ⟨folder, into, below, content, here⟩
  · cases member
    obtain ⟨there, all⟩ := fits.all folder (by rw [phase]; rfl)
    refine ⟨kept _ _ there, fun path content inside found => ?_⟩
    rw [new] at found
    split at found
    · rename_i same
      exact List.mem_append_right _ (List.mem_singleton.mpr same)
    · exact List.mem_append_left _ (all path content inside found)
  · refine ⟨placed, entry, earlier ++ [(path, .file content)], name, split,
      fun entry member => (all entry member).change kept, rfl, by rw [List.append_assoc]; exact parts, ?_⟩
    intro other text member
    rcases List.mem_append.mp member with old | own
    · exact kept _ _ (written other text old)
    · cases List.mem_singleton.mp own
      exact here

/-- A walk that is over records what has been copied. -/
theorem Publication.Fits.recorded (fits : job.Fits files) {folder : Path} {walk : FileTree.Walk Name String}
    (phase : job.phase = .walking folder walk) (covers : walk.Covers files folder) (ended : walk.pending = [])
    (path : Path) : (∃ row ∈ walk.found.map fun path : Path =>
      (⟨path.drop folder.length, kindOf (path.getLastD [])⟩ : FileRow), row.path = path) ↔ folder ++ path ∈ job.copied := by
  have found : ∀ inner, inner ∈ walk.found ↔ folder <+: inner ∧ ∃ content, files.item inner = some (.file content) := by
    obtain ⟨pending, found⟩ := walk
    obtain rfl : pending = [] := ended
    exact covers.found_iff
  constructor
  · rintro ⟨row, member, same⟩
    obtain ⟨inner, met, rfl⟩ := List.mem_map.mp member
    obtain ⟨⟨rest, rfl⟩, content, there⟩ := (found inner).mp met
    have same : (folder ++ rest).drop folder.length = path := same
    rw [List.drop_left] at same
    subst same
    exact (fits.all folder (by rw [phase]; rfl)).2 _ content ⟨rest, rfl⟩ there
  · intro copied
    obtain ⟨_, -, -, content, there⟩ := fits.there _ copied
    have met := (found (folder ++ path)).mpr ⟨⟨path, rfl⟩, content, there⟩
    exact ⟨_, List.mem_map_of_mem met, List.drop_left⟩

theorem Publication.Fits.advance (roots : Roots) (fits : job.Fits files)
    (clear : ∀ folder, job.phase = .downloading folder → ∀ path content, folder <+: path →
      files.item path ≠ some (.file content)) : (job.advance roots files).2.Fits (job.advance roots files).1 := by
  have progress := fits.progress
  have spent : Publication.Fits files { job with phase := .spent } := fits.ends rfl trivial
  unfold Publication.advance
  dsimp only
  split
  case h_1 phase =>
    rw [phase] at progress
    split
    · exact spent
    · split
      · exact spent
      · rename_i made done
        have grown := fits.change (undisturbed_folders (FileTree.makeFolders_spec done).1 _)
        split
        · refine grown.ends ?_ ?_
          · split <;> rfl
          · split
            · exact progress
            · trivial
        · exact grown.ends rfl progress
  case h_2 root index phase =>
    rw [phase] at progress
    split
    · exact spent
    · split
      · exact fits.ends rfl progress
      · split
        · exact spent
        · split
          · exact fits.ends rfl progress
          · exact spent
  case h_3 folder phase =>
    split
    · rename_i made done
      obtain ⟨more, there⟩ := FileTree.makeFolders_spec done
      exact fits.enters phase more there (clear folder phase)
    · exact spent
  case h_4 folder phase =>
    rw [phase] at progress
    obtain ⟨done, split, placed⟩ := progress
    have there := (fits.all folder (by rw [phase]; rfl)).1
    rw [List.append_nil] at split
    exact fits.goes (by rw [phase]; rfl) ⟨split ▸ placed, FileTree.covers_start there⟩
  case h_5 folder entry rest phase =>
    rw [phase] at progress
    exact fits.goes (by rw [phase]; rfl) progress
  case h_6 folder entry index rest phase =>
    rw [phase] at progress
    split
    · exact spent
    · split
      · exact fits.goes (by rw [phase]; rfl) progress
      · obtain ⟨done, split, placed⟩ := progress
        exact fits.goes (by rw [phase]; rfl)
          ⟨done, entry, [], _, split, placed, rfl, rfl, fun _ _ none => absurd none List.not_mem_nil⟩
  case h_7 folder destination rest phase =>
    rw [phase] at progress
    obtain ⟨done, entry, earlier, name, split, placed, rfl, parts, written⟩ := progress
    refine fits.goes (by rw [phase]; rfl) ⟨done ++ [entry], by rw [List.append_assoc]; exact split, ?_⟩
    intro other member
    rcases List.mem_append.mp member with old | own
    · exact placed other old
    · obtain rfl := List.mem_singleton.mp own
      rw [List.append_nil] at parts
      exact ⟨name, fun path content member => written path content (parts ▸ member)⟩
  case h_8 folder destination path items rest phase =>
    have next : ∀ files', (∀ path i, files.item path = some i → files'.item path = some i) →
        Progress files' job (.placing folder destination items rest) := by
      intro files' kept
      rw [phase] at progress
      obtain ⟨done, entry, earlier, name, split, placed, here, parts, written⟩ := progress
      refine ⟨done, entry, earlier ++ [(path, .folder)], name, split,
        fun entry member => (placed entry member).change kept, here, by rw [List.append_assoc]; exact parts, ?_⟩
      intro other content member
      rcases List.mem_append.mp member with old | own
      · exact kept _ _ (written other content old)
      · cases List.mem_singleton.mp own
    split
    · exact fits.goes (by rw [phase]; rfl) (next files fun _ _ there => there)
    · split
      · rename_i made done
        have quiet := undisturbed_folders (makeFolder_spec done).1 job.phase.publishes
        exact (fits.change quiet).goes (by rw [phase]; rfl) (next made quiet.kept)
      · exact spent
  case h_9 folder destination path content items rest phase =>
    rw [phase] at progress
    obtain ⟨done, entry, earlier, name, split, placed, here, parts, written⟩ := progress
    split
    · exact spent
    · rename_i free
      refine fits.goes (by rw [phase]; rfl) ⟨⟨done, entry, earlier, name, split, placed, here, parts, written⟩, ?_⟩
      intro content there
      rw [there] at free
      exact free rfl
  case h_10 folder destination path content items rest phase =>
    split
    · rename_i made done
      exact fits.writes phase done
    · exact spent
  case h_11 folder walk phase =>
    rw [phase] at progress
    obtain ⟨placed, covers⟩ := progress
    split
    · rename_i ended
      exact fits.ends rfl ⟨placed, fits.recorded phase covers ended⟩
    · exact fits.goes (by rw [phase]; rfl) ⟨placed, covers.step⟩
  case h_12 phase =>
    exact fits.goes rfl progress
  case h_13 phase =>
    exact fits.goes rfl progress

/-- What a job can do in one step, to the library and to itself. -/
theorem advance_cases (roots : Roots) (files : Files) (job : Publication) :
    (files.MoreFolders (job.advance roots files).1 ∧ ∃ phase : Phase,
        (job.advance roots files).2 = { job with phase := phase } ∧
          (phase.publishes = none ∨ phase.publishes = job.phase.publishes)) ∨
      (∃ folder, job.phase = .downloading folder ∧ files.MoreFolders (job.advance roots files).1 ∧
        (job.advance roots files).2 =
          { job with phase := .copying folder job.order.entries, into := some folder }) ∨
      ∃ folder destination path content items rest, job.phase = .writing folder destination path content items rest ∧
        overwrite files (destination ++ path) content = some (job.advance roots files).1 ∧
        (job.advance roots files).2 = { job with
          phase := .placing folder destination items rest
          copied := job.copied ++ [destination ++ path] } := by
  have stays : ∀ phase : Phase, phase.publishes = none ∨ phase.publishes = job.phase.publishes →
      files.MoreFolders files ∧ ∃ next : Phase, ({ job with phase := phase } : Publication) = { job with phase := next } ∧
        (next.publishes = none ∨ next.publishes = job.phase.publishes) :=
    fun phase goes => ⟨.refl files, phase, rfl, goes⟩
  unfold Publication.advance
  dsimp only
  split
  case h_1 phase =>
    split
    · exact Or.inl (stays .spent (Or.inl rfl))
    · split
      · exact Or.inl (stays .spent (Or.inl rfl))
      · rename_i made done
        split
        · refine Or.inl ⟨(FileTree.makeFolders_spec done).1, _, rfl, Or.inl ?_⟩
          split <;> rfl
        · exact Or.inl ⟨(FileTree.makeFolders_spec done).1, _, rfl, Or.inl rfl⟩
  case h_2 root index phase =>
    split
    · exact Or.inl (stays .spent (Or.inl rfl))
    · split
      · exact Or.inl (stays _ (Or.inl rfl))
      · split
        · exact Or.inl (stays .spent (Or.inl rfl))
        · split
          · exact Or.inl (stays _ (Or.inl rfl))
          · exact Or.inl (stays .spent (Or.inl rfl))
  case h_3 folder phase =>
    split
    · rename_i made done
      exact Or.inr (Or.inl ⟨folder, phase, (FileTree.makeFolders_spec done).1, rfl⟩)
    · exact Or.inl (stays .spent (Or.inl rfl))
  case h_6 folder entry index rest phase =>
    split
    · exact Or.inl (stays .spent (Or.inl rfl))
    · split <;> exact Or.inl (stays _ (Or.inr (by rw [phase]; rfl)))
  case h_8 folder destination path items rest phase =>
    split
    · exact Or.inl (stays _ (Or.inr (by rw [phase]; rfl)))
    · split
      · rename_i made done
        exact Or.inl ⟨(makeFolder_spec done).1, _, rfl, Or.inr (by rw [phase]; rfl)⟩
      · exact Or.inl (stays .spent (Or.inl rfl))
  case h_9 folder destination path content items rest phase =>
    split
    · exact Or.inl (stays .spent (Or.inl rfl))
    · exact Or.inl (stays _ (Or.inr (by rw [phase]; rfl)))
  case h_10 folder destination path content items rest phase =>
    split
    · rename_i made done
      exact Or.inr (Or.inr ⟨folder, destination, path, content, items, rest, phase, done, rfl⟩)
    · exact Or.inl (stays .spent (Or.inl rfl))
  case h_11 folder walk phase =>
    split
    · exact Or.inl (stays _ (Or.inl rfl))
    · exact Or.inl (stays _ (Or.inr (by rw [phase]; rfl)))
  case h_4 folder phase => exact Or.inl (stays _ (Or.inr (by rw [phase]; rfl)))
  case h_5 folder entry rest phase => exact Or.inl (stays _ (Or.inr (by rw [phase]; rfl)))
  case h_7 folder destination rest phase => exact Or.inl (stays _ (Or.inr (by rw [phase]; rfl)))
  all_goals exact Or.inl (stays _ (Or.inr rfl))

end Fits

/-- Two jobs that do not get in each other's way. -/
structure Separate (a b : Publication) : Prop where
  apart : ∀ folder ∈ a.phase.publishes, ∀ other ∈ b.phase.publishes, ¬folder <+: other ∧ ¬other <+: folder
  own : ∀ path ∈ a.copied, path ∉ b.copied
  shared : a.into = b.into → a.copied = [] ∨ b.copied = []

theorem Separate.symm {a b : Publication} (separate : Separate a b) : Separate b a where
  apart folder member other there := (separate.apart other there folder member).symm
  own path member there := separate.own path there member
  shared same := (separate.shared same.symm).symm

/-- A job that goes on within its folder, or leaves it. -/
theorem Separate.goes {a b : Publication} (separate : Separate a b) {phase : Phase}
    (goes : phase.publishes = none ∨ phase.publishes = a.phase.publishes) : Separate { a with phase := phase } b where
  apart folder member := by
    have member : phase.publishes = some folder := member
    rcases goes with idle | same
    · exact absurd (idle.symm.trans member) nofun
    · exact separate.apart folder (same.symm.trans member)
  own := separate.own
  shared := separate.shared

namespace Site

variable {roots : Roots} {x : Site}

structure Sound (x : Site) : Prop where
  fits : ∀ (i : Nat) job, x.jobs[i]? = some job → job.Fits x.files
  separate : ∀ (i j : Nat) a b, i ≠ j → x.jobs[i]? = some a → x.jobs[j]? = some b → Separate a b

/-- One job makes a step. -/
theorem Sound.set (sound : Sound x) {i : Nat} {job : Publication} {files : Files} (fits : job.Fits files)
    (quiet : ∀ (j : Nat) b, i ≠ j → x.jobs[j]? = some b → Undisturbed b.phase.publishes x.files files)
    (separate : ∀ (j : Nat) b, i ≠ j → x.jobs[j]? = some b → Separate job b) :
    Sound { files := files, jobs := x.jobs.set i job } := by
  have at_i : ∀ (j : Nat) b, (x.jobs.set i job)[j]? = some b → (i = j ∧ b = job) ∨ (i ≠ j ∧ x.jobs[j]? = some b) := by
    intro j b there
    rw [List.getElem?_set] at there
    split at there
    · split at there
      · exact Or.inl ⟨by assumption, (Option.some.inj there).symm⟩
      · cases there
    · exact Or.inr ⟨by assumption, there⟩
  refine ⟨fun j b there => ?_, fun j k a b apart there here => ?_⟩
  · rcases at_i j b there with ⟨-, rfl⟩ | ⟨other, there⟩
    · exact fits
    · exact (sound.fits j b there).change (quiet j b other there)
  · rcases at_i j a there with ⟨rfl, rfl⟩ | ⟨other, first⟩
    · rcases at_i k b here with ⟨same, -⟩ | ⟨_, second⟩
      · exact absurd same apart
      · exact separate k b apart second
    · rcases at_i k b here with ⟨rfl, rfl⟩ | ⟨_, second⟩
      · exact (separate j a other first).symm
      · exact sound.separate j k a b apart first second

theorem mem_files {files : Files} {path : Path} {content : String} (below : path ≠ [])
    (there : files.item path = some (.file content)) : ∃ entry ∈ files.entries.rows, entry.2 ≠ .folder ∧ entry.1 = path :=
  ⟨_, FileTree.mem_entries.mpr ⟨below, there⟩, nofun, rfl⟩

theorem file_ne_nil {files : Files} {path : Path} {content : String} (there : files.item path = some (.file content)) :
    path ≠ [] := by
  rintro rfl
  rw [FileTree.item_nil] at there
  cases there

theorem Sound.advance (sound : Sound x) {i : Nat} {job : Publication} (at_i : x.jobs[i]? = some job)
    (meets : x.Meets (.advance i)) :
    Sound { files := (job.advance roots x.files).1, jobs := x.jobs.set i (job.advance roots x.files).2 } ∧
      ∀ path item, x.files.item path = some item → (job.advance roots x.files).1.item path = some item := by
  have fits := sound.fits i job at_i
  have apart := fun j b other there => sound.separate i j job b other at_i there
  have clear : ∀ folder, job.phase = .downloading folder →
      (∀ path content, folder <+: path → x.files.item path ≠ some (.file content)) ∧
        ∀ other ∈ x.jobs, ∀ taken ∈ other.phase.publishes, ¬folder <+: taken ∧ ¬taken <+: folder := by
    intro folder phase
    have met := meets job at_i folder (by rw [phase]; rfl)
    refine ⟨fun path content below there => ?_, met.2⟩
    obtain ⟨entry, member, file, rfl⟩ := mem_files (file_ne_nil there) there
    exact met.1 entry member file below
  have next := fits.advance roots fun folder phase => (clear folder phase).1
  rcases advance_cases roots x.files job with ⟨more, phase, is, goes⟩ | ⟨folder, phase, more, is⟩ |
    ⟨folder, destination, path, content, items, rest, phase, done, is⟩
  · refine ⟨sound.set next (fun j b _ _ => undisturbed_folders more _) fun j b other there => ?_,
      (undisturbed_folders more none).kept⟩
    rw [is]
    exact (apart j b other there).goes goes
  · refine ⟨sound.set next (fun j b _ _ => undisturbed_folders more _) fun j b other there => ?_,
      (undisturbed_folders more none).kept⟩
    have bare := fits.progress
    rw [phase] at bare
    rw [is]
    refine ⟨fun own member taken there' => ?_, fun path member => ?_, fun _ => Or.inl bare.1⟩
    · obtain rfl : folder = own := Option.some.inj member
      exact (clear folder phase).2 b (List.mem_of_getElem? there) taken there'
    · exact absurd (bare.1 ▸ member) List.not_mem_nil
  · have progress := fits.progress
    rw [phase] at progress
    obtain ⟨⟨-, -, -, name, -, -, rfl, -⟩, free⟩ := progress
    have publishes : job.phase.publishes = some folder := by
      rw [phase]
      rfl
    have into := fits.into folder publishes
    have below : folder <+: folder ++ [name] ++ path := ⟨name :: path, by simp⟩
    refine ⟨sound.set next (fun j b other there => ?_) fun j b other there => ?_, overwrite_kept done free⟩
    · refine undisturbed_overwrite done free fun taken member inside => ?_
      obtain ⟨not_in, not_around⟩ := (apart j b other there).apart folder publishes taken member
      rcases List.prefix_or_prefix_of_prefix inside below with around | within
      · exact not_around around
      · exact not_in within
    · have fitsB := sound.fits j b there
      have separate := apart j b other there
      rw [is]
      refine ⟨fun own member => separate.apart own (publishes.trans member), fun own member mine => ?_, fun same => ?_⟩
      · rcases List.mem_append.mp member with old | new
        · exact separate.own own old mine
        · obtain rfl := List.mem_singleton.mp new
          obtain ⟨_, -, -, content, there⟩ := fitsB.there _ mine
          exact free content there
      · refine Or.inr (List.eq_nil_iff_forall_not_mem.mpr fun own member => ?_)
        obtain ⟨taken, intoB, inside, content, there⟩ := fitsB.there own member
        have same : folder = taken := Option.some.inj ((into.symm.trans same).trans intoB)
        exact separate.own own ((fits.all folder publishes).2 own content (same ▸ inside) there) member

theorem Sound.step (sound : Sound x) (move : Move) (meets : x.Meets move) :
    Sound (x.step roots move) ∧ ∀ path item, x.files.item path = some item → (x.step roots move).files.item path = some item := by
  cases move with
  | advance i =>
    unfold Site.step
    dsimp only
    cases at_i : x.jobs[i]? with
    | none => exact ⟨sound, fun _ _ there => there⟩
    | some job => exact sound.advance at_i meets
  | fail i =>
    unfold Site.step
    dsimp only
    cases at_i : x.jobs[i]? with
    | none => exact ⟨sound, fun _ _ there => there⟩
    | some job =>
      have failed : Sound { x with jobs := x.jobs.set i { job with phase := .spent } } :=
        sound.set ((sound.fits i job at_i).ends rfl trivial) (fun _ _ _ _ => undisturbed_refl _ _)
          fun j b other there => (sound.separate i j job b other at_i there).goes (Or.inl rfl)
      dsimp only
      split
      · exact ⟨sound, fun _ _ there => there⟩
      · exact ⟨failed, fun _ _ there => there⟩

theorem sound_start (files : Files) (orders : List Order) : Sound (start files orders) := by
  have bare : ∀ (i : Nat) job, (start files orders).jobs[i]? = some job →
      job.phase = .preparing ∧ job.into = none ∧ job.copied = [] := by
    intro i job there
    rw [start, List.getElem?_map] at there
    obtain ⟨order, -, rfl⟩ := Option.map_eq_some_iff.mp there
    exact ⟨rfl, rfl, rfl⟩
  refine ⟨fun i job there => ?_, fun i j a b _ there _ => ?_⟩
  · obtain ⟨phase, into, copied⟩ := bare i job there
    refine ⟨fun folder member => ?_, fun path member => ?_, fun folder member => ?_, ?_⟩
    · rw [phase] at member
      cases member
    · rw [copied] at member
      cases member
    · rw [phase] at member
      cases member
    · rw [phase]
      exact ⟨copied, into⟩
  · obtain ⟨phase, -, copied⟩ := bare i a there
    refine ⟨fun folder member => ?_, fun path member => ?_, fun _ => Or.inl copied⟩
    · rw [phase] at member
      cases member
    · rw [copied] at member
      cases member

theorem Sound.owned (sound : Sound x) : Owned x where
  whole job member folder rows phase := by
    obtain ⟨i, at_i⟩ := List.mem_iff_getElem?.mp member
    have progress := (sound.fits i job at_i).progress
    rw [phase] at progress
    exact progress.1
  recorded job member folder rows phase := by
    obtain ⟨i, at_i⟩ := List.mem_iff_getElem?.mp member
    have progress := (sound.fits i job at_i).progress
    rw [phase] at progress
    exact progress.2
  own i j a b other there here := (sound.separate i j a b other there here).own
  apart i j a b other there here same some_a some_b :=
    ((sound.separate i j a b other there here).shared same).elim (absurd · some_a) (absurd · some_b)

end Site

/-- Jobs own what they publish, and leave alone what is in the library, in every order of their steps
in which each makes its folder where no file lies and no other job is at work. -/
theorem jobs_own_publications (roots : Roots) (files : Files) (orders : List Order) (moves : List Move)
    (meets : Runs.Along (Site.step roots) Site.Meets (Site.start files orders) moves) :
    ∀ early middle late, moves = early ++ middle ++ late →
      (Runs.run (Site.step roots) (Site.start files orders) (early ++ middle)).Owned ∧
      ∀ path item, (Runs.run (Site.step roots) (Site.start files orders) early).files.item path = some item →
        (Runs.run (Site.step roots) (Site.start files orders) (early ++ middle)).files.item path = some item := by
  have kept : ∀ (x : Site) move, x.Meets move → x.Sound → (x.step roots move).Sound :=
    fun x move met sound => (sound.step move met).1
  rintro early middle late rfl
  obtain ⟨along, -⟩ := (Runs.along_append (Site.step roots) Site.Meets _ (early ++ middle) late).mp meets
  obtain ⟨before, after⟩ := (Runs.along_append (Site.step roots) Site.Meets _ early middle).mp along
  have sound := Runs.run_invariant_along (Site.step roots) Site.Meets Site.Sound kept _ early before
    (Site.sound_start files orders)
  rw [Runs.run_append]
  refine ⟨(Runs.run_invariant_along (Site.step roots) Site.Meets Site.Sound kept _ middle after sound).owned, ?_⟩
  exact Runs.run_monotone_along (Site.step roots) Site.Meets Site.Sound
    (fun x y => ∀ path item, x.files.item path = some item → y.files.item path = some item)
    (fun _ _ _ there => there) (fun _ _ _ first second path item there => second path item (first path item there))
    kept (fun x move met sound => (sound.step move met).2) _ middle after sound

section SameTitle

def homes : Roots where
  sharedVideoRoot := ["video".toList]
  sharedAudioRoot := ["audio".toList]
  sharedAudiobooksRoot := ["books".toList]
  usersRoot := ["users".toList]

def titled (title : String) : Order where
  createdBy := "ann"
  request := { url := "https://youtu.be/dQw4w9WgXcQ", splitChapters := some false }
  source := { title := title }
  tempDir := [.file "Song.flac".toList title, .file "Song.jpg".toList "cover"]

/-- Two jobs choose their folders before either makes it. -/
def bothAtOnce : List Move :=
  [.advance 0, .advance 1, .advance 0, .advance 1] ++ List.replicate 12 (.advance 0) ++ List.replicate 13 (.advance 1)

def sameTitle : Site := Runs.run (Site.step homes) (Site.start .empty [titled "Never", titled "Never"]) bothAtOnce

/-- Two downloads with the same title get into the same folder. -/
theorem equal_titles_share_folder : ¬∀ (roots : Roots) (files : Files) (orders : List Order) (moves : List Move),
    (Runs.run (Site.step roots) (Site.start files orders) moves).Owned := by
  intro all
  have owned : sameTitle.Owned := all homes .empty [titled "Never", titled "Never"] bothAtOnce
  have there : sameTitle.jobs[0]?.isSome = true ∧ sameTitle.jobs[1]?.isSome = true := by decide +kernel
  obtain ⟨a, first⟩ := Option.isSome_iff_exists.mp there.1
  obtain ⟨b, second⟩ := Option.isSome_iff_exists.mp there.2
  have shared : ∀ a ∈ sameTitle.jobs[0]?, ∀ b ∈ sameTitle.jobs[1]?,
      a.into = b.into ∧ a.copied ≠ [] ∧ b.copied ≠ [] ∧ a.order.request.includeChannel = false := by decide +kernel
  obtain ⟨into, some_a, some_b, alone⟩ := shared a first b second
  have asked := (owned.apart 0 1 a b (by decide) first second into some_a some_b).1
  rw [alone] at asked
  cases asked

/-- Two downloads with different titles run side by side. -/
theorem different_titles_are_owned :
    (Runs.run (Site.step homes) (Site.start .empty [titled "Never", titled "Gonna"]) bothAtOnce).Owned := by
  have owned := jobs_own_publications homes .empty [titled "Never", titled "Gonna"] bothAtOnce (by decide +kernel)
    bothAtOnce [] [] (by rw [List.append_nil, List.append_nil])
  rw [List.append_nil] at owned
  exact owned.1

end SameTitle

end NixHomeServer.Downloader
