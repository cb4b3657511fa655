import NixHomeServer.Library.Keyed
import Mathlib.Data.List.Infix

/-! Trees of folders and files. A path is the list of the names on the way to it,
and whatever is in a tree lies in a folder of it. A walk that reads one folder
after the other meets every file. -/
namespace NixHomeServer.Library

variable {α β : Type}

inductive Item (β : Type)
  | folder
  | file (content : β)
  deriving DecidableEq, Repr

instance (i : Option (Item β)) : Decidable (i = some .folder) := match i with
  | some .folder => isTrue rfl
  | some (.file _) => isFalse nofun
  | none => isFalse nofun

structure FileTree (α β : Type) [DecidableEq α] where
  entries : Keyed fun entry : List α × Item β => entry.1
  rooted : ∀ entry ∈ entries.rows, entry.1 ≠ [] ∧
    (entry.1.dropLast = [] ∨ (entry.1.dropLast, .folder) ∈ entries.rows)

namespace FileTree

variable [DecidableEq α]

def item (t : FileTree α β) (path : List α) : Option (Item β) :=
  if path = [] then some .folder else (t.entries.get path).map Prod.snd

def empty : FileTree α β := ⟨.empty, fun _ none => absurd none List.not_mem_nil⟩

theorem item_nil (t : FileTree α β) : t.item [] = some .folder := if_pos rfl

theorem mem_entries {t : FileTree α β} {path : List α} {i : Item β} :
    (path, i) ∈ t.entries.rows ↔ path ≠ [] ∧ t.item path = some i := by
  constructor
  · intro member
    have above := (t.rooted _ member).1
    have found := Keyed.mem_iff_get.mp member
    refine ⟨above, ?_⟩
    rw [item, if_neg above, found]
    rfl
  · rintro ⟨above, found⟩
    rw [item, if_neg above] at found
    obtain ⟨⟨other, i⟩, got, rfl⟩ := Option.map_eq_some_iff.mp found
    have same := Keyed.key_of_get got
    dsimp only at same
    subst same
    exact Keyed.mem_iff_get.mpr got

/-- Whatever is in the tree lies in a folder. -/
theorem item_dropLast {t : FileTree α β} {path : List α} {i : Item β} (there : t.item path = some i)
    (above : path ≠ []) : t.item path.dropLast = some .folder := by
  rcases (t.rooted _ (mem_entries.mpr ⟨above, there⟩)).2 with root | inside
  · rw [root]
    exact t.item_nil
  · exact (mem_entries.mp inside).2

/-- Whatever something lies in is a folder. -/
theorem item_of_prefix {t : FileTree α β} {path above : List α} {i : Item β} (there : t.item path = some i)
    (inside : above <+: path) : above = path ∨ t.item above = some .folder := by
  obtain ⟨rest, rfl⟩ := inside
  induction rest using List.reverseRecOn generalizing i with
  | nil => exact Or.inl (List.append_nil _).symm
  | append_singleton rest last ih =>
    have full : above ++ (rest ++ [last]) ≠ [] := by simp
    have parent := item_dropLast there full
    rw [← List.append_assoc, List.dropLast_concat] at parent
    rcases ih parent with same | folder
    · rw [← same] at parent
      exact Or.inr parent
    · exact Or.inr folder

/-- Nothing lies in a file. -/
theorem eq_of_file_prefix {t : FileTree α β} {path above : List α} {i : Item β} {content : β}
    (there : t.item path = some i) (inside : above <+: path) (file : t.item above = some (.file content)) :
    above = path := by
  rcases item_of_prefix there inside with same | folder
  · exact same
  · rw [file] at folder
    cases folder

/-- What is written to a path at which there is no folder. -/
def put (t : FileTree α β) (path : List α) (i : Item β) (above : path ≠ [])
    (parent : t.item path.dropLast = some .folder) (free : t.item path ≠ some .folder) : FileTree α β where
  entries := t.entries.put (path, i)
  rooted := by
    intro entry member
    rcases Keyed.mem_put.mp member with ⟨old, other⟩ | rfl
    · obtain ⟨proper, inside⟩ := t.rooted entry old
      refine ⟨proper, inside.imp_right fun inside => Keyed.mem_put.mpr (Or.inl ⟨inside, ?_⟩)⟩
      intro same
      have same : entry.1.dropLast = path := same
      exact free (same ▸ (mem_entries.mp inside).2)
    · refine ⟨above, ?_⟩
      by_cases root : path.dropLast = []
      · exact Or.inl root
      · refine Or.inr (Keyed.mem_put.mpr (Or.inl ⟨mem_entries.mpr ⟨root, parent⟩, fun same => ?_⟩))
        exact free ((congrArg t.item same).symm.trans parent)

theorem item_put (t : FileTree α β) {path : List α} {i : Item β} (above : path ≠ [])
    (parent : t.item path.dropLast = some .folder) (free : t.item path ≠ some .folder) (other : List α) :
    (t.put path i above parent free).item other = if other = path then some i else t.item other := by
  unfold item put
  dsimp only
  rw [Keyed.get_put]
  by_cases root : other = []
  · rw [if_pos root, if_pos root, if_neg (root ▸ Ne.symm above)]
  · rw [if_neg root, if_neg root]
    by_cases same : path = other
    · rw [if_pos same, if_pos same.symm]
      rfl
    · rw [if_neg same, if_neg (Ne.symm same)]

/-- The folders on the way from a folder on are made where they are missing. -/
def makeFrom (t : FileTree α β) (done : List α) : List α → Option (FileTree α β)
  | [] => some t
  | name :: rest =>
    if t.item (done ++ [name]) = some .folder then t.makeFrom (done ++ [name]) rest
    else if missing : t.item (done ++ [name]) = none ∧ t.item done = some .folder then
      (t.put (done ++ [name]) .folder (by simp) (by rw [List.dropLast_concat]; exact missing.2)
        (by rw [missing.1]; nofun)).makeFrom (done ++ [name]) rest
    else none

def makeFolders (t : FileTree α β) (path : List α) : Option (FileTree α β) := t.makeFrom [] path

/-- Files stay as they are, and folders stay; there may be more folders. -/
structure MoreFolders (t t' : FileTree α β) : Prop where
  file : ∀ path content, t'.item path = some (.file content) ↔ t.item path = some (.file content)
  folder : ∀ path, t.item path = some .folder → t'.item path = some .folder

theorem MoreFolders.refl (t : FileTree α β) : MoreFolders t t := ⟨fun _ _ => Iff.rfl, fun _ folder => folder⟩

theorem MoreFolders.trans {t t' t'' : FileTree α β} (first : MoreFolders t t') (second : MoreFolders t' t'') :
    MoreFolders t t'' where
  file path content := (second.file path content).trans (first.file path content)
  folder path there := second.folder path (first.folder path there)

theorem put_folder {t : FileTree α β} {path : List α} (above : path ≠ [])
    (parent : t.item path.dropLast = some .folder) (free : t.item path ≠ some .folder) (missing : t.item path = none) :
    MoreFolders t (t.put path .folder above parent free) where
  file other content := by
    rw [item_put]
    split
    · rename_i same
      rw [same, missing]
      exact ⟨nofun, nofun⟩
    · exact Iff.rfl
  folder other there := by
    rw [item_put]
    split
    · rfl
    · exact there

theorem makeFrom_spec {t t' : FileTree α β} {done rest : List α} (made : t.makeFrom done rest = some t')
    (start : t.item done = some .folder) : MoreFolders t t' ∧ t'.item (done ++ rest) = some .folder := by
  induction rest generalizing t done with
  | nil =>
    cases made
    rw [List.append_nil]
    exact ⟨.refl _, start⟩
  | cons name rest ih =>
    rw [List.append_cons]
    unfold makeFrom at made
    split at made
    · rename_i inside
      exact ih made inside
    · split at made
      · rename_i missing
        obtain ⟨later, there⟩ := ih made (by rw [item_put, if_pos rfl])
        exact ⟨(put_folder _ _ _ missing.1).trans later, there⟩
      · cases made

theorem makeFolders_spec {t t' : FileTree α β} {path : List α} (made : t.makeFolders path = some t') :
    MoreFolders t t' ∧ t'.item path = some .folder := makeFrom_spec made t.item_nil

def children (t : FileTree α β) (path : List α) : List (List α × Item β) :=
  t.entries.rows.filter fun entry => entry.1.dropLast = path

theorem mem_children {t : FileTree α β} {path inner : List α} {i : Item β} :
    (inner, i) ∈ t.children path ↔ inner.dropLast = path ∧ inner ≠ [] ∧ t.item inner = some i := by
  simp only [children, List.mem_filter, decide_eq_true_eq, mem_entries]
  exact and_comm

/-- The way to a file leads through an entry of each folder on it. -/
theorem exists_child {t : FileTree α β} {path inner : List α} {content : β}
    (there : t.item inner = some (.file content)) (inside : path <+: inner) (folder : t.item path = some .folder) :
    ∃ entry ∈ t.children path, entry.1 <+: inner := by
  obtain ⟨rest, rfl⟩ := inside
  cases rest with
  | nil =>
    rw [List.append_nil, folder] at there
    cases there
  | cons name rest =>
    have next : path ++ [name] <+: path ++ name :: rest := ⟨rest, List.append_assoc _ _ _⟩
    have found : ∃ i, t.item (path ++ [name]) = some i := by
      rcases item_of_prefix there next with same | folder
      · exact ⟨_, same ▸ there⟩
      · exact ⟨_, folder⟩
    obtain ⟨i, found⟩ := found
    exact ⟨(path ++ [name], i), mem_children.mpr ⟨List.dropLast_concat, by simp, found⟩, next⟩

/-- What a walk has still to look at, and the files that it has met. -/
structure Walk (α β : Type) where
  pending : List (List α × Item β)
  found : List (List α) := []
  deriving DecidableEq, Repr

def walkStep (t : FileTree α β) (w : Walk α β) : Walk α β := match w.pending with
  | [] => w
  | (path, .file _) :: rest => { pending := rest, found := w.found ++ [path] }
  | (path, .folder) :: rest => { w with pending := t.children path ++ rest }

/-- Each file below the path is met or will be, and nothing else is. -/
structure Walk.Covers (t : FileTree α β) (path : List α) (w : Walk α β) : Prop where
  ahead : ∀ entry ∈ w.pending, path <+: entry.1 ∧ t.item entry.1 = some entry.2
  met : ∀ inner ∈ w.found, path <+: inner ∧ ∃ content, t.item inner = some (.file content)
  all : ∀ inner content, path <+: inner → t.item inner = some (.file content) →
    inner ∈ w.found ∨ ∃ entry ∈ w.pending, entry.1 <+: inner

theorem covers_start {t : FileTree α β} {path : List α} (folder : t.item path = some .folder) :
    Walk.Covers t path { pending := [(path, .folder)] } where
  ahead entry member := by
    obtain rfl := List.mem_singleton.mp member
    exact ⟨List.prefix_rfl, folder⟩
  met _ none := absurd none List.not_mem_nil
  all inner _ inside _ := Or.inr ⟨_, List.mem_cons_self, inside⟩

theorem Walk.Covers.step {t : FileTree α β} {path : List α} {w : Walk α β} (covers : w.Covers t path) :
    (t.walkStep w).Covers t path := by
  obtain ⟨pending, found⟩ := w
  cases pending with
  | nil => exact covers
  | cons entry rest =>
    obtain ⟨inside, there⟩ := covers.ahead entry List.mem_cons_self
    obtain ⟨at_path, i⟩ := entry
    cases i with
    | file content =>
      refine ⟨fun entry member => covers.ahead entry (List.mem_cons_of_mem _ member), ?_, ?_⟩
      · intro inner member
        rcases List.mem_append.mp member with old | new
        · exact covers.met inner old
        · obtain rfl := List.mem_singleton.mp new
          exact ⟨inside, content, there⟩
      · intro inner other below file
        rcases covers.all inner other below file with met | ⟨entry, member, through⟩
        · exact Or.inl (List.mem_append_left _ met)
        · rcases List.mem_cons.mp member with rfl | later
          · have same := eq_of_file_prefix file through there
            exact Or.inl (List.mem_append_right _ (List.mem_singleton.mpr same.symm))
          · exact Or.inr ⟨entry, later, through⟩
    | folder =>
      refine ⟨?_, covers.met, ?_⟩
      · intro entry member
        rcases List.mem_append.mp member with child | later
        · obtain ⟨parent, -, found⟩ := mem_children.mp child
          have below : at_path <+: entry.1 := parent ▸ List.dropLast_prefix entry.1
          exact ⟨inside.trans below, found⟩
        · exact covers.ahead entry (List.mem_cons_of_mem _ later)
      · intro inner content below file
        rcases covers.all inner content below file with met | ⟨entry, member, through⟩
        · exact Or.inl met
        · rcases List.mem_cons.mp member with rfl | later
          · obtain ⟨child, there, on⟩ := exists_child file through there
            exact Or.inr ⟨child, List.mem_append_left _ there, on⟩
          · exact Or.inr ⟨entry, List.mem_append_right _ later, through⟩

/-- The tree may change elsewhere, and folders may be made. -/
theorem Walk.Covers.change {t t' : FileTree α β} {path : List α} {w : Walk α β} (covers : w.Covers t path)
    (kept : ∀ inner i, path <+: inner → t.item inner = some i → t'.item inner = some i)
    (new : ∀ inner content, path <+: inner → t'.item inner = some (.file content) →
      t.item inner = some (.file content)) : w.Covers t' path where
  ahead entry member := ⟨(covers.ahead entry member).1, kept _ _ (covers.ahead entry member).1 (covers.ahead entry member).2⟩
  met inner member := by
    obtain ⟨below, content, there⟩ := covers.met inner member
    exact ⟨below, content, kept inner _ below there⟩
  all inner content below there := covers.all inner content below (new inner content below there)

/-- A walk that is over has met exactly the files below the path. -/
theorem Walk.Covers.found_iff {t : FileTree α β} {path : List α} {found : List (List α)}
    (covers : Walk.Covers t path { pending := [], found := found }) (inner : List α) :
    inner ∈ found ↔ path <+: inner ∧ ∃ content, t.item inner = some (.file content) := by
  refine ⟨covers.met inner, fun ⟨below, content, there⟩ => ?_⟩
  rcases covers.all inner content below there with met | ⟨entry, none, -⟩
  · exact met
  · exact absurd none List.not_mem_nil

end FileTree

end NixHomeServer.Library
