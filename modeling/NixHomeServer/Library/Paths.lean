import NixHomeServer.Library.Patterns

/-! Paths and their components, as a standard library takes a path apart. -/
namespace NixHomeServer.Library

inductive Component
  | rootDir
  | curDir
  | parentDir
  | normal (name : List Char)
  deriving DecidableEq, Repr

def isAbsolute (path : List Char) : Bool := path.head? == some '/'

/-- An empty part and a dot are no component. -/
def componentOf (part : List Char) : Option Component :=
  if part = [] ∨ part = ['.'] then none
  else if part = ['.', '.'] then some .parentDir
  else some (.normal part)

/-- A dot is a component only at the start of a relative path. -/
def components (path : List Char) : List Component :=
  let parts := splitAll '/' path
  let front :=
    if isAbsolute path then [.rootDir]
    else if parts.head? = some ['.'] then [.curDir]
    else []
  front ++ parts.filterMap componentOf

/-- What a path names once its dots and its repeated and trailing slashes are taken out. -/
def normalised (path : List Char) : List (List Char) :=
  (splitAll '/' path).filter fun part => part ≠ [] ∧ part ≠ ['.']

def isInside (path : List Char) : Bool :=
  !isAbsolute path && (components path).all fun
    | .normal _ | .curDir => true
    | _ => false

theorem isInside_iff {path : List Char} :
    isInside path = true ↔ isAbsolute path = false ∧ ['.', '.'] ∉ splitAll '/' path := by
  rw [isInside, Bool.and_eq_true, Bool.not_eq_true', List.all_eq_true]
  constructor
  · rintro ⟨relative, inside⟩
    refine ⟨relative, fun member => ?_⟩
    have parent : Component.parentDir ∈ components path := by
      rw [components]
      exact List.mem_append_right _ (List.mem_filterMap.mpr ⟨_, member, by decide⟩)
    exact Bool.false_ne_true (inside _ parent)
  · rintro ⟨relative, inside⟩
    refine ⟨relative, fun c member => ?_⟩
    simp only [components, relative, Bool.false_eq_true, if_false] at member
    rcases List.mem_append.mp member with front | later
    · split at front
      · obtain rfl := List.mem_singleton.mp front
        rfl
      · exact absurd front List.not_mem_nil
    · obtain ⟨part, among, made⟩ := List.mem_filterMap.mp later
      unfold componentOf at made
      split at made
      · cases made
      · split at made
        · rename_i up
          exact absurd (up ▸ among) inside
        · cases made
          rfl

section Parents

/-- A path without the separators and dots at its end. -/
def trimBody (body : List Char) : List Char :=
  match _cut : cutAtLast '/' body with
  | none => if componentOf body = none then [] else body
  | some (before, part) => if componentOf part = none then trimBody before else body
termination_by body.length
decreasing_by
  rw [(cutAtLast_eq_some.mp _cut).1]
  simp only [List.length_append, List.length_cons]
  omega

/-- The last component of a path and what stands before it. -/
def nextBack (body : List Char) : Option (Component × List Char) :=
  match cutAtLast '/' (trimBody body) with
  | none => (componentOf (trimBody body)).map fun c => (c, [])
  | some (before, part) => (componentOf part).map fun c => (c, before)

/-- How long the root is, or the dot at the start of a relative path. -/
def frontLength (path : List Char) : Nat :=
  if isAbsolute path ∨ path = ['.'] ∨ ['.', '/'] <+: path then 1 else 0

def parent (path : List Char) : Option (List Char) :=
  let front := path.take (frontLength path)
  match nextBack (path.drop (frontLength path)) with
  | some (_, before) => some (front ++ trimBody before)
  | none => if front = ['.'] then some [] else none

def fileName (path : List Char) : Option (List Char) :=
  match nextBack (path.drop (frontLength path)) with
  | some (.normal name, _) => some name
  | _ => none

def join (base path : List Char) : List Char :=
  if isAbsolute path then path
  else if base = [] ∨ base.getLast? = some '/' then base ++ path
  else base ++ '/' :: path

variable {folder name : List Char}

theorem trimBody_append (named : componentOf name ≠ none) (single : '/' ∉ name) :
    trimBody (folder ++ '/' :: name) = folder ++ '/' :: name := by
  have last : cutAtLast '/' (folder ++ '/' :: name) = some (folder, name) := cutAtLast_eq_some.mpr ⟨rfl, single⟩
  rw [trimBody]
  split
  · rename_i cut
    rw [last] at cut
    cases cut
  · rename_i cut
    rw [last] at cut
    cases cut
    exact if_neg named

theorem trimBody_of_parts (named : ∀ part ∈ splitAll '/' folder, componentOf part ≠ none) : trimBody folder = folder := by
  cases cut : cutAtLast '/' folder with
  | none =>
    have absent := cutAtLast_eq_none.mp cut
    rw [splitAll_of_not_mem absent] at named
    rw [trimBody]
    split
    · exact if_neg (named folder List.mem_cons_self)
    · rename_i found
      rw [cut] at found
      cases found
  | some parts =>
    obtain ⟨rfl, single⟩ := cutAtLast_eq_some.mp cut
    refine trimBody_append (named _ ?_) single
    rw [splitAll_append, splitAll_of_not_mem single]
    simp

/-- A folder of components and a name below it are taken apart. -/
theorem parent_append (relative : frontLength (folder ++ '/' :: name) = 0) (single : '/' ∉ name)
    (named : componentOf name = some (.normal name)) (parts : ∀ part ∈ splitAll '/' folder, componentOf part ≠ none) :
    parent (folder ++ '/' :: name) = some folder ∧ fileName (folder ++ '/' :: name) = some name := by
  have back : nextBack (folder ++ '/' :: name) = some (.normal name, folder) := by
    rw [nextBack, trimBody_append (by simp [named]) single, show cutAtLast '/' (folder ++ '/' :: name) = some (folder, name) from
      cutAtLast_eq_some.mpr ⟨rfl, single⟩]
    simp [named]
  constructor
  · simp [parent, relative, back, trimBody_of_parts parts]
  · simp [fileName, relative, back]

end Parents

end NixHomeServer.Library
