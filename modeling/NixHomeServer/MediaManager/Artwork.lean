import Mathlib.Algebra.Group.Nat.Defs
import Mathlib.Data.Char
import Mathlib.Data.List.Lex
import Mathlib.Data.Prod.Lex
import NixHomeServer.Library.Patterns
import NixHomeServer.Library.Ranking

/-! Artwork for an item of the catalogue: the ranking of names, and the walk up the directories. -/
namespace NixHomeServer.MediaManager.Artwork

open NixHomeServer.Library

abbrev Path := List Char

inductive MediaKind
  | video
  | music
  | audiobook
  | podcast
  | book
  | artwork
  | subtitle
  | iso
  deriving DecidableEq, Repr

/-- A row of the catalogue. Paths are relative to the root. -/
structure CatalogItem where
  id : String
  rootId : String
  ownerUsername : Option String
  relativePath : Path
  mediaKind : MediaKind
  sizeBytes : Int
  modifiedNs : Int
  fingerprint : String
  relative : relativePath.head? ≠ some '/'
  deriving DecidableEq

def lower (text : List Char) : List Char := text.map Char.toLower

def parentOf (path : Path) : Path := ((cutAtLast '/' path).map (·.1)).getD []

def nameOf (path : Path) : List Char := ((cutAtLast '/' path).map (·.2)).getD path

def artworkTargetStem (targetPath : Path) : List Char :=
  lower (((cutAtLast '.' (nameOf targetPath)).map (·.1)).getD (nameOf targetPath))

theorem length_cutAtLast {path parent name : Path} (cut : cutAtLast '/' path = some (parent, name)) :
    parent.length < path.length := by
  obtain ⟨rfl, -⟩ := cutAtLast_eq_some.mp cut
  rw [List.length_append, List.length_cons]
  omega

def ancestorsOf (ancestor : Path) : List Path :=
  match _cut : cutAtLast '/' ancestor with
  | none => []
  | some (parent, _) => if parent = ancestor then [] else parent :: ancestorsOf parent
termination_by ancestor.length
decreasing_by exact length_cutAtLast ‹_›

/-- The nearest first. -/
def artworkAncestorChain (targetPath : Path) : List Path := parentOf targetPath :: ancestorsOf (parentOf targetPath)

def suffixes : List (List Char) :=
  ["", "-poster", "-cover", "-folder", "-default", "-movie", "-show", "-jacket", "-front", "-thumb", "-landscape",
    "-banner", "-fanart", "-backdrop", "-background", "-art", "-clearlogo", "-logo"].map String.toList

def generic : List (List Char) :=
  ["cover", "folder", "poster", "default", "movie", "show", "jacket", "artwork", "front", "thumb", "landscape",
    "banner", "fanart", "backdrop", "background", "art", "clearlogo", "logo"].map String.toList

def usizeMax : Nat := 2 ^ 64 - 1

/-- A name without a dot has no stem. -/
def stemOf (name : List Char) : List Char := lower (((cutAtLast '.' name).map (·.1)).getD [])

def artworkNamePriority (candidatePath : Path) (targetStem : List Char) : Nat :=
  let stem := stemOf (nameOf candidatePath)
  let folderStem := lower (nameOf (parentOf candidatePath))
  let targetPriority := (suffixes.findIdx? fun suffix => stem = targetStem ++ suffix).or
    ((suffixes.findIdx? fun suffix => stem = folderStem ++ suffix).map (50 + ·))
  let genericPriority := generic.findIdx? fun preferred => preferred = stem
  (targetPriority.or (genericPriority.map (100 + ·))).getD usizeMax

def artworkNameMatched (candidatePath : Path) (targetStem : List Char) : Bool :=
  artworkNamePriority candidatePath targetStem ≠ usizeMax

def isSupplementalArtwork (path : Path) : Bool :=
  let stem := stemOf (nameOf path)
  ["fanart", "backdrop", "background", "logo", "clearlogo"].any fun role =>
    stem = role.toList || ('-' :: role.toList).isSuffixOf stem

/-- Candidates of the chain with their distance. -/
def candidates (items : List CatalogItem) (targetPath : Path) : List (CatalogItem × Nat) :=
  items.filterMap fun candidate =>
    if candidate.mediaKind ≠ .artwork ∨ isSupplementalArtwork candidate.relativePath = true then none
    else ((artworkAncestorChain targetPath).findIdx? (· = parentOf candidate.relativePath)).map fun distance =>
      (candidate, distance)

abbrev Rank := Nat ×ₗ Nat ×ₗ Nat ×ₗ List Char

def rank (targetStem : List Char) (candidate : CatalogItem × Nat) : Rank :=
  let priority := artworkNamePriority candidate.1.relativePath targetStem
  toLex ((if priority = usizeMax then 1 else 0),
    toLex (candidate.2, toLex (priority, candidate.1.relativePath)))

def preferredArtwork (items : List CatalogItem) (targetPath : Path) : Option CatalogItem :=
  ((candidates items targetPath).argmin (rank (artworkTargetStem targetPath))).map (·.1)

/-- The rows of a root, and of an owner where one is named. -/
def artworkRows (catalog : List CatalogItem) (rootId : String) (owner : Option String) : List CatalogItem :=
  catalog.filter fun row => row.rootId = rootId ∧ row.mediaKind = .artwork ∧
    (owner = none ∨ row.ownerUsername = owner)

/-- The condition on the path: in range, and no further separator. The root directory has no upper bound. -/
def inDirectory (directory path : Path) : Bool :=
  if directory = [] then '/' ∉ path
  else directory ++ ['/'] ≤ path && path < directory ++ ['0'] && '/' ∉ path.drop (directory ++ ['/']).length

def artworkInDirectory (catalog : List CatalogItem) (rootId : String) (owner : Option String) (directory : Path) :
    List CatalogItem :=
  ((artworkRows catalog rootId owner).filter fun row => inDirectory directory row.relativePath).mergeSort
    fun a b => a.relativePath ≤ b.relativePath

/-- `level` gives the rows of a directory. -/
def resolveFrom (level : Path → List CatalogItem) (targetStem : List Char) :
    List Path → Option (List CatalogItem) → List CatalogItem
  | [], fallback => fallback.getD []
  | directory :: rest, fallback =>
    let rows := level directory
    if rows = [] then resolveFrom level targetStem rest fallback
    else if rows.any fun row => artworkNameMatched row.relativePath targetStem then rows
    else resolveFrom level targetStem rest (fallback.or (some rows))

def resolveArtworkCandidates (catalog : List CatalogItem) (rootId : String) (owner : Option String) (targetPath : Path) :
    List CatalogItem :=
  resolveFrom (artworkInDirectory catalog rootId owner) (artworkTargetStem targetPath) (artworkAncestorChain targetPath)
    none

end NixHomeServer.MediaManager.Artwork
