import NixHomeServer.Browsertrix.Jobs

/-! The file-system half of a publication: an exclusive staging copy of the source
and an exclusive rename onto the destination, step by step. -/
namespace NixHomeServer.Browsertrix

/-- `archive_root` and `private_archive_root`. -/
inductive Root
  | shared | owned
  deriving DecidableEq, Repr

def root (archive : Archive) : Root :=
  if archive.visibility = "private" then .owned else .shared

/-- The names under a root: a published payload `{name} {id}.wacz`, `.{id}.pending` and
`.{id}.incomplete-{random}`. -/
inductive FileName
  | payload (archive : Nat) (name : String)
  | staging (archive : Nat)
  | retained (archive random : Nat)
  deriving DecidableEq, Repr

abbrev Content := List UInt8

structure Store where
  files : Root → FileName → Option Content := fun _ _ => none
  sources : String → Option Content := fun _ => none

namespace Store

def put (store : Store) (at_root : Root) (name : FileName) (content : Option Content) : Store :=
  { store with files := fun r n => if r = at_root ∧ n = name then content else store.files r n }

/-- `renameat2` with `RENAME_NOREPLACE`. -/
def renameExclusive (store : Store) (at_root : Root) (source target : FileName) : Option Store :=
  match store.files at_root source, store.files at_root target with
  | some content, none => some ((store.put at_root target (some content)).put at_root source none)
  | _, _ => none

end Store

/-- One relative component. -/
def validDestination (name : String) : Bool := !name.toList.contains '/'

/-- The next file-system step of a publication. -/
inductive Placing
  | destination | conflict | staging | incomplete | retain | again | source | create | copy | check
  | permissions | rename
  deriving DecidableEq, Repr

section Place

variable (sha256 : Content → String)

/-- A step's outcome: the next step, the destination in place, or an error. -/
inductive Placed
  | next (step : Placing)
  | done
  | failed
  deriving DecidableEq, Repr

/-- One step of a publication between its admission and its catalogue transaction. `random`
numbers a retained copy; `torn` is what a source that changes meanwhile was copied as. -/
def place (store : Store) (id : Nat) (archive : Archive) (source : String)
    (random : Nat) (torn : Option Content) : Placing → Store × Placed
  | .destination =>
    if validDestination archive.archiveFile = true then
      match store.files (root archive) (.payload id archive.archiveFile) with
      | some _ => (store, .next .conflict)
      | none => (store, .next .staging)
    else (store, .failed)
  | .conflict =>
    match store.files (root archive) (.payload id archive.archiveFile) with
    | some content => (store, if sha256 content = archive.sha256 then .done else .failed)
    | none => (store, .failed)
  | .staging =>
    match store.files (root archive) (.staging id) with
    | some _ => (store, .next .incomplete)
    | none => (store, .next .again)
  | .incomplete =>
    match store.files (root archive) (.staging id) with
    | some content => (store, .next (if sha256 content = archive.sha256 then .again else .retain))
    | none => (store, .failed)
  | .retain =>
    match store.renameExclusive (root archive) (.staging id) (.retained id random) with
    | some moved => (moved, .next .again)
    | none => (store, .failed)
  | .again =>
    match store.files (root archive) (.staging id) with
    | some _ => (store, .next .permissions)
    | none => (store, .next .source)
  | .source =>
    match store.sources source with
    | some _ => (store, .next .create)
    | none => (store, .failed)
  | .create =>
    match store.files (root archive) (.staging id) with
    | some _ => (store, .failed)
    | none => (store.put (root archive) (.staging id) (some []), .next .copy)
  | .copy =>
    match store.sources source with
    | some content => (store.put (root archive) (.staging id) (some (torn.getD content)), .next .check)
    | none => (store, .failed)
  | .check =>
    match store.files (root archive) (.staging id) with
    | some content => (store, if sha256 content = archive.sha256 then .next .permissions else .failed)
    | none => (store, .failed)
  | .permissions => (store, .next .rename)
  | .rename =>
    match store.renameExclusive (root archive) (.staging id) (.payload id archive.archiveFile) with
    | some moved => (moved, .done)
    | none => (store, .failed)

/-- What a step that is cut short has written. -/
def spill (store : Store) (id : Nat) (archive : Archive) (torn : Option Content) : Placing → Store
  | .copy => store.put (root archive) (.staging id) (some (torn.getD []))
  | _ => store

end Place

end NixHomeServer.Browsertrix
