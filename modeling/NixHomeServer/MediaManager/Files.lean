import NixHomeServer.Library.Interaction

/-! The file system as the mutation broker sees it: one action's library root and
the staging directory, the calls on them, and the helpers the broker makes of
these calls. -/
namespace NixHomeServer.MediaManager

open NixHomeServer.Library

abbrev Bytes := List UInt8

inductive Root
  | library | staging
  deriving DecidableEq, Repr

/-- A path below a root. Directories are never removed, so it stands for an open descriptor too. -/
structure Place where
  root : Root
  path : List String
  deriving DecidableEq, Repr

def Place.child (dir : Place) (leaf : String) : Place := { dir with path := dir.path ++ [leaf] }

/-- Modification times are in nanoseconds since the epoch. -/
structure File where
  content : Bytes
  modified : Int
  deriving DecidableEq, Repr

inductive Node
  | directory
  | file (f : File)
  | other
  deriving DecidableEq, Repr

/-- The files, and the temporary file that the broker created last and still has. -/
structure World where
  nodes : Place → Option Node
  scratch : Option Place := none

inductive Errno
  | noEntry | exists_ | badDescriptor | invalid
  | other (text : String)
  deriving DecidableEq, Repr

def Errno.text : Errno → String
  | .noEntry => "No such file or directory (os error 2)"
  | .exists_ => "File exists (os error 17)"
  | .badDescriptor => "Bad file descriptor (os error 9)"
  | .invalid => "Invalid argument (os error 22)"
  | .other text => text

inductive Op
  | openRoot (root : Root)
  | openDirectory (dir : Place)
  | makeDirectory (dir : Place)
  | stat (place : Place)
  | openFile (place : Place)
  | read (place : Place)
  | createExclusive (place : Place)
  | append (place : Place) (block : Bytes)
  | setTimes (place : Place) (modified : Int)
  | syncFile (place : Place)
  | syncDirectory (dir : Place)
  | rename (place target : Place)
  | unlink (place : Place)

def Answer : Op → Type
  | .stat _ => Node
  | .read _ => Bytes
  | _ => Unit

abbrev Reply (op : Op) : Type := Except Errno (Answer op)

/-- The time of a call, and whether it fails; a failing write may leave a part of its block. -/
structure Choice where
  now : Int := 0
  fault : Option (String × Nat) := none

namespace World

def set (w : World) (place : Place) (node : Option Node) : World :=
  { w with nodes := fun p => if p = place then node else w.nodes p }

/-- The broker no longer has its temporary file at this place. -/
def release (w : World) (place : Place) : World :=
  { w with scratch := if w.scratch = some place then none else w.scratch }

def rename (w : World) (place target : Place) : World :=
  ((w.set place none).set target (w.nodes place)).release place

def unlink (w : World) (place : Place) : World := (w.set place none).release place

/-- Another process creates something at a free path. -/
def create (made : Place × Node) (w : World) : World :=
  match w.nodes made.1 with
  | none => w.set made.1 (some made.2)
  | some _ => w

end World

def torn (w : World) (now : Int) (place : Place) (block : Bytes) : World :=
  match w.nodes place with
  | some (.file f) => w.set place (some (.file ⟨f.content ++ block, now⟩))
  | _ => w

/-- A call that does not fail. Nothing is opened for syncing, so directories cannot be synced. -/
def answer (now : Int) (w : World) : (op : Op) → World × Reply op
  | .openRoot root =>
    match w.nodes ⟨root, []⟩ with
    | some .directory => (w, .ok ())
    | none => (w, .error .noEntry)
    | some _ => (w, .error (.other "Not a directory (os error 20)"))
  | .openDirectory dir =>
    match w.nodes dir with
    | some .directory => (w, .ok ())
    | none => (w, .error .noEntry)
    | some _ => (w, .error (.other "Not a directory (os error 20)"))
  | .makeDirectory dir =>
    match w.nodes dir with
    | none => (w.set dir (some .directory), .ok ())
    | some _ => (w, .error .exists_)
  | .stat place =>
    match w.nodes place with
    | some node => (w, .ok node)
    | none => (w, .error .noEntry)
  | .openFile place =>
    match w.nodes place with
    | some .other => (w, .error (.other "Too many levels of symbolic links (os error 40)"))
    | some _ => (w, .ok ())
    | none => (w, .error .noEntry)
  | .read place =>
    match w.nodes place with
    | some (.file f) => (w, .ok f.content)
    | _ => (w, .error (.other "Is a directory (os error 21)"))
  | .createExclusive place =>
    match w.nodes place with
    | none => ({ w.set place (some (.file ⟨[], now⟩)) with scratch := some place }, .ok ())
    | some _ => (w, .error .exists_)
  | .append place block => (torn w now place block, .ok ())
  | .setTimes place modified =>
    match w.nodes place with
    | some (.file f) => (w.set place (some (.file { f with modified := modified })), .ok ())
    | _ => (w, .ok ())
  | .syncFile _ => (w, .ok ())
  | .syncDirectory _ => (w, .error .badDescriptor)
  | .rename place target =>
    match w.nodes place, w.nodes target with
    | none, _ => (w, .error .noEntry)
    | some _, some _ => (w, .error .exists_)
    | some _, none => (w.rename place target, .ok ())
  | .unlink place =>
    match w.nodes place with
    | none => (w, .error .noEntry)
    | some .directory => (w, .error (.other "Is a directory (os error 21)"))
    | some _ => (w.unlink place, .ok ())

def perform (c : Choice) (w : World) (op : Op) : World × Reply op :=
  match c.fault with
  | none => answer c.now w op
  | some (text, written) =>
    match op with
    | .append place block => (torn w c.now place (block.take written), .error (.other text))
    | _ => (w, .error (.other text))

structure BrokerError where
  message : String
  deriving DecidableEq, Repr

abbrev Broker (α : Type) := ExceptT BrokerError (Prog Op Reply) α

def call (op : Op) : Broker (Reply op) := ExceptT.lift (Prog.ask op)

def fail {α : Type} (message : String) : Broker α := throw ⟨message⟩

/-- The result of a part whose error does not end the whole. -/
def attempt {α : Type} (part : Broker α) : Broker (Except BrokerError α) := ExceptT.lift part.run

def ofOk {α : Type} : Except BrokerError α → Broker α
  | .ok a => pure a
  | .error e => throw e

section Paths

def safeComponent (component : String) : Bool :=
  !component.isEmpty && component != "." && component != ".." && component.utf8ByteSize ≤ 255 &&
    !(component.toList.any (fun c => c = '/' || c = '\\' || c.toNat = 0))

def safeParentAndLeaf (path : String) : Except BrokerError (List String × String) :=
  if path.isEmpty || 4096 < path.utf8ByteSize || path.toList.head? = some '/' ||
      path.toList.any (fun c => c.toNat = 0) then
    .error ⟨"operation path is not a safe relative path"⟩
  else
    let components := (path.toList.splitOn '/').map String.ofList
    if components.any (fun component => !safeComponent component) then
      .error ⟨"operation path contains an unsafe component"⟩
    else
      match components.getLast? with
      | none => .error ⟨"operation path has no leaf component"⟩
      | some leaf => .ok (components.dropLast, leaf)

end Paths

section Calls

def openRoot (root : Root) : Broker Place := do
  match ← call (.openRoot root) with
  | .ok _ => pure ⟨root, []⟩
  | .error e => fail ("open registered root: " ++ e.text)

def openDirectoryChain (create : Bool) : List String → Place → Broker Place
  | [], current => pure current
  | component :: rest, current => do
    match ← call (.openDirectory (current.child component)) with
    | .ok _ => openDirectoryChain create rest (current.child component)
    | .error .noEntry =>
      if create then
        match ← call (.makeDirectory (current.child component)) with
        | .ok _ | .error .exists_ =>
          match ← call (.openDirectory (current.child component)) with
          | .ok _ => openDirectoryChain create rest (current.child component)
          | .error e => fail ("open created destination directory: " ++ e.text)
        | .error e => fail ("create destination directory: " ++ e.text)
      else fail ("open contained directory component: " ++ Errno.noEntry.text)
    | .error e => fail ("open contained directory component: " ++ e.text)

def fingerprintFromStat (f : File) : String :=
  toString f.content.length ++ ":" ++ toString (max f.modified 0)

def fingerprintOptionalAt (place : Place) : Broker (Option String) := do
  match ← call (.stat place) with
  | .ok (.file f) => pure (some (fingerprintFromStat f))
  | .ok _ => fail "artwork path must be a regular non-symlink file"
  | .error .noEntry => pure none
  | .error e => fail ("inspect artwork leaf: " ++ e.text)

def fileStat (place : Place) : Broker File := do
  match ← call (.stat place) with
  | .ok (.file f) => pure f
  | .ok _ => fail "opened file is not a regular file"
  | .error e => fail ("inspect opened file: " ++ e.text)

def openRegularAt (place : Place) : Broker Unit := do
  match ← call (.openFile place) with
  | .ok _ => let _ ← fileStat place
  | .error e => fail ("open contained regular file: " ++ e.text)

def temporaryName (pid sequence : Nat) : String :=
  ".media-manager-" ++ toString pid ++ "-" ++ toString sequence ++ ".partial"

/-- The next names of the process in turn, as many as are left to try. -/
def createTemporaryFile (dir : Place) (pid : Nat) : Nat → Nat → Broker Place
  | 0, _ => fail "could not allocate a unique temporary subtitle name"
  | tries + 1, sequence => do
    match ← call (.createExclusive (dir.child (temporaryName pid sequence))) with
    | .ok _ => pure (dir.child (temporaryName pid sequence))
    | .error .exists_ => createTemporaryFile dir pid tries (sequence + 1)
    | .error e => fail ("create temporary subtitle: " ++ e.text)

def unlinkRegularAt (place : Place) : Broker Unit := do
  openRegularAt place
  let _ ← fileStat place
  match ← call (.unlink place) with
  | .ok _ => pure ()
  | .error e => fail ("remove staged subtitle: " ++ e.text)

def unlinkAtIfPresent (place : Place) : Broker Unit := do
  let _ ← call (.unlink place)

def syncDirectory (dir : Place) : Broker Unit := do
  match ← call (.syncDirectory dir) with
  | .ok _ | .error .badDescriptor | .error .invalid => pure ()
  | .error e => fail ("sync destination directory: " ++ e.text)

def renameNoreplace (place target : Place) (operation : String) : Broker Unit := do
  match ← call (.rename place target) with
  | .ok _ => pure ()
  | .error .exists_ => fail (operation ++ ": destination already exists; no file was overwritten")
  | .error e => fail (operation ++ ": " ++ e.text)

/-- How a copy cuts a file into the blocks it writes. -/
structure Blocks where
  cut : Bytes → List Bytes
  whole : ∀ content, (cut content).flatten = content

def appendAll (place : Place) : List Bytes → Broker Unit
  | [] => pure ()
  | block :: rest => do
    match ← call (.append place block) with
    | .ok _ => appendAll place rest
    | .error e => fail ("copy staged artwork: " ++ e.text)

end Calls

end NixHomeServer.MediaManager
