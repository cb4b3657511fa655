import NixHomeServer.Library.BinarySearch
import Mathlib.Data.String.Basic
import Mathlib.Data.List.Sort

/-! Folder manifests of the sync server and the diff against a device list.
The server folder is the list of its regular files. File names are what the
operating system gives, and a listing shows them with every invalid run replaced
by one replacement character. The digest is a parameter. -/
namespace NixHomeServer.Filesync

open NixHomeServer.Library

abbrev Path := String
abbrev Bytes := List UInt8

section Folder

/-- A character of a name, or a run of bytes that encodes none. -/
inductive NamePart
  | char (c : Char)
  | invalid (bytes : Bytes)
  deriving DecidableEq

abbrev OsName := List NamePart

def NamePart.lossy : NamePart → Char
  | .char c => c
  | .invalid _ => Char.ofNat 0xFFFD

def toStringLossy (name : OsName) : Path := String.ofList (name.map NamePart.lossy)

def osName (path : Path) : OsName := path.toList.map .char

structure ServerFile where
  name : OsName
  size : Nat
  mtimeUnixMs : Nat
  content : Bytes
  readable : Bool := true

def ServerFile.path (f : ServerFile) : Path := toStringLossy f.name

abbrev Folder := List ServerFile

inductive ReadResult
  | bytes (content : Bytes)
  | notFound
  | failed
  deriving DecidableEq

/-- Opening and reading by a listed path, which need not be the name of the file it lists. -/
def openAndRead (folder : Folder) (path : Path) : ReadResult :=
  match folder.find? (fun f => decide (f.name = osName path)) with
  | none => .notFound
  | some f => if f.readable then .bytes f.content else .failed

end Folder

structure ManifestEntry where
  path : Path
  size : Nat
  mtimeUnixMs : Nat
  hash : Option String := none

structure Manifest where
  entries : List ManifestEntry
  totalBytes : Nat := 0
  hashed : Nat := 0
  reused : Nat := 0

/-- What the caller sent about one file of the device. -/
structure LocalFile where
  path : Path
  size : Nat
  mtimeUnixMs : Nat
  hash : Option String := none

/-- The reply carries no paths of pending files; `pending` names them for the statements. -/
structure DiffResult where
  pendingBytes : Nat := 0
  pendingCount : Nat := 0
  skipped : Nat := 0
  needsHash : List Path := []
  unreadable : List Path := []
  pending : List Path := []

inductive Direction
  | phoneToServer | serverToPhone
  deriving DecidableEq, Repr

inductive Outcome
  | same | different | needHash | unreadable
  deriving DecidableEq, Repr

inductive ReadError
  | readFailed
  deriving DecidableEq, Repr

def u64Max : Nat := 2 ^ 64 - 1

def saturatingAdd (a b : Nat) : Nat := min (a + b) u64Max

section Scanning

def ServerFile.entry (f : ServerFile) : ManifestEntry where
  path := f.path
  size := f.size
  mtimeUnixMs := f.mtimeUnixMs

/-- A walk within its bounds. -/
def scan (folder : Folder) : Manifest where
  entries := (folder.map ServerFile.entry).insertionSort (fun a b => a.path ≤ b.path)
  totalBytes := folder.foldl (fun total f => saturatingAdd total f.size) 0

/-- The linear merge of two sorted listings; the count is of the hashes carried over. -/
def reuseLoop : List ManifestEntry → List ManifestEntry → List ManifestEntry × Nat
  | [], _ => ([], 0)
  | entry :: rest, previous =>
    match previous.dropWhile (fun candidate => decide (candidate.path < entry.path)) with
    | [] => (entry :: rest, 0)
    | candidate :: later =>
      if candidate.path ≠ entry.path then
        let r := reuseLoop rest (candidate :: later)
        (entry :: r.1, r.2)
      else
        let r := reuseLoop rest later
        if candidate.size ≠ entry.size ∨ candidate.mtimeUnixMs ≠ entry.mtimeUnixMs then
          (entry :: r.1, r.2)
        else
          match candidate.hash with
          | some hash => ({ entry with hash := some hash } :: r.1, r.2 + 1)
          | none => (entry :: r.1, r.2)

def reuseHashes (m : Manifest) (previous : Option Manifest) : Manifest :=
  match previous with
  | none => m
  | some previous =>
    let r := reuseLoop m.entries previous.entries
    { m with entries := r.1, reused := m.reused + r.2 }

def manifestFor (folder : Folder) (cached : Option Manifest) : Manifest :=
  reuseHashes (scan folder) cached

end Scanning

section Diff

variable (sha256 : Bytes → String) (folder : Folder)

def Manifest.find (m : Manifest) (path : Path) : Option ManifestEntry :=
  (BinarySearch.position ManifestEntry.path m.entries path).bind (fun index => m.entries[index]?)

def Manifest.get (m : Manifest) (path : Path) : Option (Nat × Nat) :=
  (m.find path).map (fun entry => (entry.size, entry.mtimeUnixMs))

/-- Hash the entry at `index` and cache the result on it. -/
def hashEntryAt (m : Manifest) (index : Nat) : Except ReadError (Option String × Manifest) :=
  match m.entries[index]? with
  | none => .ok (none, m)
  | some entry =>
    match entry.hash with
    | some existing => .ok (some existing, m)
    | none =>
      match openAndRead folder entry.path with
      | .notFound => .ok (none, m)
      | .failed => .error .readFailed
      | .bytes content =>
        let hash := sha256 content
        .ok (some hash, { m with
          entries := m.entries.set index { entry with hash := some hash }
          hashed := m.hashed + 1 })

def hashEntry (m : Manifest) (path : Path) : Except ReadError (Option String × Manifest) :=
  match BinarySearch.position ManifestEntry.path m.entries path with
  | some index => hashEntryAt sha256 folder m index
  | none => .ok (none, m)

def DiffResult.countPending (r : DiffResult) (path : Path) (size : Nat) : DiffResult :=
  { r with
    pendingBytes := saturatingAdd r.pendingBytes size
    pendingCount := r.pendingCount + 1
    pending := r.pending ++ [path] }

def DiffResult.skip (r : DiffResult) : DiffResult := { r with skipped := r.skipped + 1 }

def DiffResult.waitFor (r : DiffResult) (path : Path) : DiffResult :=
  { r with needsHash := r.needsHash ++ [path] }

def DiffResult.giveUp (r : DiffResult) (path : Path) : DiffResult :=
  { r with unreadable := r.unreadable ++ [path] }

def compare (m : Manifest) (remotePath : Path) (remoteSize remoteMtime : Nat) (l : LocalFile)
    (r : DiffResult) : Except ReadError (Outcome × Manifest × DiffResult) :=
  if remoteSize = l.size ∧ remoteMtime = l.mtimeUnixMs then .ok (.same, m, r)
  else
    match l.hash with
    | none => .ok (.needHash, m, r.waitFor l.path)
    | some localHash =>
      match hashEntry sha256 folder m remotePath with
      | .error e => .error e
      | .ok (some remoteHash, m) =>
        .ok (if remoteHash = localHash then .same else .different, m, r)
      | .ok (none, m) => .ok (.unreadable, m, r)

/-- The upload loop: driven by what the device holds. -/
def uploadLoop : List LocalFile → Manifest → DiffResult → Except ReadError (Manifest × DiffResult)
  | [], m, r => .ok (m, r)
  | l :: rest, m, r =>
    match m.get l.path with
    | none => uploadLoop rest m (r.countPending l.path l.size)
    | some (remoteSize, remoteMtime) =>
      match compare sha256 folder m l.path remoteSize remoteMtime l r with
      | .error e => .error e
      | .ok (.same, m, r) => uploadLoop rest m r.skip
      | .ok (.different, m, r) => uploadLoop rest m (r.countPending l.path l.size)
      | .ok (.unreadable, m, r) => uploadLoop rest m (r.giveUp l.path)
      | .ok (.needHash, m, r) => uploadLoop rest m r

/-- A map collected from a list: the last row of a key stays. -/
def collected {ρ : Type} (key : ρ → Path) (rows : List ρ) (path : Path) : Option ρ :=
  rows.reverse.find? (fun row => decide (key row = path))

/-- The download loop: driven by the positions of the manifest that remain from `index` on. -/
def downloadLoop (byPath : Path → Option LocalFile) :
    Nat → Nat → Manifest → DiffResult → Except ReadError (Manifest × DiffResult)
  | 0, _, m, r => .ok (m, r)
  | remaining + 1, index, m, r =>
    match m.entries[index]? with
    | none => .ok (m, r)
    | some entry =>
      match byPath entry.path with
      | none => downloadLoop byPath remaining (index + 1) m (r.countPending entry.path entry.size)
      | some l =>
        if entry.size = l.size ∧ entry.mtimeUnixMs = l.mtimeUnixMs then
          downloadLoop byPath remaining (index + 1) m r.skip
        else
          match l.hash with
          | none => downloadLoop byPath remaining (index + 1) m (r.waitFor l.path)
          | some localHash =>
            match hashEntryAt sha256 folder m index with
            | .error e => .error e
            | .ok (some remoteHash, m) =>
              downloadLoop byPath remaining (index + 1) m
                (if remoteHash = localHash then r.skip else r.countPending entry.path entry.size)
            | .ok (none, m) => downloadLoop byPath remaining (index + 1) m (r.giveUp l.path)

def diff (m : Manifest) (local_ : List LocalFile) (direction : Direction) :
    Except ReadError (Manifest × DiffResult) :=
  match direction with
  | .phoneToServer => uploadLoop sha256 folder local_ m {}
  | .serverToPhone =>
    downloadLoop sha256 folder (collected LocalFile.path local_) m.entries.length 0 m {}

end Diff

end NixHomeServer.Filesync
