import NixHomeServer.MediaManager.Files

/-! Replacing a media file: the original moves to the archive path and a copy of the
staged file takes the replacement path. -/
namespace NixHomeServer.MediaManager

open NixHomeServer.Library

inductive LibraryCategory
  | videos | music | audiobooks | podcasts | books
  deriving DecidableEq, Repr

def LibraryCategory.all : List LibraryCategory := [.videos, .music, .audiobooks, .podcasts, .books]

/-- Which owners are safe identities, and the category of a root that an owner sees. -/
structure Config where
  validIdentity : String → Bool
  resolveVisibleRoot : String → String → Option LibraryCategory

structure ReplaceArtworkAction where
  stagingFilename : String
  rootId : String
  sourceRelativePath : String
  archivedRelativePath : String
  replacementRelativePath : String
  expectedSource : String
  expectedReplacement : String
  deriving DecidableEq, Repr

inductive ReplaceKind
  | metadataSidecar | embeddedMetadata | artwork
  deriving DecidableEq, Repr

section Validation

def require (condition : Bool) (message : String) : Except BrokerError Unit :=
  if condition then .ok () else .error ⟨message⟩

def resolveRoot (config : Config) (username rootId missing : String) :
    Except BrokerError LibraryCategory := do
  require (config.validIdentity username) "plan owner is not a safe identity component"
  match config.resolveVisibleRoot username rootId with
  | some category => pure category
  | none => .error ⟨missing⟩

/-- What follows the last dot of a file name. -/
def extension (leaf : String) : Option String :=
  if leaf.toList.contains '.' then
    some (String.ofList (leaf.toList.reverse.takeWhile (fun c => c ≠ '.')).reverse)
  else none

def hasSuffix (leaf suffix_ : String) : Bool := suffix_.toList.isSuffixOf (leaf.toList.map Char.toLower)

def imageExtensions : List String := [".jpg", ".jpeg", ".png", ".gif", ".webp"]

/-- Metadata keeps its path and its extension. -/
def validateReplaceMetadata (categories : List LibraryCategory) (extensions : List String)
    (unsupported misplaced moved mismatch : String) (config : Config) (username : String)
    (a : ReplaceArtworkAction) : Except BrokerError Unit := do
  require (safeComponent a.stagingFilename) "staging filename is not a safe component"
  let category ← resolveRoot config username a.rootId "metadata root ID is not registered"
  require (categories.contains category) unsupported
  let source ← safeParentAndLeaf a.sourceRelativePath
  let archive ← safeParentAndLeaf a.archivedRelativePath
  let replacement ← safeParentAndLeaf a.replacementRelativePath
  require (archive.1 == source.1 ++ ["superseded"] && replacement.1 == source.1) misplaced
  require (a.sourceRelativePath == a.replacementRelativePath &&
    a.sourceRelativePath != a.archivedRelativePath) moved
  require (extension source.2 == extension replacement.2 && extension source.2 == extension archive.2 &&
    extensions.any (fun e => extension source.2 == some e)) mismatch

def validateReplaceMetadataSidecarAction :
    Config → String → ReplaceArtworkAction → Except BrokerError Unit :=
  validateReplaceMetadata [.videos, .music, .audiobooks] ["nfo", "opf"]
    "metadata sidecars may only be replaced in a supported media root"
    "metadata replacement paths must remain beside the source and in its superseded child"
    "metadata replacement must keep the original sidecar path and use a distinct archive path"
    "metadata replacement paths must use the same .nfo or .opf extension"

def validateReplaceEmbeddedMetadataAction :
    Config → String → ReplaceArtworkAction → Except BrokerError Unit :=
  validateReplaceMetadata [.books] ["epub", "cbz"]
    "embedded book metadata may only be replaced in a books root"
    "embedded metadata replacement paths must remain beside the book and in its superseded child"
    "embedded metadata replacement must keep the original book path and use a distinct archive path"
    "embedded metadata replacement paths must use the same .epub or .cbz extension"

def validateReplaceArtworkAction (config : Config) (username : String) (a : ReplaceArtworkAction) :
    Except BrokerError Unit := do
  require (safeComponent a.stagingFilename) "staging filename is not a safe component"
  let category ← resolveRoot config username a.rootId "artwork root ID is not registered"
  require (LibraryCategory.all.contains category) "artwork may only be installed in a media root"
  let source ← safeParentAndLeaf a.sourceRelativePath
  let archive ← safeParentAndLeaf a.archivedRelativePath
  let replacement ← safeParentAndLeaf a.replacementRelativePath
  require (archive.1 == source.1 ++ ["superseded"] && replacement.1 == source.1)
    "artwork replacement paths must remain beside the source and in its superseded child"
  require (a.sourceRelativePath != a.archivedRelativePath &&
    a.archivedRelativePath != a.replacementRelativePath) "artwork replacement paths must be distinct"
  require (extension source.2).isSome "artwork source must have a file extension"
  require (imageExtensions.any (hasSuffix replacement.2))
    "artwork destination must use .jpg, .jpeg, .png, .gif, or .webp"

def ReplaceKind.validate : ReplaceKind → Config → String → ReplaceArtworkAction → Except BrokerError Unit
  | .metadataSidecar => validateReplaceMetadataSidecarAction
  | .embeddedMetadata => validateReplaceEmbeddedMetadataAction
  | .artwork => validateReplaceArtworkAction

end Validation

section Programs

variable (config : Config) (username : String) (a : ReplaceArtworkAction)

def stagedPlace (filename : String) : Place := ⟨.staging, [filename]⟩

def recoverReplacedFile : Broker Bool := do
  let _ ← ofOk (resolveRoot config username a.rootId "artwork root ID is not registered")
  let (archiveParent, archiveLeaf) ← ofOk (safeParentAndLeaf a.archivedRelativePath)
  let (replacementParent, replacementLeaf) ← ofOk (safeParentAndLeaf a.replacementRelativePath)
  let root ← openRoot .library
  match ← attempt (openDirectoryChain false archiveParent root) with
  | .error _ => pure false
  | .ok archiveDir =>
    let replacementDir ← openDirectoryChain false replacementParent root
    let archived ← fingerprintOptionalAt (archiveDir.child archiveLeaf)
    if archived ≠ some a.expectedSource then pure false
    else
      let replacement ← fingerprintOptionalAt (replacementDir.child replacementLeaf)
      if replacement ≠ some a.expectedReplacement then pure false
      else
        let staging ← openRoot .staging
        match ← fingerprintOptionalAt (staging.child a.stagingFilename) with
        | some fingerprint =>
          if fingerprint = a.expectedReplacement then
            unlinkRegularAt (staging.child a.stagingFilename)
            syncDirectory staging
            pure true
          else fail "completed replacement has a changed staged recovery file"
        | none => pure true

variable (blocks : Blocks) (pid sequence : Nat)

def copyStaged (staged temporary : Place) (source : File) : Broker Unit := do
  match ← call (.read staged) with
  | .error e => fail ("copy staged artwork: " ++ e.text)
  | .ok content =>
    appendAll temporary (blocks.cut content)
    match ← call (.setTimes temporary source.modified) with
    | .error e => fail ("preserve staged artwork timestamp: " ++ e.text)
    | .ok _ =>
      match ← call (.syncFile temporary) with
      | .error e => fail ("sync staged artwork copy: " ++ e.text)
      | .ok _ => pure ()

/-- A copy of the staged file under a temporary name; what cannot be finished is removed. -/
def prepareStagedCopy (dir : Place) : Broker (Place × Place) := do
  let staging ← openRoot .staging
  openRegularAt (staging.child a.stagingFilename)
  let source ← fileStat (staging.child a.stagingFilename)
  if fingerprintFromStat source ≠ a.expectedReplacement then
    fail "staged artwork changed after the mutation preview"
  else
    let temporary ← createTemporaryFile dir pid 16 sequence
    match ← attempt (copyStaged blocks (staging.child a.stagingFilename) temporary source) with
    | .ok _ => pure (staging, temporary)
    | .error e =>
      unlinkAtIfPresent temporary
      throw e

/-- The opened directories of a replacement and the leaves in them. -/
structure Opened where
  sourceDir : Place
  sourceLeaf : String
  archiveDir : Place
  archiveLeaf : String
  replacementDir : Place
  replacementLeaf : String

def Opened.source (o : Opened) : Place := o.sourceDir.child o.sourceLeaf

def Opened.archive (o : Opened) : Place := o.archiveDir.child o.archiveLeaf

def Opened.replacement (o : Opened) : Place := o.replacementDir.child o.replacementLeaf

def openParents : Broker Opened := do
  let _ ← ofOk (resolveRoot config username a.rootId "artwork root ID is not registered")
  let (sourceParent, sourceLeaf) ← ofOk (safeParentAndLeaf a.sourceRelativePath)
  let (archiveParent, archiveLeaf) ← ofOk (safeParentAndLeaf a.archivedRelativePath)
  let (replacementParent, replacementLeaf) ← ofOk (safeParentAndLeaf a.replacementRelativePath)
  let root ← openRoot .library
  let sourceDir ← openDirectoryChain false sourceParent root
  let archiveDir ← openDirectoryChain true archiveParent root
  let replacementDir ← openDirectoryChain false replacementParent root
  pure { sourceDir, sourceLeaf, archiveDir, archiveLeaf, replacementDir, replacementLeaf }

/-- The original goes back when something else took the replacement path. -/
def restoreAfterConflict (o : Opened) (conflict : Bool) : Broker Unit := do
  if conflict then
    match ← attempt (renameNoreplace o.archive o.source
      "restore archived artwork after replacement conflict") with
    | .ok _ =>
      syncDirectory o.archiveDir
      syncDirectory o.sourceDir
    | .error _ => pure ()
  else pure ()

def archiveCurrent (o : Opened) (temporary : Place) : Broker Unit := do
  match ← attempt (renameNoreplace o.source o.archive "archive current file") with
  | .error error =>
    unlinkAtIfPresent temporary
    throw error
  | .ok _ =>
    syncDirectory o.sourceDir
    syncDirectory o.archiveDir

def installReplacement (o : Opened) (staging temporary : Place) : Broker Unit := do
  match ← attempt (renameNoreplace temporary o.replacement "install replacement file") with
  | .error installError =>
    unlinkAtIfPresent temporary
    match ← attempt (renameNoreplace o.archive o.source
      "restore archived file after install failure") with
    | .error rollbackError =>
      fail (installError.message ++
        "; the original remains preserved at the archive path because rollback failed: " ++
        rollbackError.message)
    | .ok _ =>
      syncDirectory o.archiveDir
      syncDirectory o.sourceDir
      throw installError
  | .ok _ =>
    syncDirectory o.replacementDir
    unlinkRegularAt (staging.child a.stagingFilename)
    syncDirectory staging

def applyReplaceFile : Broker Unit := do
  match ← recoverReplacedFile config username a with
  | true => pure ()
  | false =>
    let o ← openParents config username a
    let source ← fingerprintOptionalAt o.source
    let archived ← fingerprintOptionalAt o.archive
    let replacement ← fingerprintOptionalAt o.replacement
    let replacementIsSource := decide (a.sourceRelativePath = a.replacementRelativePath)
    let initial := decide (source = some a.expectedSource) && archived.isNone &&
      (replacementIsSource || replacement.isNone)
    let archivedOnly := source.isNone && decide (archived = some a.expectedSource) && replacement.isNone
    if !initial && !archivedOnly then
      restoreAfterConflict o
        (source.isNone && decide (archived = some a.expectedSource) && replacement.isSome)
      fail "replacement inputs changed after the mutation preview"
    else
      let (staging, temporary) ← prepareStagedCopy a blocks pid sequence o.replacementDir
      if initial then archiveCurrent o temporary else pure ()
      installReplacement a o staging temporary

/-- One execution of the action by the broker; the result tells whether it was recovered. -/
def executeReplace (kind : ReplaceKind) : Broker Bool := do
  ofOk (kind.validate config username a)
  match ← recoverReplacedFile config username a with
  | true => pure true
  | false =>
    ofOk (kind.validate config username a)
    applyReplaceFile config username a blocks pid sequence
    pure false

end Programs

end NixHomeServer.MediaManager
