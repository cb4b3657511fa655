import NixHomeServer.Downloader.Paths
import NixHomeServer.Library.Runs

/-! How downloads get into the library: each job chooses a folder, downloads,
copies what it has downloaded and records what then lies in the folder. Many
jobs do so at the same time. -/
namespace NixHomeServer.Downloader

open NixHomeServer.Library

abbrev Files := FileTree Name String

/-- What a download has left in a directory of its own. A folder comes with all that is below it, in
the order in which it is copied. -/
inductive Entry
  | file (name : Name) (content : String)
  | folder (name : Name) (below : List (Path × Item String))
  deriving DecidableEq, Repr

namespace Entry

def name : Entry → Name
  | .file name _ | .folder name _ => name

/-- What a copy consists of, by the paths from its destination on. -/
def items : Entry → List (Path × Item String)
  | .file _ content => [([], .file content)]
  | .folder _ below => ([], .folder) :: below

def isFile : Entry → Bool
  | .file _ _ => true
  | .folder _ _ => false

end Entry

/-- A job, with what its download leaves in the temporary directory and in the `chapters` directory
in there. -/
structure Order where
  createdBy : String
  request : CreateJobRequest
  source : ProbeResponse
  tempDir : List Entry
  chapterDir : List Entry := []
  deriving DecidableEq, Repr

namespace Order

def sourceDir (order : Order) : List Entry := if order.request.splits then order.chapterDir else order.tempDir

/-- What is copied: the source directory without its artwork, and the transcripts of a download that
has been split. -/
def entries (order : Order) : List Entry :=
  (order.sourceDir.filter fun entry => !(entry.isFile && isArtworkSidecar entry.name)) ++
    if order.request.splits then order.tempDir.filter fun entry => entry.isFile && isSubtitleSidecar entry.name
    else []

def safeRoot (roots : Roots) (order : Order) : Option Path :=
  let outputRoot := mediaRootFor roots order.createdBy order.request
  assertInside outputRoot (if order.request.destination = .shared then outputRoot else roots.usersRoot)

def baseFolder (order : Order) (root : Path) : Path :=
  (folderNameFor order.source order.request).foldl join root

end Order

structure FileRow where
  path : Path
  kind : FileKind
  deriving DecidableEq, Repr

/-- What a job is about to do. -/
inductive Phase
  | preparing
  | choosing (root : Path) (index : Nat)
  | downloading (folder : Path)
  | copying (folder : Path) (rest : List Entry)
  | naming (folder : Path) (entry : Entry) (index : Nat) (rest : List Entry)
  | placing (folder destination : Path) (items : List (Path × Item String)) (rest : List Entry)
  | writing (folder destination path : Path) (content : String) (items : List (Path × Item String)) (rest : List Entry)
  | walking (folder : Path) (walk : FileTree.Walk Name String)
  | completed (folder : Path) (files : List FileRow)
  /-- The job waits for the user, has failed or has been cancelled. -/
  | spent
  deriving DecidableEq, Repr

/-- The folder into which a job is copying, until its files are recorded. -/
def Phase.publishes : Phase → Option Path
  | .copying folder _ | .naming folder _ _ _ | .placing folder _ _ _ | .writing folder _ _ _ _ _
  | .walking folder _ => some folder
  | _ => none

structure Publication where
  order : Order
  phase : Phase := .preparing
  /-- The folder that it has copied into. -/
  into : Option Path := none
  /-- The files that it has copied. -/
  copied : List Path := []
  deriving DecidableEq, Repr

/-- A loop over candidates gives up here. -/
def maxCandidates : Nat := 1000

/-- A file is copied once nothing is found at its destination, and replaces whatever file is there then. -/
def overwrite (files : Files) (path : Path) (content : String) : Option Files :=
  if fits : path ≠ [] ∧ files.item path.dropLast = some .folder ∧ files.item path ≠ some .folder then
    some (files.put path (.file content) fits.1 fits.2.1 fits.2.2)
  else none

def makeFolder (files : Files) (path : Path) : Option Files :=
  if fits : path ≠ [] ∧ files.item path.dropLast = some .folder ∧ files.item path = none then
    some (files.put path .folder fits.1 fits.2.1 (by rw [fits.2.2]; nofun))
  else none

namespace Publication

def advance (roots : Roots) (files : Files) (job : Publication) : Files × Publication :=
  let goes (phase : Phase) : Files × Publication := (files, { job with phase := phase })
  match job.phase with
  | .preparing => match job.order.safeRoot roots with
    | none => goes .spent
    | some root => match files.makeFolders root with
      | none => goes .spent
      | some made =>
        if job.order.request.includeChannel then
          (made, { job with phase := match assertInside (job.order.baseFolder root) root with
            | some folder => .downloading folder
            | none => .spent })
        else (made, { job with phase := .choosing root 0 })
  | .choosing root index =>
    let candidate := candidateFolder (job.order.baseFolder root) index
    if index ≥ maxCandidates then goes .spent
    else if (files.item candidate).isSome then goes (.choosing root (index + 1))
    else if index > 0 && !job.order.request.outputFolderCollisionConfirmed then goes .spent
    else match assertInside candidate root with
      | some folder => goes (.downloading folder)
      | none => goes .spent
  | .downloading folder => match files.makeFolders folder with
    | some made => (made, { job with phase := .copying folder job.order.entries, into := some folder })
    | none => goes .spent
  | .copying folder [] => goes (.walking folder { pending := [(folder, .folder)] })
  | .copying folder (entry :: rest) => goes (.naming folder entry 0 rest)
  | .naming folder entry index rest =>
    let destination := folder ++ [candidateName entry.name index]
    if index ≥ maxCandidates then goes .spent
    else if (files.item destination).isSome then goes (.naming folder entry (index + 1) rest)
    else goes (.placing folder destination entry.items rest)
  | .placing folder _ [] rest => goes (.copying folder rest)
  | .placing folder destination ((path, .folder) :: items) rest =>
    if files.item (destination ++ path) = some .folder then goes (.placing folder destination items rest)
    else match makeFolder files (destination ++ path) with
      | some made => (made, { job with phase := .placing folder destination items rest })
      | none => goes .spent
  | .placing folder destination ((path, .file content) :: items) rest =>
    if (files.item (destination ++ path)).isSome then goes .spent
    else goes (.writing folder destination path content items rest)
  | .writing folder destination path content items rest =>
    match overwrite files (destination ++ path) content with
    | some written => (written, { job with
        phase := .placing folder destination items rest
        copied := job.copied ++ [destination ++ path] })
    | none => goes .spent
  | .walking folder walk => match walk.pending with
    | [] => goes (.completed folder (walk.found.map fun path =>
        { path := path.drop folder.length, kind := kindOf (path.getLastD []) }))
    | _ => goes (.walking folder (files.walkStep walk))
  | .completed _ _ | .spent => goes job.phase

end Publication

structure Site where
  files : Files
  jobs : List Publication

inductive Move
  | advance (i : Nat)
  /-- Something goes wrong, or the job is cancelled. -/
  | fail (i : Nat)
  deriving DecidableEq, Repr

def Site.step (roots : Roots) (x : Site) : Move → Site
  | .advance i => match x.jobs[i]? with
    | some job =>
      let (files, job) := job.advance roots x.files
      { files := files, jobs := x.jobs.set i job }
    | none => x
  | .fail i => match x.jobs[i]? with
    | some job => match job.phase with
      | .completed _ _ => x
      | _ => { x with jobs := x.jobs.set i { job with phase := .spent } }
    | none => x

/-- The jobs over a library as it was. -/
def Site.start (files : Files) (orders : List Order) : Site :=
  { files := files, jobs := orders.map fun order => { order := order } }

end NixHomeServer.Downloader
