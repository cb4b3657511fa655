import NixHomeServer.Downloader.Jobs
import NixHomeServer.Library.FileTree
import NixHomeServer.Library.Text

/-! Where a download is kept, and under which names. -/
namespace NixHomeServer.Downloader

open NixHomeServer.Library

/-- The name of a file or a folder. -/
abbrev Name := List Char

/-- An absolute path without `.` and `..`. -/
abbrev Path := List Name

/-- The characters that `\s` stands for. -/
def isSpace (c : Char) : Bool :=
  c = ' ' || ('\x09' ≤ c && c ≤ '\x0d') || c = '\u00a0' || c = '\u1680' || ('\u2000' ≤ c && c ≤ '\u200a') ||
    c = '\u2028' || c = '\u2029' || c = '\u202f' || c = '\u205f' || c = '\u3000' || c = '\ufeff'

def isForbidden (c : Char) : Bool := "<>:\"/\\|?*".toList.contains c || c ≤ '\x1f' || c = '\x7f'

/-- Runs of blanks become one space. -/
def collapse : List Char → List Char
  | [] => []
  | c :: rest =>
    if isSpace c then if (rest.head?.any isSpace) then collapse rest else ' ' :: collapse rest
    else c :: collapse rest

/-- `slice(0, n)` counts the units of UTF-16; half a character is written as the replacement character. -/
def sliceUnits : Nat → List Char → List Char
  | 0, _ => []
  | _, [] => []
  | n + 1, c :: rest =>
    if c.val < 0x10000 then c :: sliceUnits n rest
    else if n = 0 then ['\ufffd']
    else c :: sliceUnits (n - 1) rest

def windowsReservedNames (name : List Char) : Bool :=
  let stem := (name.takeWhile (· ≠ '.')).map Char.toLower
  ["con", "prn", "aux", "nul"].any (·.toList = stem) ||
    ["com", "lpt"].any fun port => "123456789".toList.any fun digit => port.toList ++ [digit] = stem

def sanitizeSegment (value : Option String) (fallback : String) : Name :=
  let text := (value.getD fallback).toList.map fun c => if isForbidden c then ' ' else c
  let cleaned := sliceUnits 120 (trimBy (fun c => c = '.' || isSpace c) (trimBy isSpace (collapse text)))
  if cleaned = [] then fallback.toList
  else if windowsReservedNames cleaned then cleaned ++ ['_']
  else cleaned

/-- `a || b || …` -/
def firstTruthy (values : List (Option String)) : Option String :=
  (values.find? fun value => value.any (· ≠ "")).join

/-- The year and the date, where the source has them. -/
def dateParts (source : ProbeResponse) : Option (Name × Name) :=
  match firstTruthy [source.releaseDate, source.uploadDate, source.effectiveDate] with
  | none => none
  | some raw => match raw.toList with
    | [a, b, c, d, e, f, g, h] =>
      if [a, b, c, d, e, f, g, h].all Char.isDigit then
        some ([a, b, c, d], [a, b, c, d, '-', e, f, '-', g, h])
      else none
    | [a, b, c, d, '-', e, f, '-', g, h] =>
      if [a, b, c, d, e, f, g, h].all Char.isDigit then
        some ([a, b, c, d], [a, b, c, d, '-', e, f, '-', g, h])
      else none
    | [a, b, c, d] => if [a, b, c, d].all Char.isDigit then some ([a, b, c, d], [a, b, c, d]) else none
    | _ => none

structure Roots where
  sharedVideoRoot : Path
  sharedAudioRoot : Path
  sharedAudiobooksRoot : Path
  usersRoot : Path

/-- `path.join` of an absolute path and a text. -/
def join (path : Path) (text : Name) : Path :=
  (splitAll '/' text).foldl (fun path name =>
    if name = [] || name = ['.'] then path
    else if name = ['.', '.'] then path.dropLast
    else path ++ [name]) path

def mediaRootFor (roots : Roots) (username : String) (request : CreateJobRequest) : Path :=
  match request.destination, request.mediaType with
  | .shared, .audio => if request.saveAudioToAudiobooks then roots.sharedAudiobooksRoot else roots.sharedAudioRoot
  | .shared, .video => roots.sharedVideoRoot
  | .personal, .audio =>
    let audioFolder := if request.saveAudioToAudiobooks then "_Audiobooks" else "_Music"
    [username, audioFolder, "_YouTube"].foldl (fun path text => join path text.toList) roots.usersRoot
  | .personal, .video =>
    [username, "_Videos", "_YouTube"].foldl (fun path text => join path text.toList) roots.usersRoot

def assertInside (candidate root : Path) : Option Path := if root <+: candidate then some candidate else none

def folderNameFor (source : ProbeResponse) (request : CreateJobRequest) : List Name :=
  let title := sanitizeSegment source.title "Unknown Title"
  let channel := sanitizeSegment (firstTruthy [source.channel, source.uploader]) "Unknown Channel"
  let parts := dateParts source
  let leaf := match parts with
    | some (_, date) => if request.includeDate then date ++ " - ".toList ++ title else title
    | none => title
  if request.includeChannel then [channel]
  else match parts with
    | some (year, _) => if request.includeDate then [year, leaf] else [leaf]
    | none => [leaf]

/-- ` (3)` -/
def counter (index : Nat) : List Char := " (".toList ++ Nat.toDigits 10 index ++ [')']

/-- The candidates of `allocateUniqueFolder`. -/
def candidateFolder (base : Path) (index : Nat) : Path :=
  if index = 0 then base else base.dropLast ++ [base.getLastD [] ++ counter index]

def extname (name : Name) : List Char :=
  match name.reverse.span (· ≠ '.') with
  | (_, []) | (_, [_]) => []
  | (after, _ :: _) => if name = ['.', '.'] then [] else '.' :: after.reverse

/-- `toLowerCase`, where it makes an ASCII letter. -/
def toLowerCase (text : List Char) : List Char := text.map fun c => if c = '\u212a' then 'k' else c.toLower

def hasExtension (extensions : List String) (name : Name) : Bool :=
  extensions.any (·.toList = toLowerCase (extname name))

def isArtworkSidecar (name : Name) : Bool := hasExtension [".jpg", ".jpeg", ".png", ".webp"] name

def isSubtitleSidecar (name : Name) : Bool := hasExtension [".srt", ".vtt", ".ass", ".ssa", ".lrc"] name

def isMediaFile (name : Name) : Bool :=
  hasExtension [".aac", ".avi", ".flac", ".m4a", ".m4v", ".mkv", ".mov", ".mp3", ".mp4", ".oga", ".ogg", ".opus",
    ".wav", ".webm"] name

/-- The candidates of `allocateUniqueDestination`. -/
def candidateName (name : Name) (index : Nat) : Name :=
  let extension := extname name
  let base := if extension = [] then name else name.take (name.length - extension.length)
  if index = 0 then name else base ++ counter index ++ extension

inductive FileKind
  | media | cover | metadata
  deriving DecidableEq, Repr

def kindOf (name : Name) : FileKind :=
  if isMediaFile name then .media else if hasExtension [".jpg", ".jpeg"] name then .cover else .metadata

end NixHomeServer.Downloader
