import NixHomeServer.Library.Numerals
import NixHomeServer.Library.Patterns
import NixHomeServer.Library.Sorting
import Mathlib.Data.String.Basic
import Mathlib.Order.WithBot

/-! The playing order of a folder: what its file names, its tags and its playlist say. -/
namespace NixHomeServer.MediaManager.TrackOrder

open NixHomeServer.Library

def maxTrackOrderFiles : Nat := 500
def maxAffectedFiles : Nat := 25

section Names

def leadingNumber (text : List Char) : Option (Nat × List Char) :=
  let digits := text.takeWhile Char.isDigit
  if digits = [] then none else (parseUnsigned 10 (2 ^ 64) digits).map fun number => (number, text.dropWhile Char.isDigit)

def stripPrefix (pattern text : List Char) : Option (List Char) :=
  if pattern.isPrefixOf text then some (text.drop pattern.length) else none

def trimSeparators (also : List Char) (text : List Char) : List Char :=
  text.dropWhile fun c => ([' ', '-', '_', '.'] ++ also).contains c

/-- What is in front of the last dot, in lower case. -/
def lowerStem (fileName : String) : List Char :=
  (((cutAtLast '.' fileName.toList).map Prod.fst).getD fileName.toList).map Char.toLower

/-- The disc that a name starts with, and what follows. A marker without a number of its own makes a name unnumbered. -/
def discMarker (lower : List Char) : Option (Option Nat × List Char) :=
  match ["disc", "disk", "cd"].findSome? fun marker => stripPrefix marker.toList lower with
  | some tail => do
    let (number, rest) ← leadingNumber (trimSeparators [] tail)
    if 1 ≤ number ∧ number ≤ 99 then some (some number, trimSeparators [] rest) else none
  | none => some (none, lower)

/-- A disc after a single letter. -/
def discLetter (rest : List Char) : Option Nat × List Char :=
  match rest with
  | 'd' :: tail =>
    match leadingNumber tail with
    | some (number, after) => if 1 ≤ number ∧ number ≤ 99 then (some number, trimSeparators [] after) else (none, rest)
    | none => (none, rest)
  | _ => (none, rest)

def skipWord (rest : List Char) : List Char :=
  (["part", "track", "trk"].findSome? fun word =>
    ((stripPrefix word.toList rest).map (trimSeparators ['#'])).filter fun tail => tail.head?.any Char.isDigit).getD rest

/-- The disc and the track that stand first in a file name. -/
def filenameSequenceNumber (fileName : String) : Option (Nat × Nat) := do
  let (marked, rest) ← discMarker (lowerStem fileName)
  let (disc, rest) := if marked.isSome then (marked, rest) else discLetter rest
  let (first, after) ← leadingNumber (skipWord rest)
  if 9999 < first then none
  else
    -- a second number is the track only after a disc
    let second := if disc.isSome then (leadingNumber (trimSeparators ['/'] after)).filter (·.1 ≤ 9999) else none
    some (disc.getD 1, (second.map Prod.fst).getD first)

end Names

structure TrackOrderFile where
  fileName : String
  tagDisc : Option Nat
  tagTrack : Option Nat
  deriving DecidableEq, Repr

structure TrackOrderProblem where
  code : String
  severity : String
  title : String
  message : String
  affectedFiles : List String
  affectedFileCount : Nat
  deriving DecidableEq, Repr

structure TrackOrderFileRow where
  fileName : String
  filenameNumber : Option Nat
  tagDisc : Option Nat
  tagTrack : Option Nat
  playlistPosition : Option Nat
  effectivePosition : Nat
  status : String
  deriving DecidableEq, Repr

structure TrackOrderReport where
  status : String
  fileCount : Nat
  playlistName : Option String
  files : List TrackOrderFileRow
  problems : List TrackOrderProblem
  deriving DecidableEq, Repr

section Orders

abbrev Number := Nat ×ₗ Nat

def u64Max : Nat := 2 ^ 64 - 1

/-- File names stand in the order of their numbers, those without a number first. -/
def TrackOrderFile.filenameKey (file : TrackOrderFile) : WithBot Number ×ₗ String :=
  toLex (((filenameSequenceNumber file.fileName).map toLex : Option Number), file.fileName)

/-- Tags come first in the order of playback, then numbers, then names. What is missing stands last. -/
def TrackOrderFile.effectiveKey (file : TrackOrderFile) : Nat ×ₗ Nat ×ₗ Number ×ₗ String :=
  toLex (file.tagDisc.getD u64Max, toLex (file.tagTrack.getD u64Max,
    toLex (toLex ((filenameSequenceNumber file.fileName).getD (u64Max, u64Max)), file.fileName)))

def TrackOrderFile.filenameNumber (file : TrackOrderFile) : Option Nat := (filenameSequenceNumber file.fileName).map Prod.snd

variable (files : List TrackOrderFile)

def effective : List (Fin files.length) := sortBy (fun i => files[i].effectiveKey) (List.finRange files.length)

def effectivePosition (i : Fin files.length) : Nat := (effective files).idxOf i + 1

def filenameRank (i : Fin files.length) : Nat :=
  (sortBy (fun i : Fin files.length => files[i].filenameKey) (List.finRange files.length)).idxOf i + 1

/-- The last index under which a name stands. -/
def indexOf (name : String) : Option (Fin files.length) :=
  ((List.finRange files.length).filter fun i => files[i].fileName = name).getLast?

/-- The effective position of the file of a name. -/
def placeOf (name : String) : Nat := ((indexOf files name).map (effectivePosition files)).getD 0

/-- The last place of an entry in a playlist. -/
def playlistRank (playlistEntries : List String) (name : String) : Option Nat :=
  (playlistEntries.reverse.idxOf? name).map fun i => playlistEntries.length - 1 - i

end Orders

section Problems

def groupedProblem (code severity title message : String) (affected : List String) : TrackOrderProblem where
  code := code
  severity := severity
  title := title
  message := message
  affectedFiles := affected.take maxAffectedFiles
  affectedFileCount := affected.length

variable (files : List TrackOrderFile)

def names : List String := files.map TrackOrderFile.fileName

def mismatched : List String :=
  ((List.finRange files.length).filter fun i =>
    match files[i].filenameNumber, files[i].tagTrack with
    | some filename, some tag => filename != tag || filenameRank files i != effectivePosition files i
    | _, _ => false).map fun i => files[i].fileName

def mismatchProblem : Option TrackOrderProblem :=
  if mismatched files = [] then none
  else some (groupedProblem "track-order-mismatch" "warning" "Filename numbering disagrees with embedded track tags"
    ("The player picks per file between the filename number and the embedded tag, so " ++ toString (mismatched files).length ++
      " of " ++ toString files.length ++ " files can sort away from the intended order. Align the filename numbers with the embedded track numbers, then rescan the library and refresh the player.")
    (mismatched files))

/-- The names under each number, in the order of the numbers. -/
def pushUnder (number : Nat) (name : String) : List (Nat × List String) → List (Nat × List String)
  | [] => [(number, [name])]
  | (other, names) :: rest =>
    if number < other then (number, [name]) :: (other, names) :: rest
    else if number = other then (other, names ++ [name]) :: rest
    else (other, names) :: pushUnder number name rest

def numbers : List (Nat × List String) :=
  files.foldl (fun numbers file => match file.filenameNumber with
    | some number => pushUnder number file.fileName numbers
    | none => numbers) []

def unnumbered : List String := (files.filter fun file => file.filenameNumber.isNone).map TrackOrderFile.fileName

def hasGap : List Nat → Bool
  | a :: b :: rest => b != a + 1 || hasGap (b :: rest)
  | _ => false

def sequenceProblem : Option TrackOrderProblem :=
  let numbers := numbers files
  let duplicates := (numbers.filter fun under => 1 < under.2.length).flatMap Prod.snd
  let sortedNumbers := numbers.map Prod.fst
  if duplicates ≠ [] ∨ hasGap sortedNumbers = true then
    some (groupedProblem "track-sequence-gap-or-duplicate" "warning" "Filename sequence has gaps or duplicates"
      "The filename sequence has gaps or duplicates, so plain filename sorting drifts from the intended playback order. Renumber the files with zero-padded track numbers and rescan."
      (numbers.flatMap Prod.snd))
  else if sortedNumbers.head? = some 0 ∧ files.any (fun file => file.tagTrack.any (1 ≤ ·)) = true then
    some (groupedProblem "track-sequence-gap-or-duplicate" "warning" "Filenames start at 00 while tags start at 01"
      "The filename sequence starts at 00 while embedded tags start at 01; the player can collide the two schemes and play chapters out of order. Renumber the files 01..N to match the tags and rescan."
      (names files))
  else none

def missingProblem : Option TrackOrderProblem :=
  if (unnumbered files).length = files.length ∧ 1 < files.length then
    some (groupedProblem "missing-track-numbers" "info" "No file carries a sequence number or track tag"
      "Neither filenames nor embedded tags carry track numbers, so playback order falls back to plain filename sorting. Add zero-padded leading numbers and rescan."
      (unnumbered files))
  else none

def asciiLowercase (text : String) : String := String.ofList (text.toList.map Char.toLower)

variable (playlistEntries : List String)

def unresolvedMessage (unresolved caseHints : List String) : String :=
  "The playlist references " ++ toString unresolved.length ++ " file" ++ (if unresolved.length = 1 then "" else "s") ++
    " that do not resolve on the case-sensitive library filesystem; those tracks cannot play from the playlist." ++
    if caseHints = [] then "" else " Case mismatches: " ++ ", ".intercalate (caseHints.take 5) ++ "."

def unresolvedProblem : Option TrackOrderProblem :=
  let unresolved := playlistEntries.filter fun entry => !(names files).contains entry
  let caseHints := unresolved.filterMap fun entry =>
    ((names files).reverse.find? fun name => asciiLowercase name = asciiLowercase entry).map fun actual =>
      entry ++ " should be " ++ actual
  if unresolved = [] then none
  else some (groupedProblem "unresolved-playlist-entries" "error" "Playlist entries do not resolve to library files"
    (unresolvedMessage unresolved caseHints) unresolved)

/-- The files that a playlist names, in the order of their names. -/
def listed : List TrackOrderFile := files.filter fun file => (playlistRank playlistEntries file.fileName).isSome

def byEffective : List TrackOrderFile := sortBy (fun file => placeOf files file.fileName) (listed files playlistEntries)

def differsProblem : Option TrackOrderProblem :=
  if (names (listed files playlistEntries)) = names (byEffective files playlistEntries) then none
  else some (groupedProblem "playlist-order-differs" "warning" "Playlist order differs from playback order"
    "The playlist lists the tracks in a different order than the effective disc/track playback order. Reorder the playlist to match, or align filenames and tags, then rescan."
    (names (listed files playlistEntries)))

def unrecognisedProblem (unrecognisedAudio : List String) : Option TrackOrderProblem :=
  if unrecognisedAudio = [] then none
  else some (groupedProblem "unrecognised-audio-files" "info" "Some audio files are invisible to the media library"
    "These extensions play in the player app but the library scanner does not catalog them, so they are missing from metadata views. Convert them to a cataloged format (mp3, m4a, flac, ogg, opus) to manage them here."
    unrecognisedAudio)

end Problems

section Assessing

def row (files : List TrackOrderFile) (playlistEntries : List String) (i : Fin files.length) : TrackOrderFileRow where
  fileName := files[i].fileName
  filenameNumber := files[i].filenameNumber
  tagDisc := files[i].tagDisc
  tagTrack := files[i].tagTrack
  playlistPosition := (playlistRank playlistEntries files[i].fileName).map (· + 1)
  effectivePosition := effectivePosition files i
  status :=
    match files[i].filenameNumber, files[i].tagTrack with
    | some filename, some tag => if filename = tag ∧ filenameRank files i = effectivePosition files i then "agree" else "mismatch"
    | none, none => "agree"
    | _, _ => "mismatch"

/-- The files that are assessed, in the order of their names. -/
def assessed (files : List TrackOrderFile) : List TrackOrderFile :=
  (sortBy TrackOrderFile.filenameKey files).take maxTrackOrderFiles

def problems (files : List TrackOrderFile) (playlistName : Option String) (playlistEntries unrecognisedAudio : List String) :
    List TrackOrderProblem :=
  (mismatchProblem files).toList ++ (sequenceProblem files).toList ++ (missingProblem files).toList ++
    (if playlistName.isSome then
      (unresolvedProblem files playlistEntries).toList ++ (differsProblem files playlistEntries).toList
    else []) ++ (unrecognisedProblem unrecognisedAudio).toList

def assessTrackOrder (files : List TrackOrderFile) (playlistName : Option String)
    (playlistEntries unrecognisedAudio : List String) : TrackOrderReport :=
  let files := assessed files
  let problems := problems files playlistName playlistEntries unrecognisedAudio
  { status := if problems.any fun problem => problem.severity == "error" then "error" else if problems = [] then "ok" else "warning"
    fileCount := files.length
    playlistName := playlistName
    files := (List.finRange files.length).map (row files playlistEntries)
    problems := problems }

end Assessing

end NixHomeServer.MediaManager.TrackOrder
