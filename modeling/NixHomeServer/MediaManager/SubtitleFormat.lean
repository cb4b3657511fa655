import NixHomeServer.Library.Checked
import NixHomeServer.Library.Numerals
import NixHomeServer.Library.Patterns
import NixHomeServer.Library.Utf8

/-! Subtitles as the preview reads them and as they are written back. -/
namespace NixHomeServer.MediaManager.Subtitles

open NixHomeServer.Library

structure SubtitleCue where
  index : UInt64
  startMs : UInt64
  endMs : UInt64
  text : List Char
  deriving DecidableEq, Repr

/-- Numbers of the type `u64` are below this. -/
def u64 : Nat := 2 ^ 64

def arrow : List Char := "-->".toList

def isMark (c : Char) : Bool := c = ',' || c = '.'

/-- The clock of a time, and its fraction of a second. -/
def splitTime (token : List Char) : List Char × List Char :=
  match token.span fun c => ¬ isMark c with
  | (clock, _ :: fraction) => (clock, fraction)
  | (_, []) => (token, ['0'])

/-- The fields left of the seconds, from right to left. -/
def addFields : List (List Char) → Nat → Nat → Checked Unit Nat
  | [], total, _ => .returns total
  | part :: rest, total, multiplier => do
    let value ← .ofOption () (parseUnsigned 10 u64 part)
    let scaled ← .within u64 (value * multiplier)
    let ms ← .within u64 (scaled * 1000)
    let total ← .within u64 (total + ms)
    let multiplier ← .within u64 (multiplier * 60)
    addFields rest total multiplier

/-- `&fraction[..fraction.len().min(3)]` -/
def leadingBytes (fraction : List Char) : Option (List Char) :=
  (splitAtByte fraction (min (utf8 fraction).length 3)).map (·.1)

/-- Milliseconds. `None` is a failure without a text. -/
def parseTime (token : List Char) : Checked Unit Nat :=
  let (clock, fraction) := splitTime token
  match (clock.splitOn ':').reverse with
  | [] => .fails ()
  | last :: parts => do
    let seconds ← .ofOption () (parseUnsigned 10 u64 last)
    let ms ← .within u64 (seconds * 1000)
    let total ← addFields parts ms 60
    let fraction ← .unwrap (leadingBytes fraction)
    let value ← .ofOption () (parseUnsigned 10 u64 fraction)
    let fractionMs ← .within u64 (value * 10 ^ (3 - (utf8 fraction).length))
    .within u64 (total + fractionMs)

def parseTiming (line : List Char) : Checked Unit (Nat × Nat) := do
  let (before, after) ← .ofOption () (cutAtText arrow line)
  let start ← .ofOption () (firstWord before)
  let finish ← .ofOption () (firstWord after)
  let startMs ← parseTime start
  let endMs ← parseTime finish
  .returns (startMs, endMs)

def hasArrow (line : List Char) : Bool := (cutAtText arrow line).isSome

/-- What the line before the timing gives as the index. -/
def labelOf (lines : List (List Char)) (position : Nat) : Option Nat :=
  (lines[position - 1]?).bind fun line => parseUnsigned 10 u64 (trim line)

def parseBlocks : List (List Char) → Nat → Checked String (List SubtitleCue)
  | [], _ => .returns []
  | block :: rest, nextIndex =>
    let ls := lines (trim block)
    -- a blank block has no lines, and so no arrow
    match ls.findIdx? hasArrow with
    | none => parseBlocks rest nextIndex
    | some position => do
      let nextIndex ← match labelOf ls position with
        | some index => .returns index
        | none => .within u64 (nextIndex + 1)
      let (startMs, endMs) ← (parseTiming (ls.getD position [])).mapError fun _ => "invalid subtitle timing"
      let text := trim (['\n'].intercalate (ls.drop (position + 1)))
      let cues ← parseBlocks rest nextIndex
      .returns (⟨.ofNat nextIndex, .ofNat startMs, .ofNat endMs, text⟩ :: cues)

def byteOrderMark : Char := '\ufeff'

def withoutMark (text : List Char) : List Char := text.dropWhile (· = byteOrderMark)

/-- Every end of a line is a line feed. -/
def normalized (text : List Char) : List Char :=
  (replaceText ['\r', '\n'] ['\n'] (withoutMark text)).map fun c => if c = '\r' then '\n' else c

def parseSrt (text : List Char) : Checked String (List SubtitleCue) := do
  if withoutMark text = [] then .fails "subtitle text is empty"
  else if ¬ hasArrow (normalized text) then .fails "no subtitle timing markers found"
  else
    let cues ← parseBlocks (splitText ['\n', '\n'] (normalized text)) 0
    if cues = [] then .fails "no parseable subtitle cues" else .returns cues

/-- Text in braces is left out; a brace that opens nothing closes nothing. -/
def withoutOverrides : Bool → List Char → List Char
  | _, [] => []
  | inOverride, c :: rest =>
    if c = '\x7b' then withoutOverrides true rest
    else if c = '\x7d' ∧ inOverride then withoutOverrides false rest
    else if inOverride then withoutOverrides inOverride rest
    else c :: withoutOverrides inOverride rest

def stripAssOverrides (value : List Char) : List Char :=
  trim (withoutOverrides false (replaceText ['\\', 'n'] ['\n'] (replaceText ['\\', 'N'] ['\n'] value)))

/-- Where the events of a script have their columns. -/
structure Columns where
  inEvents : Bool := false
  startColumn : Nat := 1
  endColumn : Nat := 2
  textColumn : Nat := 9
  columnCount : Nat := 10
  deriving DecidableEq, Repr

def lower (text : List Char) : List Char := text.map Char.toLower

def stripEither (first second : String) (line : List Char) : Option (List Char) :=
  (first.toList.isPrefixOf? line).or (second.toList.isPrefixOf? line)

def formatColumns (columns : Columns) (format : List Char) : Checked String Columns := do
  let names := (format.splitOn ',').map fun column => lower (trim column)
  let startColumn ← .ofOption "ASS event format has no Start column" (names.findIdx? (· = "start".toList))
  let endColumn ← .ofOption "ASS event format has no End column" (names.findIdx? (· = "end".toList))
  let textColumn ← .ofOption "ASS event format has no Text column" (names.findIdx? (· = "text".toList))
  .returns { columns with startColumn, endColumn, textColumn, columnCount := names.length }

def dialogueColumns (columns : Columns) (dialogue : List Char) : List (List Char) :=
  splitN ',' (max columns.columnCount (columns.textColumn + 1)) (dialogue.dropWhile isWhitespace)

/-- A time column of a row. -/
def columnTime (values : List (List Char)) (column : Nat) (error : String) : Checked String Nat := do
  let value ← .ofOption error (values[column]?)
  (parseTime (trim value)).mapError fun _ => error

def isHeading (line : List Char) : Bool := line.head? = some '[' && line.getLast? = some ']'

/-- `count` cues are there already. -/
def parseEvents : List (List Char) → Columns → Nat → Checked String (List SubtitleCue)
  | [], _, _ => .returns []
  | line :: rest, columns, count =>
    let line := trim line
    if isHeading line then
      parseEvents rest { columns with inEvents := lower line = "[events]".toList } count
    else if ¬ columns.inEvents then parseEvents rest columns count
    else match stripEither "Format:" "format:" line with
      | some format => do
        let columns ← formatColumns columns format
        parseEvents rest columns count
      | none => match stripEither "Dialogue:" "dialogue:" line with
        | none => parseEvents rest columns count
        | some dialogue => do
          let values := dialogueColumns columns dialogue
          let startMs ← columnTime values columns.startColumn "invalid ASS start time"
          let endMs ← columnTime values columns.endColumn "invalid ASS end time"
          let text := ((values[columns.textColumn]?).map stripAssOverrides).getD []
          let cues ← parseEvents rest columns (count + 1)
          .returns (⟨.ofNat (count + 1), .ofNat startMs, .ofNat endMs, text⟩ :: cues)

def hasEvents (text : List Char) : Bool := (lines (normalized text)).any fun line => trim line = "[Events]".toList

def parseAss (text : List Char) : Checked String (List SubtitleCue) := do
  if ¬ hasEvents text then .fails "ASS subtitle has no Events section"
  else
    let cues ← parseEvents (lines (normalized text)) {} 0
    if cues = [] then .fails "no parseable ASS dialogue cues" else .returns cues

inductive Format
  | srt
  | ass
  deriving DecidableEq, Repr

def formatOf (format : List Char) : Option Format :=
  if lower format = "srt".toList ∨ lower format = "vtt".toList then some .srt
  else if lower format = "ass".toList ∨ lower format = "ssa".toList then some .ass
  else none

def parseSubtitle (format text : List Char) : Checked String (List SubtitleCue) :=
  match formatOf format with
  | some .srt => parseSrt text
  | some .ass => parseAss text
  | none => .fails "unsupported subtitle format"

/-- `format!("{n:0width}")` -/
def padded (width n : Nat) : List Char := (Nat.toDigits 10 n).leftpad width '0'

def renderTime (separator : Char) (timestamp : UInt64) : List Char :=
  let ms := timestamp.toNat
  padded 2 (ms / 3600000) ++ ':' :: padded 2 (ms / 60000 % 60) ++ ':' :: padded 2 (ms / 1000 % 60) ++
    separator :: padded 3 (ms % 1000)

/-- Cues that are not rendered, after the index and the start of the one before. -/
def rejected (previous : Option (UInt64 × UInt64)) (cue : SubtitleCue) : Bool :=
  cue.index = 0 || (previous.any fun before => cue.index ≤ before.1) ||
    (previous.any fun before => cue.startMs < before.2) || cue.endMs ≤ cue.startMs || cue.text = [] ||
    trim cue.text ≠ cue.text || (cue.text.any fun c => c = '\r' || c = '\x00') || hasArrow cue.text ||
    (cue.text.splitOn '\n').any fun line => trim line = []

def renderCue (separator : Char) (cue : SubtitleCue) : List Char :=
  Nat.toDigits 10 cue.index.toNat ++ '\n' :: renderTime separator cue.startMs ++ " --> ".toList ++
    renderTime separator cue.endMs ++ '\n' :: cue.text ++ ['\n', '\n']

def renderCues (separator : Char) : Option (UInt64 × UInt64) → List SubtitleCue → Except String (List Char)
  | _, [] => .ok []
  | previous, cue :: rest =>
    if rejected previous cue then .error "subtitle cues cannot be rendered"
    else do
      let output ← renderCues separator (some (cue.index, cue.startMs)) rest
      return renderCue separator cue ++ output

def renderSubtitle (cues : List SubtitleCue) (vtt : Bool) : Except String (List Char) := do
  let output ← renderCues (if vtt then '.' else ',') none cues
  return (if vtt then "WEBVTT\n\n".toList else []) ++ output

def renderSrt (cues : List SubtitleCue) : Except String (List Char) := renderSubtitle cues false

def renderVtt (cues : List SubtitleCue) : Except String (List Char) := renderSubtitle cues true

end NixHomeServer.MediaManager.Subtitles
