import Mathlib.Data.List.Forall2
import NixHomeServer.MediaManager.SubtitleTimes

/-! Rows of a subtitle file, and when every one of them is read safely. -/
namespace NixHomeServer.MediaManager.Subtitles

open NixHomeServer.Library

/-- What a file has for a cue: in SRT the number it gets, and the words that stand for its times. -/
structure Row where
  number : Option Nat
  start : Option (List Char)
  finish : Option (List Char)

namespace Row

/-- Its number and the times that are read of it stay in range. -/
structure Tame (row : Row) : Prop where
  number : ∀ n, row.number = some n → n < u64
  start : ∀ token, row.start = some token → Subtitles.Tame token
  finish : ∀ first, row.start = some first → Subtitles.Readable first →
    ∀ token, row.finish = some token → Subtitles.Tame token

def Readable (row : Row) : Prop :=
  ∃ first last, row.start = some first ∧ Subtitles.Readable first ∧ row.finish = some last ∧ Subtitles.Readable last

/-- No fraction of a second has a sign. -/
def Unsigned (row : Row) : Prop :=
  (∀ token, row.start = some token → Subtitles.Unsigned token) ∧
    ∀ token, row.finish = some token → Subtitles.Unsigned token

end Row

/-- Each row is tame, as far as those before it can be read. -/
def SafeRows : List Row → Prop
  | [] => True
  | row :: rest => row.Tame ∧ (row.Readable → SafeRows rest)

/-- A cue has the times that its row says. -/
def Carries (cue : SubtitleCue) (row : Row) : Prop :=
  ∃ first last, row.start = some first ∧ row.finish = some last ∧ Written first cue.startMs.toNat ∧
    Written last cue.endMs.toNat

def timesOf (line : List Char) : Option (List Char × List Char) := do
  let (before, after) ← cutAtText arrow line
  let start ← firstWord before
  let finish ← firstWord after
  return (start, finish)

def srtRows : List (List Char) → Nat → List Row
  | [], _ => []
  | block :: rest, previous =>
    let ls := lines (trim block)
    match ls.findIdx? hasArrow with
    | none => srtRows rest previous
    | some position =>
      let number := (labelOf ls position).getD (previous + 1)
      let times := timesOf (ls.getD position [])
      ⟨some number, times.map (·.1), times.map (·.2)⟩ :: srtRows rest number

/-- A format that lacks a column stands as a row without times: nothing is read after it. -/
def assRows : List (List Char) → Columns → List Row
  | [], _ => []
  | line :: rest, columns =>
    let line := trim line
    if isHeading line then assRows rest { columns with inEvents := lower line = "[events]".toList }
    else if ¬ columns.inEvents then assRows rest columns
    else match stripEither "Format:" "format:" line with
      | some format =>
        match formatColumns columns format with
        | .returns columns => assRows rest columns
        | _ => [⟨none, none, none⟩]
      | none => match stripEither "Dialogue:" "dialogue:" line with
        | none => assRows rest columns
        | some dialogue =>
          let values := dialogueColumns columns dialogue
          ⟨none, values[columns.startColumn]?.map trim, values[columns.endColumn]?.map trim⟩ :: assRows rest columns

def rowsOf (format text : List Char) : List Row :=
  match formatOf format with
  | some .srt =>
    if withoutMark text = [] ∨ ¬ hasArrow (normalized text) then []
    else srtRows (splitText ['\n', '\n'] (normalized text)) 0
  | some .ass => if hasEvents text then assRows (lines (normalized text)) {} else []
  | none => []

section Reading

/-- What reading the rows one after another gives. -/
def Reads : List Row → Checked String (List SubtitleCue) → Prop
  | [], parsed => parsed = .returns []
  | row :: rest, parsed =>
    (¬ row.Tame → parsed = .panics) ∧
    (row.Tame → ¬ row.Readable → ∃ error, parsed = .fails error) ∧
    (row.Tame → row.Readable → ∃ cue later, parsed = (later >>= fun cues => .returns (cue :: cues)) ∧
      Reads rest later ∧ (row.Unsigned → Carries cue row))

variable {rows : List Row} {parsed : Checked String (List SubtitleCue)} {cues : List SubtitleCue}

theorem Reads.panics_iff (reads : Reads rows parsed) : parsed = .panics ↔ ¬ SafeRows rows := by
  induction rows generalizing parsed with
  | nil =>
    rw [Reads] at reads
    simp [reads, SafeRows]
  | cons row rest ih =>
    obtain ⟨wild, unreadable, readable⟩ := reads
    by_cases tame : row.Tame
    · by_cases read : row.Readable
      · obtain ⟨cue, later, rfl, reads, -⟩ := readable tame read
        rw [Checked.bind_eq_panics, SafeRows, ih reads]
        simp [tame, read]
      · obtain ⟨error, rfl⟩ := unreadable tame read
        simp [SafeRows, tame, read]
    · simp [wild tame, SafeRows, tame]

/-- Cues are returned only where every row can be read. -/
theorem Reads.of_returns (reads : Reads rows parsed) (returned : parsed = .returns cues) :
    (∀ row ∈ rows, row.Readable) ∧ ((∀ row ∈ rows, row.Unsigned) → List.Forall₂ Carries cues rows) := by
  induction rows generalizing parsed cues with
  | nil =>
    cases reads.symm.trans returned
    exact ⟨nofun, fun _ => .nil⟩
  | cons row rest ih =>
    obtain ⟨wild, unreadable, readable⟩ := reads
    by_cases tame : row.Tame
    · by_cases read : row.Readable
      · obtain ⟨cue, later, rfl, reads, carries⟩ := readable tame read
        obtain ⟨others, found, same⟩ := Checked.bind_eq_returns.mp returned
        cases same
        obtain ⟨all, carried⟩ := ih reads found
        refine ⟨List.forall_mem_cons.mpr ⟨read, all⟩, fun plain => ?_⟩
        obtain ⟨first, others⟩ := List.forall_mem_cons.mp plain
        exact .cons (carries first) (carried others)
      · obtain ⟨error, failed⟩ := unreadable tame read
        cases failed.symm.trans returned
    · cases (wild tame).symm.trans returned

theorem Reads.returns (reads : Reads rows parsed) (safe : SafeRows rows) (all : ∀ row ∈ rows, row.Readable) :
    ∃ cues, parsed = .returns cues ∧ cues.length = rows.length := by
  induction rows generalizing parsed with
  | nil => exact ⟨[], reads, rfl⟩
  | cons row rest ih =>
    obtain ⟨-, -, readable⟩ := reads
    obtain ⟨tame, rest_safe⟩ := safe
    obtain ⟨read, others⟩ := List.forall_mem_cons.mp all
    obtain ⟨cue, later, rfl, reads, -⟩ := readable tame read
    obtain ⟨cues, rfl, count⟩ := ih reads (rest_safe read) others
    exact ⟨cue :: cues, rfl, congrArg (· + 1) count⟩

theorem Carries.unsigned {cue : SubtitleCue} {row : Row} (carries : Carries cue row) : row.Unsigned := by
  obtain ⟨first, last, start, finish, written, written'⟩ := carries
  constructor
  · intro token found
    cases start.symm.trans found
    exact unsigned_of_written written
  · intro token found
    cases finish.symm.trans found
    exact unsigned_of_written written'

/-- A list of cues that must not be empty carries its rows' times if and only if the rows are safe. -/
theorem Reads.sound_iff (reads : Reads rows parsed) (error : String) :
    (parsed >>= fun cues => if cues = [] then .fails error else .returns cues).Sound
        (fun cues => List.Forall₂ Carries cues rows) ↔
      SafeRows rows ∧ ((∀ row ∈ rows, row.Readable) → ∀ row ∈ rows, row.Unsigned) := by
  constructor
  · intro sound
    have safe : SafeRows rows := by
      by_contra wild
      rw [reads.panics_iff.mpr wild] at sound
      exact sound
    refine ⟨safe, fun all row member => ?_⟩
    obtain ⟨cues, rfl, count⟩ := reads.returns safe all
    have nonempty : cues ≠ [] := by
      rintro rfl
      rw [List.eq_nil_of_length_eq_zero count.symm] at member
      cases member
    rw [Checked.returns_bind, if_neg nonempty] at sound
    obtain ⟨i, inside, rfl⟩ := List.getElem_of_mem member
    exact ((List.forall₂_iff_get.mp sound).2 i (count ▸ inside) inside).unsigned
  · rintro ⟨safe, plain⟩
    cases parsed with
    | panics => exact absurd safe (reads.panics_iff.mp rfl)
    | fails e => trivial
    | returns cues =>
      obtain ⟨all, carries⟩ := reads.of_returns rfl
      rw [Checked.returns_bind]
      split
      · trivial
      · exact carries (plain all)

end Reading

section Times

/-- The times of a row, the start before the end. -/
def rowTimes (row : Row) : Checked Unit (Nat × Nat) := do
  let first ← .ofOption () row.start
  let startMs ← parseTime first
  let last ← .ofOption () row.finish
  let endMs ← parseTime last
  .returns (startMs, endMs)

structure TamelyTimed (row : Row) : Prop where
  start : ∀ token, row.start = some token → Tame token
  finish : ∀ first, row.start = some first → Readable first → ∀ token, row.finish = some token → Tame token

variable {row : Row}

theorem rowTimes_of_wild (wild : ¬ TamelyTimed row) : rowTimes row = .panics := by
  rw [rowTimes]
  cases start : row.start with
  | none => exact absurd ⟨fun _ there => (by cases start.symm.trans there), fun _ there => (by cases start.symm.trans there)⟩ wild
  | some first =>
    rw [Checked.ofOption_some, Checked.returns_bind]
    by_cases tame : Tame first
    · by_cases read : Readable first
      · obtain ⟨_, _, -, -, -, returned⟩ := parseTime_of_readable tame read
        rw [returned, Checked.returns_bind]
        cases finish : row.finish with
        | none =>
          refine absurd ⟨fun _ there => ?_, fun _ _ _ _ there => ?_⟩ wild
          · cases start.symm.trans there
            exact tame
          · cases finish.symm.trans there
        | some last =>
          have untamed : ¬ Tame last := fun tame_last => by
            refine wild ⟨fun _ there => ?_, fun _ _ _ _ there => ?_⟩
            · cases start.symm.trans there
              exact tame
            · cases finish.symm.trans there
              exact tame_last
          rw [Checked.ofOption_some, Checked.returns_bind, parseTime_of_not_tame untamed, Checked.panics_bind]
      · refine absurd ⟨fun _ there => ?_, fun _ there readable => ?_⟩ wild
        · cases start.symm.trans there
          exact tame
        · cases start.symm.trans there
          exact absurd readable read
    · rw [parseTime_of_not_tame tame, Checked.panics_bind]

theorem rowTimes_of_unreadable (tame : TamelyTimed row) (unreadable : ¬ row.Readable) : rowTimes row = .fails () := by
  rw [rowTimes]
  cases start : row.start with
  | none => rfl
  | some first =>
    rw [Checked.ofOption_some, Checked.returns_bind]
    by_cases read : Readable first
    · obtain ⟨_, _, -, -, -, returned⟩ := parseTime_of_readable (tame.start first start) read
      rw [returned, Checked.returns_bind]
      cases finish : row.finish with
      | none => rfl
      | some last =>
        have unread : ¬ Readable last := fun readable => unreadable ⟨first, last, start, read, finish, readable⟩
        rw [Checked.ofOption_some, Checked.returns_bind,
          parseTime_of_not_readable (tame.finish first start read last finish) unread, Checked.fails_bind]
    · rw [parseTime_of_not_readable (tame.start first start) read, Checked.fails_bind]

theorem rowTimes_of_readable (tame : TamelyTimed row) (readable : row.Readable) :
    ∃ startMs endMs, rowTimes row = .returns (startMs, endMs) ∧ startMs < u64 ∧ endMs < u64 ∧
      (row.Unsigned → ∃ first last, row.start = some first ∧ row.finish = some last ∧ Written first startMs ∧
        Written last endMs) := by
  obtain ⟨first, last, start, read, finish, read'⟩ := readable
  have tame_first := tame.start first start
  have tame_last := tame.finish first start read last finish
  obtain ⟨_, _, -, -, small, returned⟩ := parseTime_of_readable tame_first read
  obtain ⟨_, _, -, -, small', returned'⟩ := parseTime_of_readable tame_last read'
  refine ⟨_, _, ?_, small, small', fun plain => ⟨first, last, start, finish, ?_, ?_⟩⟩
  · rw [rowTimes, start, finish]
    simp only [Checked.ofOption_some, Checked.returns_bind, returned, returned']
  · exact written_of_parseTime tame_first read (plain.1 first start) returned
  · exact written_of_parseTime tame_last read' (plain.2 last finish) returned'

/-- A cue is read of its row and the others after it. -/
theorem Reads.cons {rest : List Row} {times : Checked String (Nat × Nat)} {later : Checked String (List SubtitleCue)}
    {index : UInt64} {text : List Char} (number : ∀ n, row.number = some n → n < u64)
    (same : times.mapError (fun _ => ()) = rowTimes row) (reads : Reads rest later) :
    Reads (row :: rest) (times >>= fun read => later >>= fun cues =>
      .returns (⟨index, .ofNat read.1, .ofNat read.2, text⟩ :: cues)) := by
  refine ⟨fun wild => ?_, fun tame unreadable => ?_, fun tame readable => ?_⟩
  · have untimely : ¬ TamelyTimed row := fun timed => wild ⟨number, timed.start, timed.finish⟩
    rw [rowTimes_of_wild untimely] at same
    cases times <;> cases same
    rfl
  · rw [rowTimes_of_unreadable ⟨tame.start, tame.finish⟩ unreadable] at same
    cases times <;> cases same
    exact ⟨_, rfl⟩
  · obtain ⟨startMs, endMs, returned, small, small', written⟩ :=
      rowTimes_of_readable ⟨tame.start, tame.finish⟩ readable
    rw [returned] at same
    cases times <;> cases same
    refine ⟨_, later, rfl, reads, fun plain => ?_⟩
    obtain ⟨first, last, start, finish, first_written, last_written⟩ := written plain
    refine ⟨first, last, start, finish, ?_, ?_⟩
    · have value : (UInt64.ofNat startMs).toNat = startMs := UInt64.toNat_ofNat_of_lt' small
      exact value.symm ▸ first_written
    · have value : (UInt64.ofNat endMs).toNat = endMs := UInt64.toNat_ofNat_of_lt' small'
      exact value.symm ▸ last_written

theorem Reads.fails_of_no_start (rest : List Row) (error : String) (none : row.start = none) (numberless : row.number = .none) :
    Reads (row :: rest) (.fails error) := by
  have tame : row.Tame := ⟨fun _ same => (by cases numberless.symm.trans same), fun _ same => (by cases none.symm.trans same),
    fun _ same => (by cases none.symm.trans same)⟩
  refine ⟨fun wild => absurd tame wild, fun _ _ => ⟨error, rfl⟩, fun _ readable => ?_⟩
  obtain ⟨_, _, start, -⟩ := readable
  cases none.symm.trans start

/-- Nothing is read of a row out of range. -/
theorem Reads.of_wild {rest : List Row} (wild : ¬ row.Tame) : Reads (row :: rest) .panics :=
  ⟨fun _ => rfl, fun tame => absurd tame wild, fun tame => absurd tame wild⟩

end Times

section Formats

theorem parseTiming_eq (line : List Char) (number : Option Nat) :
    parseTiming line = rowTimes ⟨number, (timesOf line).map (·.1), (timesOf line).map (·.2)⟩ := by
  rw [parseTiming, rowTimes, timesOf]
  cases cut : cutAtText arrow line with
  | none => rfl
  | some parts =>
    obtain ⟨before, after⟩ := parts
    cases start : firstWord before with
    | none => simp [start]
    | some first =>
      cases finish : firstWord after with
      | none => simp [start, finish]
      | some last => simp [start, finish]

theorem label_lt {ls : List (List Char)} {position n : Nat} (label : labelOf ls position = some n) : n < u64 := by
  obtain ⟨line, -, read⟩ := Option.bind_eq_some_iff.mp label
  rw [parseUnsigned_eq] at read
  simpa using (Option.filter_eq_some_iff.mp read).2

theorem parseBlocks_reads (blocks : List (List Char)) (previous : Nat) :
    Reads (srtRows blocks previous) (parseBlocks blocks previous) := by
  induction blocks generalizing previous with
  | nil => rfl
  | cons block rest ih =>
    rw [srtRows, parseBlocks]
    dsimp only
    cases found : (lines (trim block)).findIdx? hasArrow with
    | none => exact ih previous
    | some position =>
      dsimp only
      have times : ∀ number, ((parseTiming ((lines (trim block)).getD position [])).mapError fun _ =>
          "invalid subtitle timing").mapError (fun _ => ()) = rowTimes ⟨number,
            (timesOf ((lines (trim block)).getD position [])).map (·.1),
            (timesOf ((lines (trim block)).getD position [])).map (·.2)⟩ := by
        intro number
        rw [← parseTiming_eq]
        cases parseTiming ((lines (trim block)).getD position []) <;> rfl
      cases label : labelOf (lines (trim block)) position with
      | some n => exact Reads.cons (fun m same => Option.some.inj same ▸ label_lt label) (times _) (ih n)
      | none =>
        by_cases small : previous + 1 < u64
        · rw [Checked.within_of_lt small]
          exact Reads.cons (fun m same => Option.some.inj same ▸ small) (times _) (ih (previous + 1))
        · rw [Checked.within_of_le (Nat.not_lt.mp small)]
          exact Reads.of_wild fun tame => small (tame.number _ rfl)

theorem columnTime_pair (values : List (List Char)) (columns : Columns) (number : Option Nat) :
    (columnTime values columns.startColumn "invalid ASS start time" >>= fun startMs =>
        columnTime values columns.endColumn "invalid ASS end time" >>= fun endMs =>
          (Checked.returns (startMs, endMs) : Checked String (Nat × Nat))).mapError (fun _ => ()) =
      rowTimes ⟨number, values[columns.startColumn]?.map trim, values[columns.endColumn]?.map trim⟩ := by
  simp only [columnTime, rowTimes]
  cases values[columns.startColumn]? with
  | none => rfl
  | some first =>
    simp only [Checked.ofOption_some, Option.map_some, Checked.returns_bind]
    cases parseTime (trim first) with
    | panics => rfl
    | fails e => rfl
    | returns startMs =>
      cases values[columns.endColumn]? with
      | none => rfl
      | some last =>
        simp only [Checked.ofOption_some, Option.map_some, Checked.returns_bind, Checked.mapError]
        cases parseTime (trim last) <;> rfl

theorem formatColumns_ne_panics (columns : Columns) (format : List Char) : formatColumns columns format ≠ .panics := by
  simp [formatColumns, Checked.bind_eq_panics]

theorem parseEvents_reads (ls : List (List Char)) (columns : Columns) (count : Nat) :
    Reads (assRows ls columns) (parseEvents ls columns count) := by
  induction ls generalizing columns count with
  | nil => rfl
  | cons line rest ih =>
    rw [assRows, parseEvents]
    dsimp only
    split
    · exact ih _ count
    · split
      · exact ih columns count
      · cases stripEither "Format:" "format:" (trim line) with
        | some format =>
          dsimp only
          cases read : formatColumns columns format with
          | returns columns => exact ih columns count
          | fails e => exact Reads.fails_of_no_start [] e rfl rfl
          | panics => exact absurd read (formatColumns_ne_panics columns format)
        | none =>
          cases stripEither "Dialogue:" "dialogue:" (trim line) with
          | none => exact ih columns count
          | some dialogue =>
            have row := fun text => @Reads.cons _ _ _ _ (.ofNat (count + 1)) text (fun n same => by cases same)
              (columnTime_pair (dialogueColumns columns dialogue) columns none) (ih columns (count + 1))
            specialize row
              (((dialogueColumns columns dialogue)[columns.textColumn]?.map stripAssOverrides).getD [])
            dsimp only
            cases start : columnTime (dialogueColumns columns dialogue) columns.startColumn "invalid ASS start time" <;>
              rw [start] at row
            case returns startMs =>
              cases finish : columnTime (dialogueColumns columns dialogue) columns.endColumn "invalid ASS end time" <;>
                rw [finish] at row <;> exact row
            all_goals exact row

end Formats

/-- A file is read without a panic into cues with the times written in it, or refused, if and only if
every time and number that is reached stays in range and is cut between characters, and, where all
rows can be read, no fraction of a second has a sign. -/
theorem parseSubtitle_sound_iff (format text : List Char) :
    (parseSubtitle format text).Sound (fun cues => List.Forall₂ Carries cues (rowsOf format text)) ↔
      SafeRows (rowsOf format text) ∧
        ((∀ row ∈ rowsOf format text, row.Readable) → ∀ row ∈ rowsOf format text, row.Unsigned) := by
  have refused : ∀ error : String, (Checked.fails error : Checked String (List SubtitleCue)).Sound
      (fun cues => List.Forall₂ Carries cues []) ↔
        SafeRows [] ∧ ((∀ row ∈ ([] : List Row), row.Readable) → ∀ row ∈ ([] : List Row), row.Unsigned) :=
    fun _ => ⟨fun _ => ⟨trivial, fun _ => nofun⟩, fun _ => trivial⟩
  rw [parseSubtitle, rowsOf]
  cases formatOf format with
  | none => exact refused _
  | some kind =>
    cases kind with
    | srt =>
      dsimp only
      rw [parseSrt]
      by_cases empty : withoutMark text = []
      · rw [if_pos empty, if_pos (.inl empty)]
        exact refused _
      · rw [if_neg empty]
        by_cases untimed : ¬ hasArrow (normalized text) = true
        · rw [if_pos untimed, if_pos (.inr untimed)]
          exact refused _
        · rw [if_neg untimed, if_neg (not_or.mpr ⟨empty, untimed⟩)]
          exact (parseBlocks_reads _ 0).sound_iff _
    | ass =>
      dsimp only
      rw [parseAss]
      by_cases events : hasEvents text = true
      · rw [if_neg (not_not.mpr events), if_pos events]
        exact (parseEvents_reads _ {} 0).sound_iff _
      · rw [if_pos events, if_neg events]
        exact refused _

/-- The third byte of the fraction is the first of two of a letter. -/
theorem cut_letter_panics :
    ¬ ∀ format text : List Char,
      (parseSubtitle format text).Sound (fun cues => List.Forall₂ Carries cues (rowsOf format text)) := by
  intro sound
  have lost : parseSubtitle "srt".toList "1\n00:00:01,000 --> 00:00:02,12é\nHi".toList = .panics := by decide +kernel
  have here := sound "srt".toList "1\n00:00:01,000 --> 00:00:02,12é\nHi".toList
  rw [lost] at here
  exact here

end NixHomeServer.MediaManager.Subtitles
