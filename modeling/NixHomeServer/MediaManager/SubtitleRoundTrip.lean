import Mathlib.Data.List.TakeDrop
import NixHomeServer.MediaManager.SubtitleFormat

/-! What is rendered is read back. -/
namespace NixHomeServer.MediaManager.Subtitles

open NixHomeServer.Library

section Times

variable {separator : Char} {timestamp : UInt64}

theorem solid_of_isDigit {c : Char} (digit : c.isDigit = true) : isWhitespace c = false := by
  obtain ⟨low, high⟩ := isDigit_iff.mp digit
  simp [isWhitespace]
  omega

theorem not_digit_mem {c : Char} {text : List Char} (digits : ∀ c ∈ text, c.isDigit = true)
    (other : c.isDigit = false) : c ∉ text := by
  intro member
  rw [digits c member] at other
  cases other

theorem padded_digits {width n : Nat} : ∀ c ∈ padded width n, c.isDigit = true := fun _ => digits_of_leftpad

theorem length_padded {width n : Nat} (positive : 0 < width) (small : n < 10 ^ width) :
    (padded width n).length = width := by
  rw [padded, List.length_leftpad]
  exact Nat.max_eq_left ((Nat.length_toDigits_le_iff (by decide) positive).mpr small)

theorem utf8_digits {text : List Char} (digits : ∀ c ∈ text, c.isDigit = true) : (utf8 text).length = text.length := by
  refine length_utf8_of_ascii fun c member => ?_
  have := (isDigit_iff.mp (digits c member)).2
  omega

theorem leadingBytes_padded {n : Nat} (small : n < 1000) : leadingBytes (padded 3 n) = some (padded 3 n) := by
  have size : (utf8 (padded 3 n)).length = 3 := by
    rw [utf8_digits padded_digits, length_padded (by decide) small]
  have whole := splitAtByte_append (padded 3 n) []
  rw [List.append_nil, size] at whole
  rw [leadingBytes, size, Nat.min_self, whole]
  rfl

def clockOf (ms : Nat) : List (List Char) :=
  [padded 2 (ms / 3600000), padded 2 (ms / 60000 % 60), padded 2 (ms / 1000 % 60)]

theorem renderTime_eq : renderTime separator timestamp =
    [':'].intercalate (clockOf timestamp.toNat) ++ separator :: padded 3 (timestamp.toNat % 1000) := by
  simp [renderTime, clockOf, List.intercalate_cons_cons]

theorem clock_char {c : Char} {ms : Nat} (member : c ∈ [':'].intercalate (clockOf ms)) : c.isDigit = true ∨ c = ':' := by
  simp only [clockOf, List.intercalate_cons_cons, List.intercalate_singleton, List.mem_append, List.mem_singleton,
    padded] at member
  rcases member with (first | colon) | (second | colon) | third
  · exact .inl (digits_of_leftpad first)
  · exact .inr colon
  · exact .inl (digits_of_leftpad second)
  · exact .inr colon
  · exact .inl (digits_of_leftpad third)

/-- A rendered time has digits, colons and its mark, nothing else. -/
theorem renderTime_char {c : Char} (member : c ∈ renderTime separator timestamp) :
    c.isDigit = true ∨ c = ':' ∨ c = separator := by
  rw [renderTime_eq, List.mem_append, List.mem_cons] at member
  rcases member with clock | mark | fraction
  · exact (clock_char clock).imp_right .inl
  · exact .inr (.inr mark)
  · exact .inl (digits_of_leftpad fraction)

theorem splitTime_append {clock : List Char} (unmarked : ∀ c ∈ clock, isMark c = false) (mark : isMark separator = true)
    (fraction : List Char) : splitTime (clock ++ separator :: fraction) = (clock, fraction) := by
  rw [splitTime, List.span_eq_takeWhile_dropWhile, List.takeWhile_append_of_pos, List.dropWhile_append_of_pos]
  · simp [mark]
  all_goals exact fun c member => by simp [unmarked c member]

theorem splitOn_clockOf (ms : Nat) : ([':'].intercalate (clockOf ms)).splitOn ':' = clockOf ms := by
  refine List.splitOn_intercalate ':' (fun part member => ?_) (List.cons_ne_nil _ _)
  simp only [clockOf, List.mem_cons, List.not_mem_nil, or_false] at member
  rcases member with rfl | rfl | rfl
  all_goals exact not_digit_mem padded_digits rfl

theorem unmarked_of_isDigit {c : Char} (digit : c.isDigit = true) : isMark c = false := by
  have other : ∀ d : Char, d.isDigit = false → c ≠ d := fun d not_digit same => by
    rw [← same, digit] at not_digit
    cases not_digit
  simp [isMark, other ',' rfl, other '.' rfl]

/-- The parts of a timestamp come together again, at the top of the range too. -/
theorem addFields_clockOf {ms : Nat} (small : ms < u64) :
    addFields [padded 2 (ms / 60000 % 60), padded 2 (ms / 3600000)] (ms / 1000 % 60 * 1000) 60 =
      .returns (ms / 1000 * 1000) := by
  have bound : u64 = 18446744073709551616 := rfl
  have minutes : parseUnsigned 10 u64 (padded 2 (ms / 60000 % 60)) = some (ms / 60000 % 60) :=
    parseUnsigned_leftpad 2 (by omega)
  have hours : parseUnsigned 10 u64 (padded 2 (ms / 3600000)) = some (ms / 3600000) :=
    parseUnsigned_leftpad 2 (by omega)
  simp only [addFields, minutes, hours, Checked.ofOption_some, Checked.returns_bind]
  simp (disch := omega) only [Checked.within_of_lt, Checked.returns_bind, Checked.returns.injEq]
  omega

theorem parseTime_renderTime (mark : isMark separator = true) :
    parseTime (renderTime separator timestamp) = .returns timestamp.toNat := by
  have small : timestamp.toNat < u64 := timestamp.toNat_lt
  have unmarked : ∀ c ∈ [':'].intercalate (clockOf timestamp.toNat), isMark c = false := fun c member =>
    (clock_char member).elim unmarked_of_isDigit fun colon => colon ▸ rfl
  rw [renderTime_eq, parseTime, splitTime_append unmarked mark]
  generalize timestamp.toNat = ms at small
  have bound : u64 = 18446744073709551616 := rfl
  have seconds : parseUnsigned 10 u64 (padded 2 (ms / 1000 % 60)) = some (ms / 1000 % 60) :=
    parseUnsigned_leftpad 2 (by omega)
  have millis : parseUnsigned 10 u64 (padded 3 (ms % 1000)) = some (ms % 1000) := parseUnsigned_leftpad 3 (by omega)
  have size : (utf8 (padded 3 (ms % 1000))).length = 3 := by
    rw [utf8_digits padded_digits, length_padded (by decide) (by omega)]
  have below : ms / 1000 % 60 * 1000 < u64 := by omega
  have fields : (clockOf ms).reverse =
      [padded 2 (ms / 1000 % 60), padded 2 (ms / 60000 % 60), padded 2 (ms / 3600000)] := rfl
  dsimp only
  rw [splitOn_clockOf, fields]
  simp only [seconds, Checked.ofOption_some, Checked.returns_bind, Checked.within_of_lt below,
    addFields_clockOf small, leadingBytes_padded (Nat.mod_lt ms (by decide : 0 < 1000)), Checked.unwrap_some, millis,
    size, Nat.sub_self, Nat.pow_zero, Nat.mul_one]
  have fraction : ms % 1000 < u64 := by omega
  rw [Checked.within_of_lt fraction, Checked.returns_bind, Nat.div_add_mod', Checked.within_of_lt small]

/-- Neither white space nor a part of an arrow stands in a rendered time. -/
theorem renderTime_plain (mark : isMark separator = true) :
    ∀ c ∈ renderTime separator timestamp, isWhitespace c = false ∧ c ≠ '-' := by
  have marks : separator = ',' ∨ separator = '.' := by simpa [isMark] using mark
  intro c member
  rcases renderTime_char member with digit | rfl | rfl
  · exact ⟨solid_of_isDigit digit, fun same => by rw [same] at digit; cases digit⟩
  · exact ⟨rfl, by decide⟩
  · rcases marks with rfl | rfl <;> exact ⟨rfl, by decide⟩

theorem renderTime_ne_nil : renderTime separator timestamp ≠ [] := by
  rw [renderTime_eq]
  exact List.append_ne_nil_of_right_ne_nil _ (List.cons_ne_nil _ _)

def timingLine (separator : Char) (cue : SubtitleCue) : List Char :=
  renderTime separator cue.startMs ++ " --> ".toList ++ renderTime separator cue.endMs

theorem timingLine_eq (cue : SubtitleCue) : timingLine separator cue =
    (renderTime separator cue.startMs ++ [' ']) ++ arrow ++ (' ' :: renderTime separator cue.endMs) := by
  simp [timingLine, arrow]

theorem cut_timingLine (mark : isMark separator = true) (cue : SubtitleCue) : cutAtText arrow (timingLine separator cue) =
    some (renderTime separator cue.startMs ++ [' '], ' ' :: renderTime separator cue.endMs) := by
  have absent : '-' ∉ renderTime separator cue.startMs ++ [' '] := by
    intro member
    rcases List.mem_append.mp member with time | blank
    · exact (renderTime_plain mark _ time).2 rfl
    · exact absurd (List.mem_singleton.mp blank) (by decide)
  rw [timingLine_eq]
  exact cutAtText_append absent _

theorem parseTiming_timingLine (mark : isMark separator = true) (cue : SubtitleCue) :
    parseTiming (timingLine separator cue) = .returns (cue.startMs.toNat, cue.endMs.toNat) := by
  have blank : ∀ c ∈ [' '], isWhitespace c = true := forall_of_all (by decide)
  have start : firstWord (renderTime separator cue.startMs ++ [' ']) = some (renderTime separator cue.startMs) :=
    firstWord_append renderTime_ne_nil (fun c member => (renderTime_plain mark c member).1) blank [] nofun
  have finish : firstWord (' ' :: renderTime separator cue.endMs) = some (renderTime separator cue.endMs) := by
    have nonempty : renderTime separator cue.endMs ≠ [] := renderTime_ne_nil
    have word : firstWord ([' '] ++ renderTime separator cue.endMs ++ []) = some (renderTime separator cue.endMs) :=
      firstWord_append nonempty (fun c member => (renderTime_plain mark c member).1)
        (fun _ absent => absurd absent List.not_mem_nil) [' '] blank
    rwa [List.append_nil] at word
  simp only [parseTiming, cut_timingLine mark, start, finish, Checked.ofOption_some, Checked.returns_bind,
    parseTime_renderTime mark]

end Times

section Blocks

variable {separator : Char} {cue : SubtitleCue} {previous : Option (UInt64 × UInt64)}

/-- What of an accepted cue's text the parser depends on. -/
structure Plain (text : List Char) : Prop where
  nonempty : text ≠ []
  trimmed : trim text = text
  no_return : '\r' ∉ text
  no_arrow : hasArrow text = false
  no_blank_line : ∀ line ∈ text.splitOn '\n', trim line ≠ []

theorem plain_of_accepted (accepted : rejected previous cue = false) : Plain cue.text := by
  simp only [rejected, Bool.or_eq_false_iff, decide_eq_false_iff_not, List.any_eq_false, not_or, decide_eq_true_eq,
    Decidable.not_not, Bool.or_eq_true] at accepted
  obtain ⟨⟨⟨⟨⟨-, nonempty⟩, trimmed⟩, plain⟩, no_arrow⟩, no_blank_line⟩ := accepted
  exact ⟨nonempty, trimmed, fun member => (plain _ member).1 rfl, no_arrow, no_blank_line⟩

def blockLines (separator : Char) (cue : SubtitleCue) : List (List Char) :=
  Nat.toDigits 10 cue.index.toNat :: timingLine separator cue :: cue.text.splitOn '\n'

theorem digits_of_index (n : Nat) : ∀ c ∈ Nat.toDigits 10 n, c.isDigit = true := fun _ =>
  Nat.isDigit_of_mem_toDigits (by decide) (by decide)

theorem intercalate_blockLines : ['\n'].intercalate (blockLines separator cue) =
    Nat.toDigits 10 cue.index.toNat ++ '\n' :: timingLine separator cue ++ '\n' :: cue.text := by
  obtain ⟨line, more, split⟩ := List.exists_cons_of_ne_nil (List.splitOn_ne_nil '\n' cue.text)
  have text := @List.intercalate_splitOn _ cue.text _ _ '\n'
  rw [split] at text
  rw [blockLines, split, List.intercalate_cons_cons, List.intercalate_cons_cons, text]
  simp

theorem renderCue_eq (right : List Char) : renderCue separator cue ++ right =
    ['\n'].intercalate (blockLines separator cue) ++ '\n' :: '\n' :: right := by
  simp [renderCue, intercalate_blockLines, timingLine]

theorem timingLine_unbroken (mark : isMark separator = true) : ∀ c ∈ timingLine separator cue, c ≠ '\n' ∧ c ≠ '\r' := by
  have between : ∀ c ∈ " --> ".toList, c ≠ '\n' ∧ c ≠ '\r' := forall_of_all (by decide)
  intro c member
  have times : ∀ t, c ∈ renderTime separator t → c ≠ '\n' ∧ c ≠ '\r' := fun t time => by
    have solid := (renderTime_plain mark c time).1
    constructor <;> rintro rfl <;> exact absurd solid (by decide)
  simp only [timingLine, List.mem_append] at member
  rcases member with (start | middle) | finish
  · exact times _ start
  · exact between c middle
  · exact times _ finish

theorem blockLines_clean (mark : isMark separator = true) (plain : Plain cue.text) :
    ∀ line ∈ blockLines separator cue, line ≠ [] ∧ '\n' ∉ line ∧ '\r' ∉ line := by
  intro line member
  simp only [blockLines, List.mem_cons] at member
  rcases member with rfl | rfl | inside
  · exact ⟨Nat.toDigits_ne_nil, not_digit_mem (digits_of_index _) rfl, not_digit_mem (digits_of_index _) rfl⟩
  · have apart : ∀ c ∈ timingLine separator cue, c ≠ '\n' ∧ c ≠ '\r' := timingLine_unbroken mark
    refine ⟨?_, fun found => (apart _ found).1 rfl, fun found => (apart _ found).2 rfl⟩
    rw [timingLine, List.append_assoc]
    exact List.append_ne_nil_of_left_ne_nil renderTime_ne_nil _
  · obtain ⟨absent, within⟩ := mem_splitOn inside
    refine ⟨fun empty => plain.no_blank_line line inside ?_, absent, fun found => plain.no_return (within _ found)⟩
    rw [empty]
    rfl

theorem trim_block (plain : Plain cue.text) : trim (['\n'].intercalate (blockLines separator cue)) =
    ['\n'].intercalate (blockLines separator cue) := by
  obtain ⟨front, last, ends, solid⟩ := last_of_trimBy_eq plain.trimmed plain.nonempty
  obtain ⟨first, rest, starts⟩ := List.exists_cons_of_ne_nil (Nat.toDigits_ne_nil (n := cue.index.toNat) (b := 10))
  have digit := digits_of_index cue.index.toNat first (starts ▸ List.mem_cons_self)
  have whole := trimBy_of_solid_ends (solid_of_isDigit digit)
    (rest ++ '\n' :: timingLine separator cue ++ '\n' :: front) solid
  rw [intercalate_blockLines, starts, ends, trim]
  simpa using whole

theorem findIdx_blockLines (mark : isMark separator = true) :
    (blockLines separator cue).findIdx? hasArrow = some 1 := by
  have index : hasArrow (Nat.toDigits 10 cue.index.toNat) = false := by
    rw [hasArrow, arrow, show "-->".toList = ['-', '-', '>'] from rfl,
      cutAtText_of_not_mem (not_digit_mem (digits_of_index _) rfl)]
    rfl
  have timing : hasArrow (timingLine separator cue) = true := by
    rw [hasArrow, cut_timingLine mark]
    rfl
  simp [blockLines, List.findIdx?_cons, index, timing]

theorem labelOf_blockLines : labelOf (blockLines separator cue) 1 = some cue.index.toNat := by
  have digits := digits_of_index cue.index.toNat
  have trimmed : trim (Nat.toDigits 10 cue.index.toNat) = Nat.toDigits 10 cue.index.toNat :=
    trimBy_of_solid fun c member => solid_of_isDigit (digits c member)
  have small : cue.index.toNat < u64 := cue.index.toNat_lt
  have read := parseUnsigned_leftpad 0 small
  simp only [labelOf, blockLines, Nat.sub_self, List.getElem?_cons_zero, Option.bind_some, trimmed]
  simpa [List.leftpad] using read

/-- A rendered block gives its cue back. -/
theorem parseBlocks_block (mark : isMark separator = true) (plain : Plain cue.text) (rest : List (List Char)) (n : Nat) :
    parseBlocks (['\n'].intercalate (blockLines separator cue) :: rest) n =
      parseBlocks rest cue.index.toNat >>= fun cues => .returns (cue :: cues) := by
  have ls : lines (['\n'].intercalate (blockLines separator cue)) = blockLines separator cue :=
    lines_intercalate (List.cons_ne_nil _ _) (blockLines_clean mark plain)
  have trimmed : trim cue.text = cue.text := plain.trimmed
  rw [parseBlocks, trim_block plain]
  dsimp only
  rw [ls, findIdx_blockLines mark]
  dsimp only
  rw [labelOf_blockLines]
  simp only [Checked.returns_bind, blockLines, List.getD_cons_succ, List.getD_cons_zero, parseTiming_timingLine mark,
    Checked.mapError, List.drop_succ_cons, List.drop_zero, List.intercalate_splitOn, trimmed, UInt64.ofNat_toNat]

theorem splitText_renderCue (mark : isMark separator = true) (plain : Plain cue.text) (right : List Char) :
    splitText ['\n', '\n'] (renderCue separator cue ++ right) =
      ['\n'].intercalate (blockLines separator cue) :: splitText ['\n', '\n'] right := by
  rw [renderCue_eq, splitText]
  exact splitFrom_intercalate (List.cons_ne_nil _ _)
    (fun line member => (blockLines_clean mark plain line member).imp_right And.left) right

theorem renderCues_cons {rest : List SubtitleCue} {output : List Char}
    (rendered : renderCues separator previous (cue :: rest) = .ok output) :
    ∃ text, Plain cue.text ∧ renderCues separator (some (cue.index, cue.startMs)) rest = .ok text ∧
      output = renderCue separator cue ++ text := by
  rw [renderCues] at rendered
  split at rendered
  · cases rendered
  · rename_i accepted
    cases later : renderCues separator (some (cue.index, cue.startMs)) rest with
    | error e =>
      rw [later] at rendered
      cases rendered
    | ok text =>
      rw [later] at rendered
      cases rendered
      exact ⟨text, plain_of_accepted (Bool.not_eq_true _ ▸ accepted), rfl, rfl⟩

theorem parseBlocks_renderCues (mark : isMark separator = true) {cues : List SubtitleCue} {output : List Char}
    (rendered : renderCues separator previous cues = .ok output) (n : Nat) :
    parseBlocks (splitText ['\n', '\n'] output) n = .returns cues := by
  induction cues generalizing previous output n with
  | nil =>
    cases rendered
    rfl
  | cons cue rest ih =>
    obtain ⟨text, plain, later, rfl⟩ := renderCues_cons rendered
    rw [splitText_renderCue mark plain, parseBlocks_block mark plain, ih later, Checked.returns_bind]

end Blocks

section Payloads

variable {separator : Char} {previous : Option (UInt64 × UInt64)} {cues : List SubtitleCue} {output : List Char}

theorem no_return_renderCues (mark : isMark separator = true)
    (rendered : renderCues separator previous cues = .ok output) : '\r' ∉ output := by
  induction cues generalizing previous output with
  | nil =>
    cases rendered
    exact List.not_mem_nil
  | cons cue rest ih =>
    obtain ⟨text, plain, later, rfl⟩ := renderCues_cons rendered
    have cueless : '\r' ∉ renderCue separator cue := by
      rw [← List.append_nil (renderCue separator cue), renderCue_eq, intercalate_blockLines]
      intro member
      simp only [List.mem_append, List.mem_cons, List.not_mem_nil, or_false] at member
      rcases member with ((index | newline | timing) | newline | text) | newline | newline
      · exact not_digit_mem (digits_of_index _) rfl index
      · cases newline
      · exact (timingLine_unbroken mark _ timing).2 rfl
      · cases newline
      · exact plain.no_return text
      · cases newline
      · cases newline
    exact fun member => (List.mem_append.mp member).elim cueless (ih later)

theorem hasArrow_renderCue (cue : SubtitleCue) (left right : List Char) :
    hasArrow (left ++ (renderCue separator cue ++ right)) = true := by
  have found : arrow <:+: left ++ (renderCue separator cue ++ right) := by
    refine ⟨left ++ Nat.toDigits 10 cue.index.toNat ++ '\n' :: renderTime separator cue.startMs ++ [' '],
      ' ' :: renderTime separator cue.endMs ++ '\n' :: cue.text ++ '\n' :: '\n' :: right, ?_⟩
    rw [renderCue_eq, intercalate_blockLines, timingLine_eq]
    simp
  exact cutAtText_isSome_iff.mpr found

/-- The first character is a digit, not a byte order mark. -/
theorem withoutMark_renderCue (cue : SubtitleCue) (right : List Char) :
    withoutMark (renderCue separator cue ++ right) = renderCue separator cue ++ right := by
  obtain ⟨first, rest, starts⟩ := List.exists_cons_of_ne_nil (Nat.toDigits_ne_nil (n := cue.index.toNat) (b := 10))
  have digit := digits_of_index cue.index.toNat first (starts ▸ List.mem_cons_self)
  have other : first ≠ byteOrderMark := fun same => by
    rw [same] at digit
    cases digit
  rw [renderCue, starts, withoutMark]
  simp only [List.cons_append]
  rw [List.dropWhile_cons_of_neg (by simp [other])]

end Payloads

theorem normalized_of_clean {text : List Char} (clean : '\r' ∉ text) (unmarked : withoutMark text = text) :
    normalized text = text := by
  have kept : ∀ c ∈ text, (if c = '\r' then '\n' else c) = c := fun c member =>
    if_neg fun same : c = '\r' => clean (same ▸ member)
  rw [normalized, unmarked, replaceText_of_not_mem _ clean, List.map_congr_left kept, List.map_id']

/-- The heading of a VTT file is a block without an arrow. -/
theorem parseBlocks_heading (output : List Char) (n : Nat) :
    parseBlocks (splitText ['\n', '\n'] ("WEBVTT\n\n".toList ++ output)) n =
      parseBlocks (splitText ['\n', '\n'] output) n := by
  have split : splitFrom ['\n', '\n'] 0 (['\n'].intercalate ["WEBVTT".toList] ++ '\n' :: '\n' :: output) =
      ['\n'].intercalate ["WEBVTT".toList] :: splitFrom ['\n', '\n'] 0 output :=
    splitFrom_intercalate (List.cons_ne_nil _ _) (by decide) output
  have none : (lines (trim "WEBVTT".toList)).findIdx? hasArrow = none := by decide
  rw [List.intercalate_singleton] at split
  rw [splitText, show "WEBVTT\n\n".toList ++ output = "WEBVTT".toList ++ '\n' :: '\n' :: output from rfl, split,
    parseBlocks]
  dsimp only
  rw [none]
  rfl

/-- Whatever cues are rendered, as SRT or as VTT, the parser gives them back, and they are rendered
again to the same text. -/
theorem parseSrt_renderSubtitle {cues : List SubtitleCue} {vtt : Bool} {text : List Char} (nonempty : cues ≠ [])
    (rendered : renderSubtitle cues vtt = .ok text) :
    ∃ parsed, parseSrt text = .returns parsed ∧ parsed = cues ∧ renderSubtitle parsed vtt = .ok text := by
  refine ⟨cues, ?_, rfl, rendered⟩
  have mark : isMark (if vtt then '.' else ',') = true := by cases vtt <;> rfl
  obtain ⟨cue, rest, rfl⟩ := List.exists_cons_of_ne_nil nonempty
  cases output : renderCues (if vtt then '.' else ',') none (cue :: rest) with
  | error e =>
    rw [renderSubtitle, output] at rendered
    cases rendered
  | ok payload =>
    have whole : text = (if vtt then "WEBVTT\n\n".toList else []) ++ payload := by
      rw [renderSubtitle, output] at rendered
      exact (Except.ok.inj rendered).symm
    obtain ⟨later, -, -, starts⟩ := renderCues_cons output
    have clean : '\r' ∉ text := by
      rw [whole, List.mem_append, not_or]
      exact ⟨by cases vtt <;> decide, no_return_renderCues mark output⟩
    have unmarked : withoutMark text = text := by
      rw [whole, starts]
      cases vtt
      · exact withoutMark_renderCue cue later
      · rfl
    have solid : text ≠ [] := by
      rw [whole, starts]
      exact List.append_ne_nil_of_right_ne_nil _ (List.append_ne_nil_of_left_ne_nil (by simp [renderCue]) _)
    have timed : hasArrow text = true := by
      rw [whole, starts]
      exact hasArrow_renderCue cue _ later
    have read : parseBlocks (splitText ['\n', '\n'] text) 0 = .returns (cue :: rest) := by
      rw [whole]
      cases vtt
      · exact parseBlocks_renderCues mark output 0
      · exact (parseBlocks_heading payload 0).trans (parseBlocks_renderCues mark output 0)
    rw [parseSrt, unmarked, if_neg solid, normalized_of_clean clean unmarked, if_neg (by simp [timed]), read,
      Checked.returns_bind, if_neg (List.cons_ne_nil cue rest)]

theorem top_of_range_round_trip :
    ∃ parsed, parseSrt "7\n00:00:00,999 --> 5124095576030:25:51,615\né\nb\n\n".toList = .returns parsed ∧
      parsed = [⟨7, 999, 18446744073709551615, "é\nb".toList⟩] ∧
      renderSubtitle parsed false = .ok "7\n00:00:00,999 --> 5124095576030:25:51,615\né\nb\n\n".toList :=
  parseSrt_renderSubtitle (List.cons_ne_nil _ _) rfl

end NixHomeServer.MediaManager.Subtitles
