import NixHomeServer.Library.Bytes
import NixHomeServer.Library.Checked
import NixHomeServer.Library.Keyed
import NixHomeServer.Library.Lines
import NixHomeServer.Library.Numerals
import NixHomeServer.Library.Text

/-! Header blocks of WARC records and HTTP responses: how they are cut out of a
stream, and how their lines are read. -/
namespace NixHomeServer.Browsertrix.Engine

open NixHomeServer.Library

abbrev Bytes := List UInt8
abbrev Text := List Char
abbrev Result := Checked String

def cr : UInt8 := 13
def lf : UInt8 := 10
def crlf : Bytes := [cr, lf]

def maxHeader : Nat := 64 * 1024

/-- What a reader delivers before it ends or fails. -/
structure Stream where
  bytes : Bytes
  failure : Option String := none

def Stream.skip (s : Stream) (n : Nat) : Stream := { s with bytes := s.bytes.drop n }

/-- `take(limit).read_until(b'\n')`. -/
def readUntil (limit : Nat) (s : Stream) : Result (Bytes × Stream) :=
  let line := lineOf lf limit s.bytes
  if lf ∉ line ∧ line.length < limit ∧ s.failure.isSome then .fails (s.failure.getD "")
  else .returns (line, s.skip line.length)

theorem readUntil_eq_returns {limit : Nat} {s rest : Stream} {line : Bytes} (read : readUntil limit s = .returns (line, rest)) :
    line = lineOf lf limit s.bytes ∧ rest = s.skip line.length := by
  unfold readUntil at read
  dsimp only at read
  split at read
  · cases read
  · cases read
    exact ⟨rfl, rfl⟩

theorem readUntil_shrinks {limit : Nat} {s rest : Stream} {line : Bytes} (read : readUntil limit s = .returns (line, rest))
    (some : line ≠ []) : rest.bytes.length < s.bytes.length := by
  obtain ⟨own, rfl⟩ := readUntil_eq_returns read
  have whole := congrArg List.length (lineOf_append_drop lf limit s.bytes)
  rw [← own, List.length_append] at whole
  have positive := List.length_pos_of_ne_nil some
  show (s.bytes.drop line.length).length < s.bytes.length
  omega

theorem readUntil_ne_panics (limit : Nat) (s : Stream) : readUntil limit s ≠ .panics := by
  unfold readUntil
  dsimp only
  split <;> nofun

def readHeaderFrom (skipEmpty : Bool) (bytes : Bytes) (s : Stream) : Result (Option (Bytes × Stream)) :=
  match _read : readUntil (maxHeader + 1) s with
  | .fails e => .fails e
  | .panics => .panics
  | .returns (line, rest) =>
    if line = [] then
      if bytes = [] then .returns none else .fails "Truncated WARC/HTTP header"
    else if skipEmpty ∧ bytes = [] ∧ line = crlf then readHeaderFrom skipEmpty bytes rest
    else if bytes.length + line.length > maxHeader then .fails "Header size limit exceeded"
    else if line = crlf then .returns (some (bytes ++ line, rest))
    else readHeaderFrom skipEmpty (bytes ++ line) rest
termination_by s.bytes.length
decreasing_by all_goals exact readUntil_shrinks ‹_› ‹_›

def readHeader (skipEmpty : Bool) (s : Stream) : Result (Option (Bytes × Stream)) := readHeaderFrom skipEmpty [] s

/-- `header[..header.len() - 4]`. -/
def beforeEnd (header : Bytes) : Result Bytes :=
  if 4 ≤ header.length then .returns (header.take (header.length - 4)) else .panics

abbrev Headers := Keyed (Prod.fst : Text × Text → Text)

def Headers.field (h : Headers) (key : Text) : Option Text := (Keyed.get h key).map Prod.snd

def toAsciiLowercase (text : Text) : Text := text.map Char.toLower

def extendFirst (c : Char) : List Text → List Text
  | [] => [[c]]
  | part :: parts => (c :: part) :: parts

/-- `text.split("\r\n")`. -/
def splitCrlf : Text → List Text
  | [] => [[]]
  | '\r' :: '\n' :: rest => [] :: splitCrlf rest
  | c :: rest => extendFirst c (splitCrlf rest)

def structural : List Text :=
  ["content-length".toList, "warc-type".toList, "warc-target-uri".toList, "warc-record-id".toList, "warc-date".toList]

local instance lawfulHeaders : LawfulBEq (List Char) := inferInstance

def headerLine (out : Headers) (line : Text) : Result Headers :=
  if line = [] then .returns out
  else match cutAt ':' line with
    | none => .fails "Malformed header"
    | some (key, value) =>
      if (Keyed.get out (toAsciiLowercase key)).isSome ∧ toAsciiLowercase key ∈ structural then
        .fails "Duplicate structural header"
      else .returns (Keyed.put out (toAsciiLowercase key, trim value))

def headerLines (out : Headers) : List Text → Result Headers
  | [] => .returns out
  | line :: lines => do
    let out ← headerLine out line
    headerLines out lines

def headers (bytes : Bytes) : Result (Text × Headers) := do
  .ensure (bytes.length ≤ maxHeader) "Header size limit exceeded"
  let text ← .ofOption "Non-UTF8 headers unsupported" (fromUtf8 bytes)
  match splitCrlf text with
  | [] => .fails "Empty header"
  | first :: lines => do
    let out ← headerLines .empty lines
    return (first, out)

section framing

/-- A header block at the head of a stream: lines that are not blank, behind blank
lines that are skipped, before the first line that is. -/
structure Block (skipEmpty : Bool) (s : Stream) (lines : List Bytes) (rest : Stream) : Prop where
  split : ∃ blanks, s.bytes = (List.replicate blanks crlf).flatten ++ (lines.flatten ++ (crlf ++ rest.bytes)) ∧
    (skipEmpty = false → blanks = 0)
  failure : rest.failure = s.failure
  whole : ∀ line ∈ lines, IsLine lf line ∧ line ≠ crlf
  short : lines.flatten.length + 2 ≤ maxHeader
  filled : skipEmpty = true → lines ≠ []

theorem isLine_crlf : IsLine lf crlf := ⟨[cr], by decide, rfl⟩

variable {skipEmpty : Bool} {s rest : Stream} {header : Bytes}

/-- A line of the stream that fits is what is read. -/
theorem readUntil_line {line after : Bytes} {limit : Nat} (whole : IsLine lf line) (short : line.length ≤ limit)
    (split : s.bytes = line ++ after) : readUntil limit s = .returns (line, { s with bytes := after }) := by
  have own : lineOf lf limit s.bytes = line := by rw [split, lineOf_of_isLine whole short]
  have marked : lf ∈ line := by
    obtain ⟨body, -, rfl⟩ := whole
    exact List.mem_append_right body List.mem_cons_self
  rw [readUntil, own]
  rw [if_neg fun both => both.1 marked, Stream.skip, split, List.drop_left]

/-- The header found after the lines that came before. -/
structure BlockFrom (skipEmpty : Bool) (bytes : Bytes) (s : Stream) (lines : List Bytes) (rest : Stream) : Prop where
  split : ∃ blanks, s.bytes = (List.replicate blanks crlf).flatten ++ (lines.flatten ++ (crlf ++ rest.bytes)) ∧
    (skipEmpty = false ∨ bytes ≠ [] → blanks = 0)
  failure : rest.failure = s.failure
  whole : ∀ line ∈ lines, IsLine lf line ∧ line ≠ crlf
  short : bytes.length + lines.flatten.length + 2 ≤ maxHeader
  filled : skipEmpty = true → bytes ++ lines.flatten ≠ []

theorem readHeaderFrom_sound (bytes : Bytes) (s : Stream)
    (read : readHeaderFrom skipEmpty bytes s = .returns (some (header, rest))) :
    ∃ lines, BlockFrom skipEmpty bytes s lines rest ∧ header = bytes ++ lines.flatten ++ crlf := by
  induction bytes, s using readHeaderFrom.induct skipEmpty with
  | case1 bytes s e failed =>
    rw [readHeaderFrom, failed] at read
    cases read
  | case2 bytes s lost => exact absurd lost (readUntil_ne_panics _ s)
  | case3 s rest' ended =>
    rw [readHeaderFrom, ended] at read
    dsimp only at read
    rw [if_pos rfl, if_pos rfl] at read
    cases read
  | case4 bytes s rest' some ended =>
    rw [readHeaderFrom, ended] at read
    dsimp only at read
    rw [if_pos rfl, if_neg some] at read
    cases read
  | case5 bytes s line rest' got filled blank ih =>
    rw [readHeaderFrom, got] at read
    dsimp only at read
    rw [if_neg filled, if_pos blank] at read
    obtain ⟨lines, block, same⟩ := ih read
    obtain ⟨blanks, split, _⟩ := block.split
    obtain ⟨own, rfl⟩ := readUntil_eq_returns got
    have whole := lineOf_append_drop lf (maxHeader + 1) s.bytes
    rw [← own] at whole
    obtain ⟨skips, rfl, rfl⟩ := blank
    refine ⟨lines, ⟨⟨blanks + 1, ?_, fun either => ?_⟩, block.failure, block.whole, block.short, block.filled⟩, same⟩
    · rw [← whole, List.replicate_succ, List.flatten_cons, List.append_assoc, ← split]
      rfl
    · exact either.elim (fun keeps => absurd (skips.symm.trans keeps) nofun) (fun some => absurd rfl some)
  | case6 bytes s line rest' got filled kept long =>
    rw [readHeaderFrom, got] at read
    dsimp only at read
    rw [if_neg filled, if_neg kept, if_pos long] at read
    cases read
  | case7 bytes s rest' got filled kept short =>
    rw [readHeaderFrom, got] at read
    dsimp only at read
    rw [if_neg filled, if_neg kept, if_neg short, if_pos rfl] at read
    cases read
    obtain ⟨own, rfl⟩ := readUntil_eq_returns got
    have whole := lineOf_append_drop lf (maxHeader + 1) s.bytes
    rw [← own] at whole
    have room : bytes.length + 2 ≤ maxHeader := Nat.not_lt.mp short
    refine ⟨[], ⟨⟨0, whole.symm, fun _ => rfl⟩, rfl, nofun, room, fun skips => ?_⟩, by rw [List.flatten_nil, List.append_nil]⟩
    rw [List.flatten_nil, List.append_nil]
    exact fun none => kept ⟨skips, none, rfl⟩
  | case8 bytes s line rest' got filled kept short other ih =>
    rw [readHeaderFrom, got] at read
    dsimp only at read
    rw [if_neg filled, if_neg kept, if_neg short, if_neg other] at read
    obtain ⟨lines, block, same⟩ := ih read
    obtain ⟨blanks, split, none⟩ := block.split
    obtain rfl : blanks = 0 := none (.inr (List.append_ne_nil_of_right_ne_nil bytes filled))
    obtain ⟨own, rfl⟩ := readUntil_eq_returns got
    have joined := lineOf_append_drop lf (maxHeader + 1) s.bytes
    rw [← own] at joined
    obtain whole | ⟨-, stopped⟩ := lineOf_cases lf (maxHeader + 1) s.bytes
    · rw [← own] at whole
      have room := block.short
      rw [List.length_append] at room
      refine ⟨line :: lines, ⟨⟨0, ?_, fun _ => rfl⟩, block.failure, ?_, ?_, fun skips => ?_⟩, ?_⟩
      · rw [← joined, List.flatten_cons, List.append_assoc]
        exact congrArg (line ++ ·) split
      · exact List.forall_mem_cons.mpr ⟨⟨whole, other⟩, block.whole⟩
      · rw [List.flatten_cons, List.length_append]
        omega
      · exact List.append_ne_nil_of_right_ne_nil bytes (List.append_ne_nil_of_left_ne_nil filled _)
      · rw [same, List.flatten_cons, List.append_assoc bytes]
    · rw [← own] at stopped
      obtain long | all := stopped
      · omega
      · have past : (s.skip line.length).bytes = [] := by
          show s.bytes.drop line.length = []
          rw [all, List.drop_length]
        rw [past] at split
        have count := congrArg List.length split
        simp only [List.length_append, crlf, List.length_cons, List.length_nil] at count
        omega

section steps

variable {bytes line after : Bytes} {s : Stream}

theorem readHeaderFrom_blank (split : s.bytes = crlf ++ after) :
    readHeaderFrom true [] s = readHeaderFrom true [] { s with bytes := after } := by
  rw [readHeaderFrom, readUntil_line isLine_crlf (by decide) split]
  dsimp only
  rw [if_neg isLine_crlf.ne_nil, if_pos ⟨rfl, rfl, rfl⟩]

theorem readHeaderFrom_line (whole : IsLine lf line) (other : line ≠ crlf) (split : s.bytes = line ++ after)
    (short : bytes.length + line.length ≤ maxHeader) :
    readHeaderFrom skipEmpty bytes s = readHeaderFrom skipEmpty (bytes ++ line) { s with bytes := after } := by
  rw [readHeaderFrom, readUntil_line whole (by omega) split]
  dsimp only
  rw [if_neg whole.ne_nil, if_neg fun all => other all.2.2, if_neg (Nat.not_lt.mpr short), if_neg other]

theorem readHeaderFrom_end (kept : skipEmpty = true → bytes ≠ []) (split : s.bytes = crlf ++ after)
    (short : bytes.length + crlf.length ≤ maxHeader) :
    readHeaderFrom skipEmpty bytes s = .returns (some (bytes ++ crlf, { s with bytes := after })) := by
  rw [readHeaderFrom, readUntil_line isLine_crlf (by decide) split]
  dsimp only
  rw [if_neg isLine_crlf.ne_nil, if_neg fun all => kept all.1 all.2.1, if_neg (Nat.not_lt.mpr short), if_pos rfl]

theorem readHeaderFrom_lines {lines : List Bytes} (whole : ∀ line ∈ lines, IsLine lf line ∧ line ≠ crlf)
    (split : s.bytes = lines.flatten ++ after) (short : bytes.length + lines.flatten.length ≤ maxHeader) :
    readHeaderFrom skipEmpty bytes s = readHeaderFrom skipEmpty (bytes ++ lines.flatten) { s with bytes := after } := by
  induction lines generalizing bytes s with
  | nil =>
    obtain rfl : s.bytes = after := split
    rw [List.flatten_nil, List.append_nil]
  | cons line lines ih =>
    rw [List.flatten_cons, List.length_append] at short
    rw [List.flatten_cons, List.append_assoc] at split
    obtain ⟨first, others⟩ := List.forall_mem_cons.mp whole
    rw [readHeaderFrom_line first.1 first.2 split (by omega), ih others rfl (by rw [List.length_append]; omega),
      List.flatten_cons, List.append_assoc]

theorem readHeaderFrom_blanks (blanks : Nat) (split : s.bytes = (List.replicate blanks crlf).flatten ++ after) :
    readHeaderFrom true [] s = readHeaderFrom true [] { s with bytes := after } := by
  induction blanks generalizing s with
  | zero =>
    obtain rfl : s.bytes = after := split
    rfl
  | succ blanks ih =>
    rw [List.replicate_succ, List.flatten_cons, List.append_assoc] at split
    rw [readHeaderFrom_blank split, ih rfl]

end steps

/-- What a header read from a stream is: the lines of a block and the blank line behind them. -/
theorem readHeader_eq_some : readHeader skipEmpty s = .returns (some (header, rest)) ↔
    ∃ lines, Block skipEmpty s lines rest ∧ header = lines.flatten ++ crlf := by
  constructor
  · intro read
    obtain ⟨lines, block, same⟩ := readHeaderFrom_sound [] s read
    obtain ⟨blanks, split, none⟩ := block.split
    have short := block.short
    rw [List.length_nil, Nat.zero_add] at short
    refine ⟨lines, ⟨⟨blanks, split, fun keeps => none (.inl keeps)⟩, block.failure, block.whole, short, ?_⟩, same⟩
    rintro skips rfl
    exact block.filled skips rfl
  · rintro ⟨lines, block, rfl⟩
    obtain ⟨blanks, split, none⟩ := block.split
    have short := block.short
    have cleared : readHeaderFrom skipEmpty [] s =
        readHeaderFrom skipEmpty [] { s with bytes := lines.flatten ++ (crlf ++ rest.bytes) } := by
      cases skipEmpty with
      | true => exact readHeaderFrom_blanks blanks split
      | false =>
        obtain rfl := none rfl
        obtain split : s.bytes = lines.flatten ++ (crlf ++ rest.bytes) := split
        rw [← split]
    have kept : skipEmpty = true → [] ++ lines.flatten ≠ [] := by
      intro skips empty
      obtain ⟨line, member⟩ := List.exists_mem_of_ne_nil lines (block.filled skips)
      exact (block.whole line member).1.ne_nil (List.flatten_eq_nil_iff.mp empty line member)
    rw [readHeader, cleared, readHeaderFrom_lines block.whole rfl (by rw [List.length_nil]; omega),
      readHeaderFrom_end kept rfl (by rw [List.nil_append]; exact short), List.nil_append, ← block.failure]

end framing

end NixHomeServer.Browsertrix.Engine
