import NixHomeServer.Library.Base64
import NixHomeServer.Library.Checked
import NixHomeServer.Library.Lossy
import NixHomeServer.Library.Numerals
import NixHomeServer.Library.Patterns
import NixHomeServer.Library.Utf8

/-! The decoding of the encoded words of a header, byte index by byte index, and what one
turn of its loop does. -/
namespace NixHomeServer.MailArchive.HeaderWords

open NixHomeServer.Library

abbrev Bytes := List UInt8
abbrev Text := List Char

section Words

def windows1252 (b : UInt8) : Char :=
  Char.ofNat <| match b.toNat with
    | 0x80 => 0x20ac
    | 0x82 => 0x201a
    | 0x83 => 0x0192
    | 0x84 => 0x201e
    | 0x85 => 0x2026
    | 0x86 => 0x2020
    | 0x87 => 0x2021
    | 0x88 => 0x02c6
    | 0x89 => 0x2030
    | 0x8a => 0x0160
    | 0x8b => 0x2039
    | 0x8c => 0x0152
    | 0x8e => 0x017d
    | 0x91 => 0x2018
    | 0x92 => 0x2019
    | 0x93 => 0x201c
    | 0x94 => 0x201d
    | 0x95 => 0x2022
    | 0x96 => 0x2013
    | 0x97 => 0x2014
    | 0x98 => 0x02dc
    | 0x99 => 0x2122
    | 0x9a => 0x0161
    | 0x9b => 0x203a
    | 0x9c => 0x0153
    | 0x9e => 0x017e
    | 0x9f => 0x0178
    | value => value

def decodeWindows1252 (bytes : Bytes) : Text := bytes.map windows1252

def named (names : List String) (charset : Text) : Bool := names.any fun name => name.toList == charset.map Char.toLower

def utf8Names : List String := ["utf-8", "utf8", "us-ascii"]
def windowsNames : List String := ["windows-1252", "cp1252"]
def latinNames : List String := ["iso-8859-1", "latin1", "latin-1"]

def decodeHeaderBytes (charset : Text) (bytes : Bytes) : Text :=
  if named utf8Names charset then fromUtf8Lossy bytes
  else if named windowsNames charset then decodeWindows1252 bytes
  else if named latinNames charset then bytes.map fun b => Char.ofNat b.toNat
  else fromUtf8Lossy bytes

def hexByte (high low : UInt8) : Option UInt8 := do
  let hex ← fromUtf8 [high, low]
  let value ← parseUnsigned 16 256 hex
  return UInt8.ofNat value

def decodeRfc2047Q : Bytes → Option Bytes
  | [] => some []
  | b :: rest =>
    if b = 0x5F then (decodeRfc2047Q rest).map (0x20 :: ·)
    else if b = 0x3D then match rest with
      | high :: low :: after => do
        let value ← hexByte high low
        let bytes ← decodeRfc2047Q after
        return value :: bytes
      | _ => none
    else (decodeRfc2047Q rest).map (b :: ·)

def decodeRfc2047Word (charset encoding encoded : Text) : Option Text :=
  let bytes :=
    if encoding.map Char.toUpper = ['Q'] then decodeRfc2047Q (utf8 encoded)
    else if encoding.map Char.toUpper = ['B'] then fromBase64 encoded
    else none
  bytes.map (decodeHeaderBytes charset)

end Words

section Loop

def sliceFrom (text : Text) (index : Nat) : Checked Empty Text := .unwrap ((splitAtByte text index).map Prod.snd)

def sliceTo (text : Text) (index : Nat) : Checked Empty Text := .unwrap ((splitAtByte text index).map Prod.fst)

def find (c : Char) (text : Text) : Option Nat := (cutAt c text).map fun parts => (utf8 parts.1).length

def findText (pattern text : Text) : Option Nat := (cutAtText pattern text).map fun parts => (utf8 parts.1).length

/-- What starts with `=?` at an index. -/
inductive Start
  | unfinished
  | word (decoded : Text) (charsetEnd encodingEnd encodedEnd : Nat)
  | other
  deriving DecidableEq, Repr

def start (raw : Text) (index : Nat) : Checked Empty Start := do
  let rest ← sliceFrom raw (index + 2)
  match find '?' rest with
  | none => return .unfinished
  | some charsetEnd =>
    let charset ← sliceTo rest charsetEnd
    let rest ← sliceFrom rest (charsetEnd + 1)
    match find '?' rest with
    | none => return .unfinished
    | some encodingEnd =>
      let encoding ← sliceTo rest encodingEnd
      let rest ← sliceFrom rest (encodingEnd + 1)
      match findText ['?', '='] rest with
      | none => return .unfinished
      | some encodedEnd =>
        let encoded ← sliceTo rest encodedEnd
        match decodeRfc2047Word charset encoding encoded with
        | some decoded => return .word decoded charsetEnd encodingEnd encodedEnd
        | none => return .other

def finish (output : Text) (decodedAny : Bool) : Option Text := if decodedAny then some (trim output) else none

/-- The space before a word is taken back if a word seems to stand before it. -/
def takeBack (raw : Text) (index : Nat) (output : Text) : Checked Empty Text := do
  if output.getLast? = some ' ' then
    let before ← sliceTo raw index
    return if ['?', '='].isSuffixOf (trimEnd before) then output.dropLast else output
  else return output

def loop (raw : Text) (index : Nat) (output : Text) (decodedAny : Bool) : Checked Empty (Option Text) :=
  if index < (utf8 raw).length then do
    let here ←
      if (utf8 raw)[index]? = some 0x3D ∧ (utf8 raw)[index + 1]? = some 0x3F then start raw index
      else pure .other
    match here with
    | .unfinished =>
      let rest ← sliceFrom raw index
      return finish (output ++ rest) decodedAny
    | .word decoded charsetEnd encodingEnd encodedEnd =>
      let output ← takeBack raw index output
      loop raw (index + (2 + charsetEnd + 1 + encodingEnd + 1 + encodedEnd + 2)) (output ++ decoded) true
    | .other =>
      match ← sliceFrom raw index with
      | [] => return none
      | character :: _ => loop raw (index + character.utf8Size) (output ++ [character]) decodedAny
  else return finish output decodedAny
termination_by (utf8 raw).length - index
decreasing_by
  · omega
  · have positive := character.utf8Size_pos
    omega

def decodeRfc2047Words (raw : Text) : Checked Empty (Option Text) := loop raw 0 [] false

def decodeDisplayHeaderValue (raw : Text) : Checked Empty Text := do
  if (cutAtText ['=', '?'] raw).isNone then return raw
  else return (← decodeRfc2047Words raw).getD raw

end Loop

section Turns

variable {before rest output : Text} {any : Bool}

/-- The parts of what starts with `=?`, and the text after it. -/
def readWord (rest : Text) : Option (Text × Text × Text × Text) := do
  let (charset, rest) ← cutAt '?' rest
  let (encoding, rest) ← cutAt '?' rest
  let (encoded, after) ← cutAtText ['?', '='] rest
  return (charset, encoding, encoded, after)

/-- The word that is decoded at the start of a text, and the text after it. -/
def wordAt : Text → Option (Text × Text)
  | '=' :: '?' :: rest => do
    let (charset, encoding, encoded, after) ← readWord rest
    let decoded ← decodeRfc2047Word charset encoding encoded
    return (decoded, after)
  | _ => none

def takenBack (before output : Text) : Text :=
  if output.getLast? = some ' ' ∧ ['?', '='].isSuffixOf (trimEnd before) = true then output.dropLast else output

theorem sliceFrom_append (left right : Text) : sliceFrom (left ++ right) (utf8 left).length = .returns right := by
  rw [sliceFrom, splitAtByte_append]
  rfl

theorem sliceTo_append (left right : Text) : sliceTo (left ++ right) (utf8 left).length = .returns left := by
  rw [sliceTo, splitAtByte_append]
  rfl

theorem sliceFrom_after (left : Text) (right : Text) (middle : Text) {n : Nat} (size : (utf8 middle).length = n) :
    sliceFrom (left ++ middle ++ right) ((utf8 left).length + n) = .returns right := by
  have whole := sliceFrom_append (left ++ middle) right
  rwa [utf8_append, List.length_append, size] at whole

theorem start_eq (before rest : Text) : start (before ++ '=' :: '?' :: rest) (utf8 before).length =
    .returns (match readWord rest with
      | none => .unfinished
      | some (charset, encoding, encoded, _) => match decodeRfc2047Word charset encoding encoded with
        | some decoded => .word decoded (utf8 charset).length (utf8 encoding).length (utf8 encoded).length
        | none => .other) := by
  have head := sliceFrom_after before rest ['=', '?'] (n := 2) rfl
  rw [List.append_assoc] at head
  unfold start readWord
  change sliceFrom (before ++ '=' :: '?' :: rest) _ = _ at head
  rw [head]
  cases first : cutAt '?' rest with
  | none => simp [find, first]
  | some parts =>
    obtain ⟨charset, rest₁⟩ := parts
    obtain ⟨rfl, -⟩ := cutAt_eq_some first
    have to_charset := sliceTo_append charset ('?' :: rest₁)
    have from_charset := sliceFrom_after charset rest₁ ['?'] (n := 1) rfl
    rw [List.append_assoc] at from_charset
    change sliceFrom (charset ++ '?' :: rest₁) _ = _ at from_charset
    cases second : cutAt '?' rest₁ with
    | none => simp [find, first, second, to_charset, from_charset]
    | some parts =>
      obtain ⟨encoding, rest₂⟩ := parts
      obtain ⟨rfl, -⟩ := cutAt_eq_some second
      have to_encoding := sliceTo_append encoding ('?' :: rest₂)
      have from_encoding := sliceFrom_after encoding rest₂ ['?'] (n := 1) rfl
      rw [List.append_assoc] at from_encoding
      change sliceFrom (encoding ++ '?' :: rest₂) _ = _ at from_encoding
      cases third : cutAtText ['?', '='] rest₂ with
      | none => simp [find, findText, first, second, third, to_charset, from_charset, to_encoding, from_encoding]
      | some parts =>
        obtain ⟨encoded, after⟩ := parts
        have whole := cutAtText_eq_some third
        have to_encoded := sliceTo_append encoded (['?', '='] ++ after)
        rw [← List.append_assoc, ← whole] at to_encoded
        simp only [find, findText, first, second, third, to_charset, from_charset, to_encoding, from_encoding, to_encoded,
          Option.map_some, Checked.returns_bind, Option.bind_eq_bind, Option.bind_some, Checked.pure_eq, Option.pure_def]
        cases decodeRfc2047Word charset encoding encoded <;> rfl

theorem takeBack_eq (before rest output : Text) : takeBack (before ++ rest) (utf8 before).length output = .returns (takenBack before output) := by
  unfold takeBack takenBack
  by_cases space : output.getLast? = some ' '
  · rw [if_pos space, sliceTo_append, Checked.returns_bind]
    simp only [space, true_and]
    rfl
  · rw [if_neg space]
    simp [space]

theorem first_byte {b : UInt8} (low : b.toNat < 128) : (utf8 rest)[0]? = some b ↔ ∃ c tail, rest = c :: tail ∧ c.toNat = b.toNat := by
  constructor
  · intro found
    obtain ⟨left, c, right, rfl, none_before, value⟩ := boundary_of_low found low
    cases left with
    | nil => exact ⟨c, right, rfl, value⟩
    | cons x left =>
      have positive := length_le_utf8 (x :: left)
      rw [none_before] at positive
      cases positive
  · rintro ⟨c, tail, rfl, value⟩
    have ascii : c.toNat < 128 := by omega
    rw [utf8_cons, encode_of_ascii ascii, List.singleton_append, List.getElem?_cons_zero, value, UInt8.ofNat_toNat]

theorem opens_iff : ((utf8 (before ++ rest))[(utf8 before).length]? = some 0x3D ∧
    (utf8 (before ++ rest))[(utf8 before).length + 1]? = some 0x3F) ↔ ∃ tail, rest = '=' :: '?' :: tail := by
  have shift : ∀ n, (utf8 (before ++ rest))[(utf8 before).length + n]? = (utf8 rest)[n]? := by
    intro n
    rw [utf8_append, List.getElem?_append_right (by omega), Nat.add_sub_cancel_left]
  have same : ∀ {c d : Char}, c.toNat = d.toNat → c = d := fun equal => Char.ext (UInt32.toNat_inj.mp equal)
  rw [shift 1, show (utf8 before).length = (utf8 before).length + 0 from rfl, shift 0]
  constructor
  · rintro ⟨first, second⟩
    obtain ⟨c, tail, rfl, value⟩ := (first_byte (by decide)).mp first
    obtain rfl : c = '=' := same value
    rw [utf8_cons, encode_of_ascii (by decide), List.singleton_append, List.getElem?_cons_succ] at second
    obtain ⟨d, tail, rfl, value⟩ := (first_byte (by decide)).mp second
    obtain rfl : d = '?' := same value
    exact ⟨tail, rfl⟩
  · rintro ⟨tail, rfl⟩
    exact ⟨rfl, rfl⟩

theorem inside (before : Text) {c : Char} {tail : Text} : (utf8 before).length < (utf8 (before ++ c :: tail)).length := by
  have positive := length_le_utf8 (c :: tail)
  rw [utf8_append, List.length_append]
  simp only [List.length_cons] at positive
  omega

theorem loop_end (before output : Text) (any : Bool) : loop before (utf8 before).length output any = .returns (finish output any) := by
  rw [loop, if_neg (Nat.lt_irrefl _)]
  rfl

theorem readWord_eq_some {charset encoding encoded after : Text} (read : readWord rest = some (charset, encoding, encoded, after)) :
    rest = charset ++ '?' :: (encoding ++ '?' :: (encoded ++ '?' :: '=' :: after)) ∧ '?' ∉ charset ∧ '?' ∉ encoding := by
  simp only [readWord, Option.bind_eq_bind, Option.bind_eq_some_iff, Option.pure_def, Option.some.injEq, Prod.exists, Prod.mk.injEq] at read
  obtain ⟨charset, rest₁, first, encoding, rest₂, second, encoded, after, third, rfl, rfl, rfl, rfl⟩ := read
  obtain ⟨rfl, clean⟩ := cutAt_eq_some first
  obtain ⟨rfl, clean'⟩ := cutAt_eq_some second
  refine ⟨?_, clean, clean'⟩
  rw [cutAtText_eq_some third]
  simp

/-- A word is decoded and the loop goes on after it. -/
theorem loop_word {decoded consumed after : Text} (word : wordAt (consumed ++ after) = some (decoded, after)) :
    loop (before ++ consumed ++ after) (utf8 before).length output any =
      loop (before ++ consumed ++ after) (utf8 (before ++ consumed)).length (takenBack before output ++ decoded) true := by
  unfold wordAt at word
  split at word
  · rename_i rest same
    simp only [Option.bind_eq_bind, Option.bind_eq_some_iff, Option.pure_def, Option.some.injEq, Prod.exists, Prod.mk.injEq] at word
    obtain ⟨charset, encoding, encoded, after, read, decoded, fine, rfl, rfl⟩ := word
    obtain ⟨whole, -⟩ := readWord_eq_some read
    have size : (utf8 before).length + (2 + (utf8 charset).length + 1 + (utf8 encoding).length + 1 + (utf8 encoded).length + 2) =
        (utf8 (before ++ consumed)).length := by
      have lengths := congrArg (fun text => (utf8 text).length) same
      rw [whole] at lengths
      simp only [utf8_append, utf8_cons, List.length_append, encode_of_ascii (c := '?') (by decide), encode_of_ascii (c := '=') (by decide),
        List.length_cons, List.length_nil] at lengths ⊢
      omega
    rw [List.append_assoc, loop, if_pos (by rw [same]; exact inside before), if_pos (opens_iff.mpr ⟨rest, same⟩)]
    conv => lhs; rw [same]
    rw [start_eq, read]
    simp only [fine, Checked.returns_bind]
    rw [← same, takeBack_eq, Checked.returns_bind, size]
  · cases word

/-- Where nothing with `=?` is finished, the rest is copied. -/
theorem loop_unfinished {tail : Text} (unread : readWord tail = none) :
    loop (before ++ '=' :: '?' :: tail) (utf8 before).length output any = .returns (finish (output ++ '=' :: '?' :: tail) any) := by
  rw [loop, if_pos (inside before), if_pos (opens_iff.mpr ⟨tail, rfl⟩), start_eq, unread]
  simp only [Checked.returns_bind, sliceFrom_append]
  rfl

/-- A character at which nothing starts is copied. -/
theorem loop_other {c : Char} {tail : Text} (none_here : wordAt (c :: tail) = none)
    (finished : ∀ rest, c :: tail = '=' :: '?' :: rest → readWord rest ≠ none) :
    loop (before ++ c :: tail) (utf8 before).length output any =
      loop (before ++ c :: tail) (utf8 (before ++ [c])).length (output ++ [c]) any := by
  have size : (utf8 before).length + c.utf8Size = (utf8 (before ++ [c])).length := by
    rw [utf8_append, List.length_append, utf8_cons, utf8_nil, List.append_nil, String.length_utf8EncodeChar]
  rw [loop, if_pos (inside before)]
  by_cases opens : ∃ rest, c :: tail = '=' :: '?' :: rest
  · obtain ⟨rest, same⟩ := opens
    have read := finished rest same
    rw [if_pos (opens_iff.mpr ⟨rest, same⟩)]
    conv => lhs; rw [same]
    rw [start_eq]
    rw [same, wordAt] at none_here
    cases found : readWord rest with
    | none => exact (read found).elim
    | some parts =>
      obtain ⟨charset, encoding, encoded, after⟩ := parts
      rw [found] at none_here
      have fails : decodeRfc2047Word charset encoding encoded = none := by
        cases decoded : decodeRfc2047Word charset encoding encoded with
        | none => rfl
        | some d => simp [decoded] at none_here
      simp only [fails, Checked.returns_bind]
      rw [← same, sliceFrom_append, Checked.returns_bind]
      simp only [size]
  · rw [if_neg fun both => opens (opens_iff.mp both)]
    simp only [Checked.pure_eq, Checked.returns_bind, sliceFrom_append, size]

/-- A text in which something can be read is one that can be read. -/
theorem readWord_of_parts (front charset encoding encoded after : Text) :
    readWord (front ++ (charset ++ '?' :: (encoding ++ '?' :: (encoded ++ '?' :: '=' :: after)))) ≠ none := by
  obtain ⟨_, right, first, rest₁, rfl⟩ := cutAt_earlier '?' (front ++ charset) (encoding ++ '?' :: (encoded ++ '?' :: '=' :: after))
  obtain ⟨_, right', second, rest₂, rfl⟩ := cutAt_earlier '?' (rest₁ ++ encoding) (encoded ++ '?' :: '=' :: after)
  have third : (cutAtText ['?', '='] (rest₂ ++ (encoded ++ '?' :: '=' :: after))).isSome = true :=
    cutAtText_isSome_iff.mpr ⟨rest₂ ++ encoded, after, by simp⟩
  obtain ⟨parts, found⟩ := Option.isSome_iff_exists.mp third
  rw [List.append_assoc] at first second
  simp [readWord, first, second, found]

/-- Nothing is read after a place where nothing can be read. -/
theorem unread_after (front : Text) {tail : Text} (unread : readWord (front ++ tail) = none) : readWord tail = none := by
  cases read : readWord tail with
  | none => rfl
  | some parts =>
    obtain ⟨charset, encoding, encoded, after⟩ := parts
    obtain ⟨rfl, -⟩ := readWord_eq_some read
    exact (readWord_of_parts front charset encoding encoded after unread).elim

theorem loop_copies (before output : Text) (any : Bool) (tail : Text) (unread : ∀ front rest, tail = front ++ '=' :: '?' :: rest → readWord rest = none) :
    loop (before ++ tail) (utf8 before).length output any = .returns (finish (output ++ tail) any) := by
  induction tail generalizing before output with
  | nil =>
    rw [List.append_nil, List.append_nil, loop_end]
  | cons c tail ih =>
    by_cases opens : ∃ rest, c :: tail = '=' :: '?' :: rest
    · obtain ⟨rest, same⟩ := opens
      rw [same]
      exact loop_unfinished (unread [] rest same)
    · have none_here : wordAt (c :: tail) = none := by
        unfold wordAt
        split
        · exact (opens ⟨_, ‹_›⟩).elim
        · rfl
      rw [loop_other none_here fun rest same => (opens ⟨rest, same⟩).elim]
      have later := ih (before ++ [c]) (output ++ [c]) fun front rest same => unread (c :: front) rest (by rw [same]; rfl)
      simpa using later

/-- A character at which no word is decoded is copied. -/
theorem loop_char {c : Char} {tail : Text} (none_here : wordAt (c :: tail) = none) :
    loop (before ++ c :: tail) (utf8 before).length output any =
      loop (before ++ c :: tail) (utf8 (before ++ [c])).length (output ++ [c]) any := by
  by_cases stuck : ∃ rest, c :: tail = '=' :: '?' :: rest ∧ readWord rest = none
  · obtain ⟨rest, same, unread⟩ := stuck
    obtain ⟨rfl, rfl⟩ := List.cons.inj same
    have copies := loop_copies (before ++ ['=']) (output ++ ['=']) any ('?' :: rest) fun front after split => by
      cases front with
      | nil => cases split
      | cons x front =>
        rw [(List.cons.inj split).2] at unread
        exact unread_after (front ++ ['=', '?']) (by simpa using unread)
    rw [loop_unfinished unread]
    simpa using copies.symm
  · exact loop_other none_here fun rest same unread => stuck ⟨rest, same, unread⟩

end Turns

end NixHomeServer.MailArchive.HeaderWords
