import NixHomeServer.Library.Spacing
import NixHomeServer.MailArchive.HeaderWords

/-! What a header means: its tokens with the whitespace after them, the encoded words
among the tokens, and the text they stand for. -/
namespace NixHomeServer.MailArchive.HeaderWords

open NixHomeServer.Library

section Words

/-- A way to write bytes in the Q encoding. -/
inductive QText : Text → Bytes → Prop
  | nil : QText [] []
  | space {text bytes} (rest : QText text bytes) : QText ('_' :: text) (0x20 :: bytes)
  | literal {c text bytes} (shown : 0x21 ≤ c.toNat ∧ c.toNat ≤ 0x7E) (other : c ∉ ['=', '?', '_']) (rest : QText text bytes) :
      QText (c :: text) (UInt8.ofNat c.toNat :: bytes)
  | hex {high low a b text bytes} (first : digitOf 16 high = some a) (second : digitOf 16 low = some b) (rest : QText text bytes) :
      QText ('=' :: high :: low :: text) (UInt8.ofNat (a * 16 + b) :: bytes)

def supported (charset : Text) : Bool := named utf8Names charset || named windowsNames charset || named latinNames charset

/-- The bytes that are written in one of the two encodings. -/
def Encodes (encoding payload : Text) (bytes : Bytes) : Prop :=
  ((encoding = ['Q'] ∨ encoding = ['q']) ∧ QText payload bytes) ∨ ((encoding = ['B'] ∨ encoding = ['b']) ∧ base64 bytes = payload)

def encodedWord (charset encoding payload : Text) : Text := '=' :: '?' :: (charset ++ '?' :: (encoding ++ '?' :: (payload ++ ['?', '='])))

/-- A token is an encoded word of a supported charset that stands for a text. -/
def EncodedWord (token decoded : Text) : Prop := ∃ charset encoding payload bytes, token = encodedWord charset encoding payload ∧
  supported charset = true ∧ Encodes encoding payload bytes ∧ decoded = decodeHeaderBytes charset bytes

def fromQ : Text → Option Bytes
  | [] => some []
  | c :: rest =>
    if c = '=' then match rest with
      | high :: low :: after => do
        let a ← digitOf 16 high
        let b ← digitOf 16 low
        let bytes ← fromQ after
        return UInt8.ofNat (a * 16 + b) :: bytes
      | _ => none
    else if c = '_' then (fromQ rest).map (0x20 :: ·)
    else if (0x21 ≤ c.toNat ∧ c.toNat ≤ 0x7E) ∧ c ≠ '?' then (fromQ rest).map (UInt8.ofNat c.toNat :: ·)
    else none

def payloadOf (text : Text) : Option Text := if ['?', '='].isSuffixOf text then some text.dropLast.dropLast else none

def payloadBytes (encoding payload : Text) : Option Bytes :=
  if encoding = ['Q'] ∨ encoding = ['q'] then fromQ payload
  else if encoding = ['B'] ∨ encoding = ['b'] then fromBase64 payload
  else none

/-- The text of an encoded word of a supported charset. -/
def wordText : Text → Option Text
  | '=' :: '?' :: rest => do
    let (charset, rest) ← cutAt '?' rest
    let (encoding, rest) ← cutAt '?' rest
    let payload ← payloadOf rest
    let bytes ← payloadBytes encoding payload
    if supported charset then return decodeHeaderBytes charset bytes else none
  | _ => none

variable {charset encoding payload token text decoded : Text} {bytes : Bytes}

theorem fromQ_plain {c : Char} {rest : Text} (other : c ≠ '=') : fromQ (c :: rest) =
    if c = '_' then (fromQ rest).map (0x20 :: ·)
    else if (0x21 ≤ c.toNat ∧ c.toNat ≤ 0x7E) ∧ c ≠ '?' then (fromQ rest).map (UInt8.ofNat c.toNat :: ·)
    else none := by
  rw [fromQ.eq_def]
  simp only [if_neg other]

theorem fromQ_eq_some : fromQ text = some bytes ↔ QText text bytes := by
  constructor
  · intro read
    induction text using fromQ.induct generalizing bytes with
    | case1 =>
      cases read
      exact .nil
    | case2 high low after ih =>
      simp only [fromQ, if_true, Option.bind_eq_bind, Option.bind_eq_some_iff, Option.pure_def, Option.some.injEq] at read
      obtain ⟨a, first, b, second, bytes, rest, rfl⟩ := read
      exact .hex first second (ih rest)
    | case3 rest short =>
      rw [fromQ, if_pos rfl] at read
      · cases read
      · exact short
    | case4 rest other ih =>
      rw [fromQ_plain (by decide), if_pos rfl, Option.map_eq_some_iff] at read
      obtain ⟨bytes, rest, rfl⟩ := read
      exact .space (ih rest)
    | case5 c rest other other' shown ih =>
      rw [fromQ_plain other, if_neg other', if_pos shown, Option.map_eq_some_iff] at read
      obtain ⟨bytes, rest, rfl⟩ := read
      exact .literal shown.1 (by simp [other, other', shown.2]) (ih rest)
    | case6 c rest other other' hidden =>
      rw [fromQ_plain other, if_neg other', if_neg hidden] at read
      cases read
  · intro written
    induction written with
    | nil => rfl
    | space rest ih => rw [fromQ_plain (by decide), if_pos rfl, ih]; rfl
    | literal shown other rest ih =>
      simp only [List.mem_cons, List.not_mem_nil, or_false, not_or] at other
      rw [fromQ_plain other.1, if_neg other.2.2, if_pos ⟨shown, other.2.1⟩, ih]
      rfl
    | hex first second rest ih => simp [fromQ, first, second, ih]

theorem payloadBytes_eq_some : payloadBytes encoding payload = some bytes ↔ Encodes encoding payload bytes := by
  unfold payloadBytes Encodes
  have exclusive : (encoding = ['B'] ∨ encoding = ['b']) → ¬ (encoding = ['Q'] ∨ encoding = ['q']) := by
    rintro (rfl | rfl) <;> decide
  by_cases letter : encoding = ['Q'] ∨ encoding = ['q']
  · rw [if_pos letter, fromQ_eq_some]
    exact ⟨fun written => .inl ⟨letter, written⟩, fun either => either.elim (·.2) fun other => (exclusive other.1 letter).elim⟩
  · rw [if_neg letter]
    split
    · rename_i letter'
      rw [fromBase64_eq_some]
      exact ⟨fun written => .inr ⟨letter', written⟩, fun either => either.elim (fun other => (letter other.1).elim) (·.2)⟩
    · rename_i neither
      exact ⟨nofun, fun either => either.elim (fun other => (letter other.1).elim) fun other => (neither other.1).elim⟩

theorem payloadOf_eq_some : payloadOf text = some payload ↔ text = payload ++ ['?', '='] := by
  unfold payloadOf
  constructor
  · intro read
    split at read
    · rename_i ends
      obtain ⟨front, rfl⟩ := List.isSuffixOf_iff_suffix.mp ends
      simp only [Option.some.injEq] at read
      rw [← read]
      simp
    · cases read
  · rintro rfl
    simp

theorem lower_of_named {names : List String} (known : named names charset = true) : ∃ name ∈ names, name.toList = charset.map Char.toLower := by
  obtain ⟨name, member, same⟩ := List.any_eq_true.mp known
  exact ⟨name, member, by simpa using same⟩

theorem lower_of_supported (known : supported charset = true) :
    ∃ name ∈ utf8Names ++ windowsNames ++ latinNames, name.toList = charset.map Char.toLower := by
  simp only [supported, Bool.or_eq_true] at known
  rcases known with (known | known) | known
  all_goals
    obtain ⟨name, member, same⟩ := lower_of_named known
    exact ⟨name, by simp [member], same⟩

/-- The names of the charsets are long, and have neither blanks nor question marks. -/
theorem charset_facts (known : supported charset = true) : 1 < charset.length ∧ ∀ c ∈ charset, c ≠ '?' := by
  obtain ⟨name, member, same⟩ := lower_of_supported known
  have table : ∀ name ∈ utf8Names ++ windowsNames ++ latinNames, 1 < name.toList.length ∧ '?' ∉ name.toList := by decide
  obtain ⟨long, clean⟩ := table name member
  refine ⟨by rw [same, List.length_map] at long; exact long, ?_⟩
  rintro c inside rfl
  exact clean (same ▸ List.mem_map.mpr ⟨'?', inside, rfl⟩)

theorem QText.clean (written : QText text bytes) : '?' ∉ text := by
  have digit : ∀ {c : Char} {d}, digitOf 16 c = some d → '?' ≠ c := by
    rintro c d read rfl
    cases read
  induction written with
  | nil => exact List.not_mem_nil
  | space rest ih => simpa using ih
  | literal shown other rest ih =>
    simp only [List.mem_cons, not_or, List.not_mem_nil, not_false_eq_true, and_true] at other ⊢
    exact ⟨Ne.symm other.2.1, ih⟩
  | hex first second rest ih => simp [digit first, digit second, ih]

theorem Encodes.clean (written : Encodes encoding payload bytes) : '?' ∉ encoding ∧ '?' ∉ payload := by
  rcases written with ⟨letter | letter, written⟩ | ⟨letter | letter, rfl⟩
  all_goals
    subst letter
    refine ⟨by decide, ?_⟩
  · exact written.clean
  · exact written.clean
  all_goals
    intro member
    have alphabet := isBase64_of_mem member
    revert alphabet
    decide

theorem wordText_eq_some : wordText token = some decoded ↔ EncodedWord token decoded := by
  constructor
  · intro read
    unfold wordText at read
    split at read
    · simp only [Option.bind_eq_bind, Option.bind_eq_some_iff, Prod.exists] at read
      obtain ⟨charset, rest, first, encoding, rest', second, payload, third, bytes, written, known⟩ := read
      obtain ⟨rfl, -⟩ := cutAt_eq_some first
      obtain ⟨rfl, -⟩ := cutAt_eq_some second
      obtain rfl := payloadOf_eq_some.mp third
      split at known
      · rename_i supports
        exact ⟨charset, encoding, payload, bytes, rfl, supports, payloadBytes_eq_some.mp written, (Option.some.inj known).symm⟩
      · cases known
    · cases read
  · rintro ⟨charset, encoding, payload, bytes, rfl, known, written, rfl⟩
    obtain ⟨clean, -⟩ := written.clean
    have first := cutAt_append '?' (encoding ++ '?' :: (payload ++ ['?', '='])) fun member => (charset_facts known).2 _ member rfl
    have second := cutAt_append '?' (payload ++ ['?', '=']) clean
    simp [wordText, encodedWord, first, second, payloadOf_eq_some.mpr rfl, payloadBytes_eq_some.mpr written, known]

end Words

section Read

variable {charset encoding payload token decoded tail : Text} {bytes : Bytes} {x y v : UInt8}

theorem utf8_ascii {c : Char} (text : Text) (small : c.toNat < 128) : utf8 (c :: text) = UInt8.ofNat c.toNat :: utf8 text := by
  rw [utf8_cons, encode_of_ascii small, List.singleton_append]

theorem ascii_of_digit {c : Char} {d : Nat} (digit : digitOf 16 c = some d) : c.toNat < 128 := by
  have range := alphanumeric_of_digitOf digit
  omega

theorem hexByte_digits {high low : Char} {a b : Nat} (first : digitOf 16 high = some a) (second : digitOf 16 low = some b) :
    hexByte (UInt8.ofNat high.toNat) (UInt8.ofNat low.toNat) = some (UInt8.ofNat (a * 16 + b)) := by
  have decoded : fromUtf8 [UInt8.ofNat high.toNat, UInt8.ofNat low.toNat] = some [high, low] := by
    rw [fromUtf8_eq_some, utf8_ascii _ (ascii_of_digit first), utf8_ascii _ (ascii_of_digit second), utf8_nil]
  have below := lt_of_digitOf first
  have below' := lt_of_digitOf second
  have small : a * 16 + b < 256 := by omega
  have parsed : parseUnsigned 16 256 [high, low] = some (a * 16 + b) := by
    unfold parseUnsigned
    split
    · rename_i same
      rw [(List.cons.inj same).1] at first
      cases first
    · simp [numeral, digitsFrom, first, second, Option.filter, small]
  rw [hexByte, decoded, Option.bind_eq_bind, Option.bind_some, parsed]
  rfl

/-- A byte that is read is a sign, a digit or a letter. -/
theorem byte_of_hexByte (read : hexByte x y = some v) : ∀ z ∈ [x, y], z.toNat ≠ 0x3D ∧ z.toNat ≠ 0x3F := by
  simp only [hexByte, Option.bind_eq_bind, Option.bind_eq_some_iff] at read
  obtain ⟨text, decoded, n, parsed, -⟩ := read
  intro z member
  rw [← fromUtf8_eq_some.mp decoded] at member
  obtain ⟨c, inside, member⟩ := List.mem_flatMap.mp member
  have range : c = '+' ∨ (48 ≤ c.toNat ∧ c.toNat ≤ 57) ∨ (97 ≤ c.toNat ∧ c.toNat ≤ 122) ∨ (65 ≤ c.toNat ∧ c.toNat ≤ 90) :=
    ((chars_of_parseUnsigned parsed).2 c inside).imp_right fun ⟨d, digit⟩ => alphanumeric_of_digitOf digit
  have small : c.toNat < 128 := by
    rcases range with rfl | range
    · decide
    · omega
  rw [encode_of_ascii small, List.mem_singleton] at member
  rw [member, UInt8.toNat_ofNat', Nat.mod_eq_of_lt (by omega)]
  rcases range with rfl | range
  · decide
  · omega

theorem QText.decodes (written : QText payload bytes) : decodeRfc2047Q (utf8 payload) = some bytes := by
  induction written with
  | nil => rfl
  | space rest ih =>
    rw [utf8_ascii _ (by decide), decodeRfc2047Q.eq_def]
    simp [ih]
  | literal shown other rest ih =>
    rename_i c text bytes
    have byte : ∀ d : Char, d.toNat < 128 → c ≠ d → UInt8.ofNat c.toNat ≠ UInt8.ofNat d.toNat := by
      intro d small differ same
      have values := congrArg UInt8.toNat same
      rw [UInt8.toNat_ofNat', UInt8.toNat_ofNat', Nat.mod_eq_of_lt (by omega), Nat.mod_eq_of_lt (by omega)] at values
      exact differ (Char.ext (UInt32.toNat_inj.mp values))
    simp only [List.mem_cons, List.not_mem_nil, or_false, not_or] at other
    have no_space : UInt8.ofNat c.toNat ≠ 0x5F := byte '_' (by decide) other.2.2
    have no_escape : UInt8.ofNat c.toNat ≠ 0x3D := byte '=' (by decide) other.1
    rw [utf8_ascii _ (by omega), decodeRfc2047Q.eq_def]
    dsimp only
    rw [if_neg no_space, if_neg no_escape, ih]
    rfl
  | hex first second rest ih =>
    rw [utf8_ascii _ (by decide), utf8_ascii _ (ascii_of_digit first), utf8_ascii _ (ascii_of_digit second), decodeRfc2047Q.eq_def]
    simp [hexByte_digits first second, ih]

/-- After an equals sign that is read come two digits. -/
theorem escape_of_decoded {front after : Bytes} (read : decodeRfc2047Q (front ++ 0x3D :: after) ≠ none) :
    ∃ high low rest, after = high :: low :: rest ∧ hexByte high low ≠ none := by
  induction front using decodeRfc2047Q.induct with
  | case1 =>
    rw [List.nil_append, decodeRfc2047Q.eq_def] at read
    dsimp only at read
    rw [if_neg (by decide), if_pos rfl] at read
    split at read
    · rename_i high low rest
      refine ⟨high, low, rest, rfl, fun none_read => ?_⟩
      simp [none_read] at read
    · exact (read rfl).elim
  | case2 rest ih =>
    refine ih fun none_read => read ?_
    rw [List.cons_append, decodeRfc2047Q.eq_def]
    simp [none_read]
  | case3 other high low rest ih =>
    refine ih fun none_read => read ?_
    rw [List.cons_append, List.cons_append, List.cons_append, decodeRfc2047Q.eq_def]
    simp [none_read]
  | case4 rest short other =>
    exfalso
    rw [List.cons_append, decodeRfc2047Q.eq_def] at read
    dsimp only at read
    rw [if_neg (by decide), if_pos rfl] at read
    have marked : ∀ high low, (high = 0x3D ∨ low = 0x3D) → hexByte high low = none := by
      intro high low either
      cases found : hexByte high low with
      | none => rfl
      | some v =>
        have bytes := byte_of_hexByte found
        rcases either with rfl | rfl
        · exact ((bytes 0x3D (by simp)).1 rfl).elim
        · exact ((bytes 0x3D (by simp)).1 rfl).elim
    match rest with
    | [] =>
      cases after with
      | nil => exact read rfl
      | cons low after => simp [marked 0x3D low (.inl rfl)] at read
    | [high] => simp [marked high 0x3D (.inr rfl)] at read
    | high :: low :: rest => exact short _ _ _ rfl
  | case5 b rest other other' ih =>
    refine ih fun none_read => read ?_
    rw [List.cons_append, decodeRfc2047Q.eq_def]
    simp [none_read, other, other']

theorem Encodes.decodes (written : Encodes encoding payload bytes) (charset : Text) :
    decodeRfc2047Word charset encoding payload = some (decodeHeaderBytes charset bytes) := by
  rcases written with ⟨letter | letter, written⟩ | ⟨letter | letter, written⟩
  all_goals
    subst letter
    unfold decodeRfc2047Word
  · rw [if_pos (by decide), written.decodes]
    rfl
  · rw [if_pos (by decide), written.decodes]
    rfl
  · rw [if_neg (by decide), if_pos (by decide), fromBase64_eq_some.mpr written]
    rfl
  · rw [if_neg (by decide), if_pos (by decide), fromBase64_eq_some.mpr written]
    rfl

/-- The loop decodes the encoded words. -/
theorem wordAt_encodedWord (word : EncodedWord token decoded) (tail : Text) : wordAt (token ++ tail) = some (decoded, tail) := by
  obtain ⟨charset, encoding, payload, bytes, rfl, known, written, rfl⟩ := word
  obtain ⟨clean, clean'⟩ := written.clean
  have first := cutAt_append '?' (encoding ++ '?' :: (payload ++ ('?' :: '=' :: tail))) fun member => (charset_facts known).2 _ member rfl
  have second := cutAt_append '?' (payload ++ ('?' :: '=' :: tail)) clean
  have third : cutAtText ['?', '='] (payload ++ ['?', '='] ++ tail) = some (payload, tail) := cutAtText_append clean' tail
  simp only [List.append_assoc, List.cons_append, List.nil_append] at third
  simp [wordAt, readWord, encodedWord, first, second, third, written.decodes]

end Read

end NixHomeServer.MailArchive.HeaderWords
