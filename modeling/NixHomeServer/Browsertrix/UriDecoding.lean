import NixHomeServer.Library.Numerals
import NixHomeServer.Library.Text
import NixHomeServer.Library.Utf8

/-! The decoding of a request body in the key of an index, and the decoding that
the language standard of the writer of the index gives. -/
namespace NixHomeServer.Browsertrix.UriDecoding

open NixHomeServer.Library

abbrev Bytes := List UInt8
abbrev Text := List Char

def charOf (b : UInt8) : Char := Char.ofNat b.toNat

def reserved (b : UInt8) : Bool := b ∈ [0x3B, 0x2F, 0x3F, 0x3A, 0x40, 0x26, 0x3D, 0x2B, 0x24, 0x2C, 0x23]

section Code

/-- An integer parser reads the two bytes after a percent sign. -/
def hexByte (hex : Bytes) : Option UInt8 := do
  let text ← fromUtf8 hex
  let byte ← parseUnsigned 16 256 text
  return UInt8.ofNat byte

/-- The bytes of a text, the escapes of reserved characters as they are. -/
def unescape (hexByte : Bytes → Option UInt8) : Bytes → Option Bytes
  | [] => some []
  | b :: rest =>
    if b ≠ 0x25 then (unescape hexByte rest).map (b :: ·)
    else match rest with
      | x :: y :: after => do
        let byte ← hexByte [x, y]
        let out ← unescape hexByte after
        return (if reserved byte then [b, x, y] else [byte]) ++ out
      | _ => none

def decodeUri (input : Text) : Option Text := (unescape hexByte (utf8 input)).bind fromUtf8

/-- What the key of the index is made with. -/
def query (body : Text) : Text := (decodeUri body).getD []

end Code

section Standard

/-- Two hexadecimal digits. -/
def twoDigits : Bytes → Option UInt8
  | [x, y] => do
    let high ← digitOf 16 (charOf x)
    let low ← digitOf 16 (charOf y)
    return UInt8.ofNat (high * 16 + low)
  | _ => none

def escape : Text → Option (UInt8 × Text)
  | '%' :: a :: b :: rest => do
    let high ← digitOf 16 a
    let low ← digitOf 16 b
    return (UInt8.ofNat (high * 16 + low), rest)
  | _ => none

def escapes : Nat → Text → Option (Bytes × Text)
  | 0, text => some ([], text)
  | n + 1, text => do
    let (b, rest) ← escape text
    let (bs, after) ← escapes n rest
    return (b :: bs, after)

/-- What the first character or the first escaped one stands for, and the text after it. -/
def piece (text : Text) : Option (Text × Text) :=
  match text with
  | [] => none
  | c :: rest =>
    if c ≠ '%' then some ([c], rest)
    else do
      let (b, after) ← escape text
      if b.toNat < 0x80 then some (if reserved b then text.take 3 else [charOf b], after)
      else if leadingOnes b.toNat = 1 ∨ leadingOnes b.toNat = 5 then none
      else
        let (bs, after) ← escapes (leadingOnes b.toNat - 1) after
        match fromUtf8 (b :: bs) with
        | some [c] => some ([c], after)
        | _ => none

theorem escape_eq_some {text rest : Text} {b : UInt8} : escape text = some (b, rest) ↔
    ∃ x y high low, text = '%' :: x :: y :: rest ∧ digitOf 16 x = some high ∧ digitOf 16 y = some low ∧
      b = UInt8.ofNat (high * 16 + low) := by
  unfold escape
  split
  · rename_i x y after
    simp only [Option.bind_eq_bind, Option.bind_eq_some_iff, Option.pure_def, Option.some.injEq, Prod.mk.injEq]
    constructor
    · rintro ⟨high, first, low, second, rfl, rfl⟩
      exact ⟨x, y, high, low, rfl, first, second, rfl⟩
    · rintro ⟨_, _, high, low, same, first, second, rfl⟩
      cases same
      exact ⟨high, first, low, second, rfl, rfl⟩
  · rename_i other
    refine ⟨nofun, ?_⟩
    rintro ⟨x, y, -, -, rfl, -⟩
    exact (other x y rest rfl).elim

theorem escapes_shorter {n : Nat} {text rest : Text} {bs : Bytes} (read : escapes n text = some (bs, rest)) :
    rest.length ≤ text.length := by
  induction n generalizing text bs with
  | zero =>
    cases read
    exact Nat.le_refl _
  | succ n ih =>
    simp only [escapes, Option.bind_eq_bind, Option.bind_eq_some_iff, Option.pure_def, Option.some.injEq, Prod.mk.injEq] at read
    obtain ⟨⟨b, next⟩, first, ⟨bs, after⟩, later, -, rfl⟩ := read
    obtain ⟨x, y, -, -, rfl, -⟩ := escape_eq_some.mp first
    have shorter : after.length ≤ next.length := ih later
    simp only [List.length_cons]
    omega

theorem piece_shorter {text piece' rest : Text} (read : piece text = some (piece', rest)) : rest.length < text.length := by
  unfold piece at read
  split at read
  · cases read
  · split at read
    · cases read
      exact Nat.lt_succ_self _
    · simp only [Option.bind_eq_bind, Option.bind_eq_some_iff] at read
      obtain ⟨⟨b, after⟩, first, read⟩ := read
      obtain ⟨x, y, -, -, same, -⟩ := escape_eq_some.mp first
      rw [same]
      dsimp only at read
      split at read
      · cases read
        simp only [List.length_cons]
        omega
      · split at read
        · cases read
        · simp only [Option.bind_eq_some_iff] at read
          obtain ⟨⟨bs, last⟩, others, read⟩ := read
          have shorter := escapes_shorter others
          dsimp only at read
          split at read
          · cases read
            simp only [List.length_cons]
            omega
          · cases read

def decodeURI (text : Text) : Option Text :=
  if text = [] then some []
  else match _read : piece text with
    | none => none
    | some (decoded, rest) => (decodeURI rest).map (decoded ++ ·)
termination_by text.length
decreasing_by exact piece_shorter _read

end Standard

section Escapes

variable {hex : Bytes → Option UInt8} {bytes out rest : Bytes} {text r : Text} {x y : UInt8}

theorem unescape_other {b : UInt8} (other : b ≠ 0x25) : unescape hex (b :: rest) = (unescape hex rest).map (b :: ·) := by
  rcases rest with _ | ⟨x, _ | ⟨y, after⟩⟩ <;> simp [unescape, other]

theorem unescape_plain {plain : Bytes} (free : (0x25 : UInt8) ∉ plain) :
    unescape hex (plain ++ rest) = (unescape hex rest).map (plain ++ ·) := by
  induction plain with
  | nil => simp
  | cons b plain ih =>
    simp only [List.mem_cons, not_or] at free
    rw [List.cons_append, unescape_other (Ne.symm free.1), ih free.2, Option.map_map]
    rfl

theorem unescape_escape : unescape hex (0x25 :: x :: y :: rest) =
    (hex [x, y]).bind fun byte => (unescape hex rest).map ((if reserved byte then [0x25, x, y] else [byte]) ++ ·) := by
  rw [unescape]
  simp only [ne_eq, not_true, if_false]
  cases hex [x, y] with
  | none => rfl
  | some byte => cases unescape hex rest <;> rfl

theorem free_of_other {c : Char} (other : c ≠ '%') : (0x25 : UInt8) ∉ String.utf8EncodeChar c := by
  intro member
  have value := (encode_of_low member (by decide)).2
  exact other (Char.ext (UInt32.toNat_inj.mp value))

/-- A byte below 128 at the front of a text is its first character. -/
theorem cons_of_low (start : utf8 text = x :: rest) (low : x.toNat < 128) :
    ∃ after, text = charOf x :: after ∧ utf8 after = rest := by
  cases text with
  | nil => cases start
  | cons c after =>
    rw [utf8_cons] at start
    have member : x ∈ String.utf8EncodeChar c := by
      obtain ⟨b, bs, encoded⟩ := List.exists_cons_of_length_pos
        (show 0 < (String.utf8EncodeChar c).length by rw [String.length_utf8EncodeChar]; exact c.utf8Size_pos)
      rw [encoded] at start ⊢
      exact (List.cons.inj start).1 ▸ List.mem_cons_self
    obtain ⟨single, value⟩ := encode_of_low member low
    rw [single] at start
    refine ⟨after, ?_, (List.cons.inj start).2⟩
    have same : c = charOf x := by
      rw [charOf, ← value]
      exact (Char.ofNat_toNat c).symm
    rw [same]

theorem utf8_charOf {b : UInt8} (low : b.toNat < 128) : String.utf8EncodeChar (charOf b) = [b] := by
  have value : (charOf b).toNat = b.toNat := by
    rw [charOf, Char.ofNat, dif_pos (.inl (by omega))]
    rfl
  rw [encode_of_ascii (by omega), value, UInt8.ofNat_toNat]

theorem utf8_hex {c : Char} {d : Nat} (digit : digitOf 16 c = some d) :
    String.utf8EncodeChar c = [UInt8.ofNat c.toNat] ∧ charOf (UInt8.ofNat c.toNat) = c ∧ c ≠ '%' ∧ d < 16 := by
  have range := alphanumeric_of_digitOf digit
  refine ⟨encode_of_ascii (by omega), ?_, ?_, lt_of_digitOf digit⟩
  · rw [charOf, UInt8.toNat_ofNat', Nat.mod_eq_of_lt (by omega), Char.ofNat_toNat]
  · rintro rfl
    exact absurd digit (by decide +revert)

theorem twoDigits_eq_some {v : UInt8} : twoDigits [x, y] = some v ↔ ∃ high low, digitOf 16 (charOf x) = some high ∧
    digitOf 16 (charOf y) = some low ∧ v = UInt8.ofNat (high * 16 + low) := by
  simp only [twoDigits, Option.bind_eq_bind, Option.bind_eq_some_iff, Option.pure_def, Option.some.injEq]
  constructor
  · rintro ⟨high, first, low, second, rfl⟩
    exact ⟨high, low, first, second, rfl⟩
  · rintro ⟨high, low, first, second, rfl⟩
    exact ⟨high, first, low, second, rfl⟩

theorem low_of_digit {d : Nat} (digit : digitOf 16 (charOf x) = some d) : x.toNat < 128 := by
  have range := alphanumeric_of_digitOf digit
  have byte := x.toNat_lt
  have value : (charOf x).toNat = x.toNat := by
    rw [charOf, Char.ofNat, dif_pos (.inl (by omega))]
    rfl
  omega

theorem utf8_percent (text : Text) : utf8 ('%' :: text) = 0x25 :: utf8 text := rfl

/-- An escape in the text is one in its bytes. -/
theorem bytes_of_escape {after : Text} {b : UInt8} (read : escape text = some (b, after)) :
    ∃ x y, utf8 text = 0x25 :: x :: y :: utf8 after ∧ utf8 (text.take 3) = [0x25, x, y] ∧ twoDigits [x, y] = some b := by
  obtain ⟨x, y, high, low, rfl, first, second, rfl⟩ := escape_eq_some.mp read
  obtain ⟨encoded, back, -⟩ := utf8_hex first
  obtain ⟨encoded', back', -⟩ := utf8_hex second
  have three : utf8 ['%', x, y] = [0x25, UInt8.ofNat x.toNat, UInt8.ofNat y.toNat] := by
    simp only [utf8_cons, utf8_nil, encoded, encoded', List.singleton_append, List.append_nil]
    rfl
  refine ⟨_, _, ?_, three, twoDigits_eq_some.mpr ⟨high, low, back.symm ▸ first, back'.symm ▸ second, rfl⟩⟩
  change utf8 (['%', x, y] ++ after) = _
  rw [utf8_append, three]
  rfl

theorem escape_of_bytes {b : UInt8} (bytes : utf8 text = 0x25 :: x :: y :: rest) (read : twoDigits [x, y] = some b) :
    ∃ after, escape text = some (b, after) ∧ utf8 after = rest := by
  obtain ⟨high, low, first, second, rfl⟩ := twoDigits_eq_some.mp read
  obtain ⟨t, rfl, bytes₁⟩ := cons_of_low bytes (by decide)
  obtain ⟨t', rfl, bytes₂⟩ := cons_of_low bytes₁ (low_of_digit first)
  obtain ⟨t'', rfl, bytes₃⟩ := cons_of_low bytes₂ (low_of_digit second)
  exact ⟨t'', escape_eq_some.mpr ⟨charOf x, charOf y, high, low, rfl, first, second, rfl⟩, bytes₃⟩

theorem free_of_high {b : UInt8} (high : 0x80 ≤ b.toNat) : reserved b = false := by
  have low : ∀ c : UInt8, c ∈ ([0x3B, 0x2F, 0x3F, 0x3A, 0x40, 0x26, 0x3D, 0x2B, 0x24, 0x2C, 0x23] : Bytes) → c.toNat < 0x80 :=
    forall_of_all (by decide)
  rw [reserved, decide_eq_false_iff_not]
  intro member
  have := low b member
  omega

/-- Where there is a percent sign, two bytes follow that stand for a byte. -/
theorem unescape_percent (read : unescape hex (0x25 :: bytes) = some out) : ∃ x y after b o, bytes = x :: y :: after ∧
    hex [x, y] = some b ∧ unescape hex after = some o ∧ out = (if reserved b then [0x25, x, y] else [b]) ++ o := by
  match bytes with
  | [] => simp [unescape] at read
  | [x] => simp [unescape] at read
  | x :: y :: after =>
    rw [unescape_escape] at read
    obtain ⟨b, first, later⟩ := Option.bind_eq_some_iff.mp read
    obtain ⟨o, last, rfl⟩ := Option.map_eq_some_iff.mp later
    exact ⟨x, y, after, b, o, rfl, first, last, rfl⟩

/-- Escapes in a row give the bytes that continue a character. -/
theorem unescape_escapes {n : Nat} {after : Text} {bs : Bytes} (read : escapes n text = some (bs, after))
    (high : ∀ b ∈ bs, 0x80 ≤ b.toNat) :
    unescape twoDigits (utf8 text) = (unescape twoDigits (utf8 after)).map (bs ++ ·) := by
  induction n generalizing text bs with
  | zero =>
    cases read
    simp
  | succ n ih =>
    simp only [escapes, Option.bind_eq_bind, Option.bind_eq_some_iff, Option.pure_def, Option.some.injEq, Prod.mk.injEq] at read
    obtain ⟨⟨b, next⟩, first, ⟨bs, last⟩, later, rfl, rfl⟩ := read
    obtain ⟨x, y, bytes, -, digits⟩ := bytes_of_escape first
    obtain ⟨here, others⟩ := List.forall_mem_cons.mp high
    have free := free_of_high here
    rw [bytes, unescape_escape, digits, Option.bind_some, ih later others, free, Option.map_map]
    rfl

/-- Bytes that continue a character come from escapes only. -/
theorem escapes_of_unescape {bs o : Bytes} (read : unescape twoDigits (utf8 text) = some (bs ++ o))
    (continues : ∀ b ∈ bs, 0x80 ≤ b.toNat ∧ b.toNat < 0xC0) : ∃ after, escapes bs.length text = some (bs, after) := by
  induction bs generalizing text with
  | nil => exact ⟨text, rfl⟩
  | cons b bs ih =>
    obtain ⟨here, others⟩ := List.forall_mem_cons.mp continues
    cases text with
    | nil => simp [unescape] at read
    | cons c text =>
      by_cases percent : c = '%'
      · subst percent
        rw [utf8_percent] at read
        obtain ⟨x, y, after, v, o', bytes, digits, later, split⟩ := unescape_percent read
        have free : reserved v = false := by
          cases known : reserved v with
          | false => rfl
          | true =>
            rw [known, if_pos rfl] at split
            have same : b = 0x25 := (List.cons.inj split).1
            rw [same] at here
            exact absurd here (by decide)
        rw [free] at split
        obtain ⟨rfl, rest⟩ := List.cons.inj split
        obtain ⟨next, first, same⟩ := escape_of_bytes (show utf8 ('%' :: text) = _ by rw [utf8_percent, bytes]) digits
        obtain ⟨last, more⟩ := ih (by rw [same, later]; exact congrArg some rest.symm) others
        refine ⟨last, ?_⟩
        simp [escapes, first, more]
      · exfalso
        rw [utf8_cons, unescape_plain (free_of_other percent)] at read
        obtain ⟨o', -, split⟩ := Option.map_eq_some_iff.mp read
        by_cases small : c.toNat < 128
        · rw [encode_of_ascii small] at split
          have same := congrArg UInt8.toNat (List.cons.inj split).1
          rw [UInt8.toNat_ofNat', Nat.mod_eq_of_lt (by omega)] at same
          omega
        · obtain ⟨d, ds, encoded, first, -⟩ := encode_of_large (Nat.not_lt.mp small)
          rw [encoded] at split
          have same := congrArg UInt8.toNat (List.cons.inj split).1
          omega

end Escapes

section Pieces

variable {text after r piece' : Text}

theorem large_of_high {c : Char} {b : UInt8} {bs : Bytes} (encoded : String.utf8EncodeChar c = b :: bs) (high : 0x80 ≤ b.toNat) :
    leadingOnes b.toNat = bs.length + 1 ∧ bs ≠ [] ∧ bs.length ≤ 3 ∧ ∀ x ∈ bs, 0x80 ≤ x.toNat ∧ x.toNat < 0xC0 := by
  by_cases small : c.toNat < 128
  · rw [encode_of_ascii small] at encoded
    have same := congrArg UInt8.toNat (List.cons.inj encoded).1
    rw [UInt8.toNat_ofNat', Nat.mod_eq_of_lt (by omega)] at same
    omega
  · obtain ⟨d, ds, other, -, rest⟩ := encode_of_large (Nat.not_lt.mp small)
    obtain ⟨rfl, rfl⟩ := List.cons.inj (encoded.symm.trans other)
    exact rest

/-- What the standard reads at the front is what the bytes of it stand for. -/
theorem piece_sound (read : piece text = some (piece', after)) :
    unescape twoDigits (utf8 text) = (unescape twoDigits (utf8 after)).map (utf8 piece' ++ ·) := by
  unfold piece at read
  split at read
  · cases read
  · rename_i c rest
    split at read
    · rename_i other
      cases read
      rw [utf8_cons, unescape_plain (free_of_other other), utf8_cons, utf8_nil, List.append_nil]
    · simp only [Option.bind_eq_bind, Option.bind_eq_some_iff] at read
      obtain ⟨⟨b, next⟩, first, read⟩ := read
      obtain ⟨x, y, bytes, three, digits⟩ := bytes_of_escape first
      rw [bytes, unescape_escape, digits, Option.bind_some]
      dsimp only at read
      split at read
      · rename_i low
        cases read
        cases known : reserved b with
        | true =>
          simp only [if_true, three]
        | false =>
          simp only [Bool.false_eq_true, if_false, utf8_cons, utf8_nil, List.append_nil, utf8_charOf low]
      · rename_i high
        split at read
        · cases read
        · simp only [Option.bind_eq_some_iff] at read
          obtain ⟨⟨bs, last⟩, others, read⟩ := read
          dsimp only at read
          split at read
          · rename_i d decoded
            cases read
            have encoded := fromUtf8_eq_some.mp decoded
            rw [utf8_cons, utf8_nil, List.append_nil] at encoded
            have continues := (large_of_high encoded (Nat.not_lt.mp high)).2.2.2
            rw [unescape_escapes others fun z member => (continues z member).1, free_of_high (Nat.not_lt.mp high),
              Option.map_map, utf8_cons, utf8_nil, List.append_nil, encoded]
            rfl
          · cases read

/-- Where the bytes stand for a text the standard reads the front of it. -/
theorem piece_complete (some_text : text ≠ []) (read : unescape twoDigits (utf8 text) = some (utf8 r)) :
    ∃ decoded after r', piece text = some (decoded, after) ∧ r = decoded ++ r' := by
  obtain ⟨c, rest, rfl⟩ := List.exists_cons_of_ne_nil some_text
  by_cases other : c ≠ '%'
  · rw [utf8_cons, unescape_plain (free_of_other other)] at read
    obtain ⟨o, -, split⟩ := Option.map_eq_some_iff.mp read
    have front : utf8 r = utf8 [c] ++ o := by rw [utf8_cons, utf8_nil, List.append_nil, split]
    obtain ⟨r', rfl, -⟩ := split_of_prefix front
    exact ⟨[c], rest, r', if_pos other, rfl⟩
  · rw [ne_eq, not_not] at other
    subst other
    obtain ⟨x, y, bytes', b, o, bytes, digits, later, split⟩ := unescape_percent (utf8_percent rest ▸ read)
    obtain ⟨after, first, same⟩ := escape_of_bytes (show utf8 ('%' :: rest) = _ by rw [utf8_percent, bytes]) digits
    have reads : piece ('%' :: rest) = (do
        if b.toNat < 0x80 then some (if reserved b then ('%' :: rest).take 3 else [charOf b], after)
        else if leadingOnes b.toNat = 1 ∨ leadingOnes b.toNat = 5 then none
        else
          let (bs, after) ← escapes (leadingOnes b.toNat - 1) after
          match fromUtf8 (b :: bs) with
          | some [c] => some ([c], after)
          | _ => none) := by
      unfold piece
      simp [first]
    by_cases low : b.toNat < 0x80
    · rw [if_pos low] at reads
      have front : utf8 r = utf8 (if reserved b then ('%' :: rest).take 3 else [charOf b]) ++ o := by
        rw [split]
        cases known : reserved b with
        | true =>
          obtain ⟨x', y', bytes'', three, -⟩ := bytes_of_escape first
          rw [utf8_percent, bytes] at bytes''
          simp only [List.cons.injEq, true_and] at bytes''
          simp only [if_true, three, bytes''.1, bytes''.2.1]
        | false => simp only [Bool.false_eq_true, if_false, utf8_cons, utf8_nil, List.append_nil, utf8_charOf low]
      obtain ⟨r', own, -⟩ := split_of_prefix front
      exact ⟨_, _, r', reads, own⟩
    · have high := Nat.not_lt.mp low
      rw [free_of_high high] at split
      cases r with
      | nil => cases split
      | cons d r' =>
        obtain ⟨z, bs, encoded⟩ := List.exists_cons_of_length_pos
          (show 0 < (String.utf8EncodeChar d).length by rw [String.length_utf8EncodeChar]; exact d.utf8Size_pos)
        rw [utf8_cons, encoded] at split
        obtain ⟨rfl, tail⟩ := List.cons.inj split
        obtain ⟨ones, continued, few, continues⟩ := large_of_high encoded high
        have positive := List.length_pos_iff.mpr continued
        obtain ⟨last, others⟩ := escapes_of_unescape (o := utf8 r') (by rw [same, later]; exact congrArg some tail.symm) continues
        have decoded : fromUtf8 (z :: bs) = some [d] := by
          rw [fromUtf8_eq_some, utf8_cons, utf8_nil, List.append_nil, encoded]
        rw [if_neg low, if_neg (by omega), ones, Nat.add_sub_cancel] at reads
        exact ⟨[d], last, r', by rw [reads, others]; simp [decoded], rfl⟩

/-- The standard decodes a text exactly if its percent signs are escapes and the bytes are UTF-8. -/
theorem decodeURI_eq_some : decodeURI text = some r ↔ unescape twoDigits (utf8 text) = some (utf8 r) := by
  induction text using decodeURI.induct generalizing r with
  | case1 =>
    rw [decodeURI, if_pos rfl, utf8_nil, unescape, Option.some.injEq, Option.some.injEq]
    exact ⟨fun same => same ▸ rfl, fun same => utf8_injective same⟩
  | case2 text some_text stuck =>
    rw [decodeURI, if_neg some_text]
    refine iff_of_false ?_ fun read => ?_
    · split
      · nofun
      · rename_i found
        rw [stuck] at found
        cases found
    · obtain ⟨decoded, after, r', found, -⟩ := piece_complete some_text read
      rw [stuck] at found
      cases found
  | case3 text some_text decoded rest read ih =>
    have unfolded : decodeURI text = (decodeURI rest).map (decoded ++ ·) := by
      rw [decodeURI, if_neg some_text]
      split
      · rename_i found
        rw [read] at found
        cases found
      · rename_i found
        rw [read] at found
        cases found
        rfl
    rw [unfolded, piece_sound read]
    constructor
    · intro found
      obtain ⟨r', later, rfl⟩ := Option.map_eq_some_iff.mp found
      rw [ih.mp later, utf8_append]
      rfl
    · intro found
      obtain ⟨o, later, split⟩ := Option.map_eq_some_iff.mp found
      obtain ⟨r', rfl, rfl⟩ := split_of_prefix split.symm
      rw [ih.mpr later]
      rfl

end Pieces

section Signs

def isHexByte (b : UInt8) : Bool := (digitOf 16 (charOf b)).isSome

/-- The bytes with a zero in place of each plus sign between a percent sign and a digit. -/
def unsign : Bytes → Bytes
  | b :: x :: d :: rest =>
    if b = 0x25 ∧ x = 0x2B ∧ isHexByte d = true then b :: 0x30 :: d :: unsign rest else b :: unsign (x :: d :: rest)
  | bytes => bytes

/-- A percent sign, a plus sign and a hexadecimal digit. -/
def Signed (text : Text) : Prop := ∃ left d right, text = left ++ '%' :: '+' :: d :: right ∧ (digitOf 16 d).isSome = true

variable {x y : UInt8} {bytes : Bytes} {text : Text}

theorem hexByte_ascii (low : x.toNat < 128) (low' : y.toNat < 128) :
    hexByte [x, y] = (parseUnsigned 16 256 [charOf x, charOf y]).map UInt8.ofNat := by
  have decoded : fromUtf8 [x, y] = some [charOf x, charOf y] := by
    rw [fromUtf8_eq_some, utf8_cons, utf8_cons, utf8_charOf low, utf8_charOf low']
    rfl
  rw [hexByte, decoded, Option.bind_eq_bind, Option.bind_some]
  cases parseUnsigned 16 256 [charOf x, charOf y] <;> rfl

theorem ascii_of_hexByte {v : UInt8} (read : hexByte [x, y] = some v) : x.toNat < 128 ∧ y.toNat < 128 := by
  simp only [hexByte, Option.bind_eq_bind, Option.bind_eq_some_iff] at read
  obtain ⟨text, decoded, n, parsed, -⟩ := read
  have encoded := fromUtf8_eq_some.mp decoded
  have small : ∀ c ∈ text, c.toNat < 128 := by
    intro c member
    rcases (chars_of_parseUnsigned parsed).2 c member with rfl | ⟨d, digit⟩
    · decide
    · have range := alphanumeric_of_digitOf digit
      omega
  have long := length_utf8_of_ascii small
  rw [encoded] at long
  match text with
  | [] => cases long
  | [a] => cases long
  | a :: b :: rest =>
    obtain ⟨first, others⟩ := List.forall_mem_cons.mp small
    obtain ⟨second, -⟩ := List.forall_mem_cons.mp others
    rw [utf8_cons, utf8_cons, encode_of_ascii first, encode_of_ascii second] at encoded
    simp only [List.singleton_append, List.cons.injEq] at encoded
    rw [← encoded.1, ← encoded.2.1, UInt8.toNat_ofNat', UInt8.toNat_ofNat']
    omega

theorem charOf_plus : charOf x = '+' ↔ x = 0x2B := by
  constructor
  · intro same
    have value := congrArg Char.toNat same
    have byte := x.toNat_lt
    rw [charOf, Char.ofNat, dif_pos (.inl (by omega))] at value
    exact UInt8.toNat_inj.mp value
  · rintro rfl
    rfl

/-- The integer parser reads two digits, and a plus sign and a digit. -/
theorem hexByte_of_unsigned (other : ¬ (x = 0x2B ∧ isHexByte y = true)) : hexByte [x, y] = twoDigits [x, y] := by
  by_cases ascii : x.toNat < 128 ∧ y.toNat < 128
  · rw [hexByte_ascii ascii.1 ascii.2]
    by_cases plus : x = 0x2B
    · have no_digit : digitOf 16 (charOf y) = none := by
        simpa [isHexByte, plus] using other
      rw [charOf_plus.mpr plus, twoDigits, charOf_plus.mpr plus]
      simp [parseUnsigned, numeral, digitsFrom, no_digit]
    · have unsigned : parseUnsigned 16 256 [charOf x, charOf y] = (numeral 16 [charOf x, charOf y]).filter (· < 256) := by
        unfold parseUnsigned
        split
        · rename_i same
          exact absurd (charOf_plus.mp (List.cons.inj same).1) plus
        · rfl
      rw [unsigned, twoDigits]
      cases first : digitOf 16 (charOf x) with
      | none => simp [numeral, digitsFrom, first]
      | some high =>
        cases second : digitOf 16 (charOf y) with
        | none => simp [numeral, digitsFrom, first, second]
        | some low =>
          have below := lt_of_digitOf first
          have below' := lt_of_digitOf second
          have small : high * 16 + low < 256 := by omega
          simp [numeral, digitsFrom, first, second, Option.filter, small]
  · have none_read : hexByte [x, y] = none := by
      cases read : hexByte [x, y] with
      | none => rfl
      | some v => exact absurd (ascii_of_hexByte read) ascii
    rw [none_read, eq_comm]
    cases read : twoDigits [x, y] with
    | none => rfl
    | some v =>
      obtain ⟨high, low, first, second, -⟩ := twoDigits_eq_some.mp read
      exact absurd ⟨low_of_digit first, low_of_digit second⟩ ascii

theorem hexByte_of_signed {d : Nat} (digit : digitOf 16 (charOf y) = some d) :
    hexByte [0x2B, y] = some (UInt8.ofNat d) ∧ twoDigits [0x30, y] = some (UInt8.ofNat d) ∧ reserved (UInt8.ofNat d) = false := by
  have below := lt_of_digitOf digit
  have small : d < 256 := by omega
  refine ⟨?_, twoDigits_eq_some.mpr ⟨0, d, by decide, digit, by simp⟩, ?_⟩
  · rw [hexByte_ascii (by decide) (low_of_digit digit), charOf_plus.mpr rfl]
    simp [parseUnsigned, numeral, digitsFrom, digit, Option.filter, small]
  · have table : ∀ d < 16, reserved (UInt8.ofNat d) = false := by decide
    exact table d below

theorem unsign_head (b : UInt8) (rest : Bytes) : ∃ t, unsign (b :: rest) = b :: t := by
  match rest with
  | [] => exact ⟨[], rfl⟩
  | [x] => exact ⟨[x], rfl⟩
  | x :: d :: rest =>
    unfold unsign
    split
    · exact ⟨_, rfl⟩
    · exact ⟨_, rfl⟩

theorem unsign_other {b : UInt8} (other : b ≠ 0x25) (rest : Bytes) : unsign (b :: rest) = b :: unsign rest := by
  match rest with
  | [] => rfl
  | [x] => rfl
  | x :: d :: rest => rw [unsign, if_neg fun sign => other sign.1]

theorem other_of_digit {d : Nat} (digit : digitOf 16 (charOf x) = some d) : x ≠ 0x25 := by
  rintro rfl
  exact absurd digit (by decide +revert)

/-- The code reads what the standard reads with a zero for each sign. -/
theorem unescape_unsign (bytes : Bytes) : unescape hexByte bytes = unescape twoDigits (unsign bytes) := by
  induction bytes using unsign.induct with
  | case1 b x d rest signed ih =>
    obtain ⟨rfl, rfl, digit⟩ := signed
    obtain ⟨n, digit⟩ := Option.isSome_iff_exists.mp digit
    obtain ⟨code, standard, free⟩ := hexByte_of_signed digit
    rw [unsign, if_pos ⟨rfl, rfl, by simp [isHexByte, digit]⟩, unescape_escape, unescape_escape, code, standard, ih,
      Option.bind_some, Option.bind_some, free]
    rfl
  | case2 b x d rest unsigned ih =>
    rw [unsign, if_neg unsigned]
    by_cases percent : b = 0x25
    · subst percent
      have reads : hexByte [x, d] = twoDigits [x, d] :=
        hexByte_of_unsigned fun sign => unsigned ⟨rfl, sign⟩
      cases digits : twoDigits [x, d] with
      | some v =>
        obtain ⟨high, low, first, second, -⟩ := twoDigits_eq_some.mp digits
        have other := other_of_digit first
        have other' := other_of_digit second
        rw [unescape_other other, unescape_other other', unsign_other other, unsign_other other',
          unescape_other other, unescape_other other', Option.map_map, Option.map_map] at ih
        have later := Option.map_injective ((List.cons_injective (a := x)).comp (List.cons_injective (a := d))) ih
        rw [unescape_escape, reads, digits, later, unsign_other other, unsign_other other', unescape_escape, digits]
      | none =>
        rw [unescape_escape, reads, digits, Option.bind_none]
        cases found : unescape twoDigits (0x25 :: unsign (x :: d :: rest)) with
        | none => rfl
        | some out =>
          obtain ⟨x', d', after, v, o, front, digits', -⟩ := unescape_percent found
          exfalso
          obtain ⟨high, low, first, second, -⟩ := twoDigits_eq_some.mp digits'
          obtain ⟨t, head⟩ := unsign_head x (d :: rest)
          obtain rfl : x = x' := (List.cons.inj (head.symm.trans front)).1
          obtain ⟨t', head'⟩ := unsign_head d rest
          rw [unsign_other (other_of_digit first), head'] at front
          obtain rfl : d = d' := (List.cons.inj (List.cons.inj front).2).1
          rw [digits] at digits'
          cases digits'
    · rw [unescape_other percent, unescape_other percent, ih]
  | case3 bytes short =>
    match bytes with
    | [] => rfl
    | [b] => by_cases other : b ≠ 0x25 <;> simp [unsign, unescape, other]
    | [b, x] => by_cases other : b ≠ 0x25 <;> by_cases other' : x ≠ 0x25 <;> simp [unsign, unescape, other, other']
    | b :: x :: d :: rest => exact (short b x d rest rfl).elim

theorem unsign_eq_self (free : ∀ left d right, bytes = left ++ 0x25 :: 0x2B :: d :: right → isHexByte d = false) :
    unsign bytes = bytes := by
  induction bytes using unsign.induct with
  | case1 b x d rest signed ih =>
    obtain ⟨rfl, rfl, digit⟩ := signed
    rw [free [] d rest rfl] at digit
    cases digit
  | case2 b x d rest unsigned ih =>
    rw [unsign, if_neg unsigned, ih fun left y right same => free (b :: left) y right (by rw [same, List.cons_append])]
  | case3 bytes short => exact unsign.eq_2 bytes short

/-- A sign among the bytes is one in the text. -/
theorem signed_of_bytes {left right : Bytes} (split : utf8 text = left ++ 0x25 :: 0x2B :: x :: right)
    (digit : isHexByte x = true) : Signed text := by
  have found : (utf8 text)[left.length]? = some 0x25 := by simp [split]
  obtain ⟨front, c, rest, rfl, size, value⟩ := boundary_of_low found (by decide)
  obtain rfl : c = '%' := Char.ext (UInt32.toNat_inj.mp value)
  obtain ⟨d, digit⟩ := Option.isSome_iff_exists.mp digit
  rw [utf8_append] at split
  have tail := (List.append_inj split size).2
  rw [utf8_percent] at tail
  obtain ⟨rest', rfl, tail'⟩ := cons_of_low (List.cons.inj tail).2 (by decide)
  obtain ⟨after, rfl, -⟩ := cons_of_low tail' (low_of_digit digit)
  exact ⟨front, charOf x, after, rfl, by rw [digit]; rfl⟩

theorem unsign_text (unsigned : ¬ Signed text) : unsign (utf8 text) = utf8 text := by
  refine unsign_eq_self fun left d right split => ?_
  cases digit : isHexByte d with
  | false => rfl
  | true => exact (unsigned (signed_of_bytes split digit)).elim

theorem no_sign_read {left right : Bytes} : unescape twoDigits (left ++ 0x25 :: 0x2B :: right) = none := by
  induction size : left.length using Nat.strongRecOn generalizing left with
  | _ n ih =>
    cases found : unescape twoDigits (left ++ 0x25 :: 0x2B :: right) with
    | none => rfl
    | some out =>
      exfalso
      match left with
      | [] =>
        obtain ⟨a, d, after, v, o, same, digits, -⟩ := unescape_percent found
        obtain ⟨high, low, first, -⟩ := twoDigits_eq_some.mp digits
        rw [← (List.cons.inj same).1] at first
        exact absurd first (by decide +revert)
      | b :: left =>
        by_cases percent : b = 0x25
        · subst percent
          obtain ⟨a, d, after, v, o, same, digits, later, -⟩ := unescape_percent found
          obtain ⟨high, low, first, second, -⟩ := twoDigits_eq_some.mp digits
          match left with
          | [] => exact other_of_digit first (List.cons.inj same).1.symm
          | [_] => exact other_of_digit second (List.cons.inj (List.cons.inj same).2).1.symm
          | a' :: d' :: left =>
            have same' : left ++ 0x25 :: 0x2B :: right = after := (List.cons.inj (List.cons.inj same).2).2
            rw [← same', ih left.length (by simp only [List.length_cons] at size; omega) rfl] at later
            cases later
        · rw [List.cons_append, unescape_other percent, ih left.length (by simp only [List.length_cons] at size; omega) rfl] at found
          cases found

/-- The standard reads no sign. -/
theorem decodeURI_signed (signed : Signed text) : decodeURI text = none := by
  obtain ⟨left, d, right, rfl, -⟩ := signed
  cases found : decodeURI (left ++ '%' :: '+' :: d :: right) with
  | none => rfl
  | some r =>
    have read := decodeURI_eq_some.mp found
    rw [utf8_append, utf8_percent] at read
    change unescape twoDigits (utf8 left ++ 0x25 :: 0x2B :: utf8 (d :: right)) = _ at read
    rw [no_sign_read] at read
    cases read

end Signs

theorem decodeURI_eq (text : Text) : decodeURI text = (unescape twoDigits (utf8 text)).bind fromUtf8 := by
  refine Option.ext fun r => ?_
  rw [decodeURI_eq_some, Option.bind_eq_some_iff]
  constructor
  · exact fun read => ⟨utf8 r, read, fromUtf8_eq_some.mpr rfl⟩
  · rintro ⟨bytes, read, decoded⟩
    rw [read, fromUtf8_eq_some.mp decoded]

/-- The code decodes what the standard decodes, and a text with signs as the one with zeros. -/
theorem decodeUri_iff (body : Text) :
    (decodeUri body = decodeURI body ↔
      ¬ Signed body ∨ (unescape twoDigits (unsign (utf8 body))).bind fromUtf8 = none) ∧
    decodeURI body = (unescape twoDigits (utf8 body)).bind fromUtf8 ∧
    (decodeUri body = none → query body = []) := by
  refine ⟨?_, decodeURI_eq body, fun failed => by rw [query, failed]; rfl⟩
  rw [decodeUri, unescape_unsign]
  by_cases signed : Signed body
  · rw [decodeURI_signed signed]
    simp [signed]
  · rw [unsign_text signed, decodeURI_eq]
    simp [signed]

/-- A percent sign, a plus sign and a digit are decoded. -/
theorem signed_body : Signed "%+F".toList ∧ decodeUri "%+F".toList = some [Char.ofNat 15] ∧ decodeURI "%+F".toList = none := by
  have signed : Signed "%+F".toList := ⟨[], 'F', [], rfl, by decide⟩
  refine ⟨signed, by decide, decodeURI_signed signed⟩

end NixHomeServer.Browsertrix.UriDecoding
