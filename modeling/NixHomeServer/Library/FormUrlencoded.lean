import NixHomeServer.Library.Lossy
import NixHomeServer.Library.Numerals
import NixHomeServer.Library.Text

/-! Names and values as a form is sent: how they are read, and that what is written with
escapes for all but some characters is read back. -/
namespace NixHomeServer.Library.FormUrlencoded

section Reading

def hexDigit (b : UInt8) : Option Nat := digitOf 16 (Char.ofNat b.toNat)

def percentDecode : List UInt8 → List UInt8
  | b :: high :: low :: after =>
    if b = 0x25 then match hexDigit high, hexDigit low with
      | some a, some d => UInt8.ofNat (a * 16 + d) :: percentDecode after
      | _, _ => b :: percentDecode (high :: low :: after)
    else b :: percentDecode (high :: low :: after)
  | b :: rest => b :: percentDecode rest
  | [] => []

def plusToSpace (bytes : List UInt8) : List UInt8 := bytes.map fun b => if b = 0x2B then 0x20 else b

def decode (bytes : List UInt8) : List Char := fromUtf8Lossy (percentDecode (plusToSpace bytes))

def parse (query : List UInt8) : List (List Char × List Char) :=
  ((splitAll 0x26 query).filter (· ≠ [])).map fun sequence => match cutAt 0x3D sequence with
    | some (name, value) => (decode name, decode value)
    | none => (decode sequence, [])

end Reading

section Writing

variable {kept : UInt8 → Bool} {text : List Char} {bytes rest : List UInt8} {b : UInt8}

def hexChar (n : Nat) : UInt8 := if n < 10 then UInt8.ofNat (48 + n) else UInt8.ofNat (55 + n)

/-- A byte that is kept, or a space as a plus sign, or an escape. -/
def encodeByte (kept : UInt8 → Bool) (b : UInt8) : List UInt8 :=
  if kept b then [b] else if b = 0x20 then [0x2B] else [0x25, hexChar (b.toNat / 16), hexChar (b.toNat % 16)]

def encode (kept : UInt8 → Bool) (text : List Char) : List UInt8 := (utf8 text).flatMap (encodeByte kept)

def writePair (kept : UInt8 → Bool) (pair : List Char × List Char) : List UInt8 := utf8 pair.1 ++ 0x3D :: encode kept pair.2

def write (kept : UInt8 → Bool) (pairs : List (List Char × List Char)) : List UInt8 := [0x26].intercalate (pairs.map (writePair kept))

/-- Bytes that stand for themselves. -/
def Plain (b : UInt8) : Prop := b ≠ 0x25 ∧ b ≠ 0x2B ∧ b ≠ 0x26 ∧ b ≠ 0x3D

instance (b : UInt8) : Decidable (Plain b) := inferInstanceAs (Decidable (_ ∧ _))

theorem percentDecode_plain (plain : b ≠ 0x25) (rest : List UInt8) : percentDecode (b :: rest) = b :: percentDecode rest := by
  match rest with
  | [] | [_] => rfl
  | high :: low :: after => simp [percentDecode, plain]

theorem hexChar_facts : ∀ n < 16, hexDigit (hexChar n) = some n ∧ Plain (hexChar n) := by
  decide

theorem plusToSpace_append (left right : List UInt8) : plusToSpace (left ++ right) = plusToSpace left ++ plusToSpace right :=
  List.map_append

/-- An encoded byte is read back. -/
theorem percentDecode_encodeByte (keeps : ∀ b, kept b = true → Plain b) (b : UInt8) (rest : List UInt8) :
    percentDecode (plusToSpace (encodeByte kept b) ++ rest) = b :: percentDecode rest := by
  have plus : ∀ x : UInt8, Plain x → plusToSpace [x] = [x] := by
    intro x plain
    simp [plusToSpace, plain.2.1]
  unfold encodeByte
  split
  · rename_i keep
    rw [plus b (keeps b keep), List.singleton_append, percentDecode_plain (keeps b keep).1]
  · split
    · rename_i space
      rw [space]
      exact percentDecode_plain (by decide) rest
    · have large := b.toNat_lt
      obtain ⟨high, plain⟩ := hexChar_facts (b.toNat / 16) (by omega)
      obtain ⟨low, plain'⟩ := hexChar_facts (b.toNat % 16) (by omega)
      have escape : plusToSpace [0x25, hexChar (b.toNat / 16), hexChar (b.toNat % 16)] =
          [0x25, hexChar (b.toNat / 16), hexChar (b.toNat % 16)] := by
        simp [plusToSpace, plain.2.1, plain'.2.1]
      rw [escape, List.cons_append, List.cons_append, List.cons_append, List.nil_append, percentDecode]
      simp only [if_true, high, low]
      rw [show b.toNat / 16 * 16 + b.toNat % 16 = b.toNat by omega, UInt8.ofNat_toNat]

theorem decode_encode (keeps : ∀ b, kept b = true → Plain b) (text : List Char) : decode (encode kept text) = text := by
  have bytes : ∀ bytes : List UInt8, percentDecode (plusToSpace (bytes.flatMap (encodeByte kept))) = bytes := by
    intro bytes
    induction bytes with
    | nil => rfl
    | cons b rest ih => rw [List.flatMap_cons, plusToSpace_append, percentDecode_encodeByte keeps, ih]
  rw [decode, encode, bytes, fromUtf8Lossy_utf8]

theorem decode_plain (plain : ∀ b ∈ utf8 text, Plain b) : decode (utf8 text) = text := by
  have bytes : ∀ bytes : List UInt8, (∀ b ∈ bytes, Plain b) → percentDecode (plusToSpace bytes) = bytes := by
    intro bytes plain
    induction bytes with
    | nil => rfl
    | cons b rest ih =>
      obtain ⟨own, others⟩ := List.forall_mem_cons.mp plain
      have same : plusToSpace (b :: rest) = b :: plusToSpace rest := by simp [plusToSpace, own.2.1]
      rw [same, percentDecode_plain own.1, ih others]
  rw [decode, bytes _ plain, fromUtf8Lossy_utf8]

/-- What is written has no separators. -/
theorem separators_encode (keeps : ∀ b, kept b = true → Plain b) : 0x26 ∉ encode kept text ∧ 0x3D ∉ encode kept text := by
  have each : ∀ b, ∀ x ∈ encodeByte kept b, x ≠ 0x26 ∧ x ≠ 0x3D := by
    intro b x member
    unfold encodeByte at member
    split at member
    · rename_i keep
      rw [List.mem_singleton.mp member]
      exact (keeps b keep).2.2
    · split at member
      · rw [List.mem_singleton.mp member]
        decide
      · have large := b.toNat_lt
        simp only [List.mem_cons, List.not_mem_nil, or_false] at member
        rcases member with rfl | rfl | rfl
        · decide
        · exact (hexChar_facts _ (by omega)).2.2.2
        · exact (hexChar_facts _ (by omega)).2.2.2
  constructor
  all_goals
    intro member
    obtain ⟨b, -, inside⟩ := List.mem_flatMap.mp member
  · exact (each b _ inside).1 rfl
  · exact (each b _ inside).2 rfl

/-- Pairs with plain names are read back. -/
theorem parse_write (keeps : ∀ b, kept b = true → Plain b) {pairs : List (List Char × List Char)}
    (plain : ∀ pair ∈ pairs, ∀ b ∈ utf8 pair.1, Plain b) : parse (write kept pairs) = pairs := by
  by_cases none_there : pairs = []
  · subst none_there
    rfl
  · have clean : ∀ part ∈ pairs.map (writePair kept), 0x26 ∉ part := by
      intro part member
      obtain ⟨pair, among, rfl⟩ := List.mem_map.mp member
      intro inside
      rcases List.mem_append.mp inside with name | value
      · exact (plain pair among _ name).2.2.1 rfl
      · rcases List.mem_cons.mp value with same | value
        · cases same
        · exact (separators_encode keeps).1 value
    have nonempty : (pairs.map (writePair kept)).filter (· ≠ []) = pairs.map (writePair kept) := by
      refine List.filter_eq_self.mpr fun part member => ?_
      obtain ⟨pair, -, rfl⟩ := List.mem_map.mp member
      simp [writePair]
    rw [parse, write, splitAll_intercalate _ (by simpa using none_there) clean, nonempty, List.map_map]
    refine (List.map_congr_left fun pair among => ?_).trans (List.map_id pairs)
    have cut : cutAt 0x3D (writePair kept pair) = some (utf8 pair.1, encode kept pair.2) :=
      cutAt_append _ _ fun inside => (plain pair among _ inside).2.2.2 rfl
    rw [Function.comp_apply, cut]
    dsimp only
    rw [decode_plain (plain pair among), decode_encode keeps]
    rfl

end Writing

end NixHomeServer.Library.FormUrlencoded
