import Mathlib.Data.List.Basic

/-! Texts by the bytes of their UTF-8 encoding: which byte indices fall between
two characters. -/
namespace NixHomeServer.Library

def utf8 (text : List Char) : List UInt8 := text.flatMap String.utf8EncodeChar

@[simp] theorem utf8_nil : utf8 [] = [] := rfl

@[simp] theorem utf8_cons (c : Char) (text : List Char) : utf8 (c :: text) = String.utf8EncodeChar c ++ utf8 text := by
  simp only [utf8, List.flatMap_cons]

@[simp] theorem utf8_append (left right : List Char) : utf8 (left ++ right) = utf8 left ++ utf8 right := by
  simp only [utf8, List.flatMap_append]

theorem length_le_utf8 (text : List Char) : text.length ≤ (utf8 text).length := by
  induction text with
  | nil => exact Nat.le_refl 0
  | cons c rest ih =>
    have positive := c.utf8Size_pos
    rw [utf8_cons, List.length_append, String.length_utf8EncodeChar, List.length_cons]
    omega

/-- A byte of a character's encoding below 128 is all of it. -/
theorem encode_of_low {c : Char} {b : UInt8} (member : b ∈ String.utf8EncodeChar c) (low : b.toNat < 128) :
    String.utf8EncodeChar c = [b] ∧ c.val.toNat = b.toNat := by
  unfold String.utf8EncodeChar at member ⊢
  dsimp only at member ⊢
  split at member
  · rename_i small
    rw [if_pos small]
    obtain rfl := List.mem_singleton.mp member
    refine ⟨rfl, ?_⟩
    rw [UInt8.toNat_ofNat', Nat.mod_eq_of_lt (by omega)]
  · exfalso
    split at member
    all_goals first | split at member | skip
    all_goals
      simp only [List.mem_cons, List.not_mem_nil, or_false] at member
      rcases member with rfl | rfl | rfl | rfl <;> rw [UInt8.toNat_ofNat'] at low <;> omega

/-- The number of leading ones of a byte, up to five. -/
def leadingOnes (b : Nat) : Nat :=
  if b < 0x80 then 0
  else if b < 0xC0 then 1
  else if b < 0xE0 then 2
  else if b < 0xF0 then 3
  else if b < 0xF8 then 4
  else 5

theorem leadingOnes_of {b n : Nat} (within : (n = 2 ∧ 0xC0 ≤ b ∧ b < 0xE0) ∨ (n = 3 ∧ 0xE0 ≤ b ∧ b < 0xF0) ∨
    (n = 4 ∧ 0xF0 ≤ b ∧ b < 0xF8)) : leadingOnes b = n := by
  unfold leadingOnes
  repeat' split
  all_goals omega

/-- A character that is not ASCII has as many bytes as the first one has leading ones, and the
others continue it. -/
theorem encode_of_large {c : Char} (large : 128 ≤ c.toNat) : ∃ b bs, String.utf8EncodeChar c = b :: bs ∧
    0xC0 ≤ b.toNat ∧ leadingOnes b.toNat = bs.length + 1 ∧ bs ≠ [] ∧ bs.length ≤ 3 ∧ ∀ x ∈ bs, 0x80 ≤ x.toNat ∧ x.toNat < 0xC0 := by
  have range : c.val.toNat < 0x110000 := by
    rcases c.valid with small | ⟨-, below⟩
    · exact Nat.lt_trans small (by decide)
    · exact below
  have wide : ¬ c.val.toNat ≤ 0x7f := Nat.not_le.mpr large
  unfold String.utf8EncodeChar
  dsimp only
  rw [if_neg wide]
  repeat' split
  all_goals
    refine ⟨_, _, rfl, ?_, leadingOnes_of ?_, List.cons_ne_nil _ _, by simp, ?_⟩
    all_goals
      simp only [UInt8.toNat_ofNat', List.length_cons, List.length_nil, List.mem_cons, List.not_mem_nil, or_false,
        forall_eq_or_imp, forall_eq, true_and]
      omega

theorem encode_of_ascii {c : Char} (small : c.toNat < 128) : String.utf8EncodeChar c = [UInt8.ofNat c.toNat] := by
  have fits : c.val.toNat ≤ 0x7f := Nat.le_of_lt_succ small
  simp only [String.utf8EncodeChar, if_pos fits, Char.toNat]

theorem length_utf8_of_ascii {text : List Char} (small : ∀ c ∈ text, c.toNat < 128) :
    (utf8 text).length = text.length := by
  induction text with
  | nil => rfl
  | cons c rest ih =>
    have tail := ih fun x member => small x (List.mem_cons_of_mem _ member)
    simp only [utf8_cons, encode_of_ascii (small c List.mem_cons_self), List.length_append, List.length_cons,
      List.length_nil, tail]
    omega

/-- The texts before and after a byte index, if it does not fall into a character. -/
def splitAtByte : List Char → Nat → Option (List Char × List Char)
  | text, 0 => some ([], text)
  | [], _ + 1 => none
  | c :: rest, index + 1 =>
    if c.utf8Size ≤ index + 1 then
      (splitAtByte rest (index + 1 - c.utf8Size)).map fun parts => (c :: parts.1, parts.2)
    else none

theorem splitAtByte_append (left right : List Char) :
    splitAtByte (left ++ right) (utf8 left).length = some (left, right) := by
  induction left with
  | nil => cases right <;> rfl
  | cons c rest ih =>
    have size : (utf8 (c :: rest)).length = c.utf8Size + (utf8 rest).length := by
      rw [utf8_cons, List.length_append, String.length_utf8EncodeChar]
    obtain ⟨index, positive⟩ : ∃ index, (utf8 (c :: rest)).length = index + 1 :=
      ⟨_, (Nat.succ_pred_eq_of_pos (by have := c.utf8Size_pos; omega)).symm⟩
    rw [positive, List.cons_append, splitAtByte, if_pos (by omega)]
    rw [show index + 1 - c.utf8Size = (utf8 rest).length by omega, ih]
    rfl

/-- Where a text is cut follows from the bytes before it. -/
theorem append_inj_utf8 {left left' right right' : List Char} (same : left ++ right = left' ++ right')
    (size : (utf8 left).length = (utf8 left').length) : left = left' ∧ right = right' := by
  have parts := splitAtByte_append left right
  rw [same, size, splitAtByte_append] at parts
  simp only [Option.some.injEq, Prod.mk.injEq] at parts
  exact ⟨parts.1.symm, parts.2.symm⟩

theorem splitAtByte_eq_some {text left right : List Char} {index : Nat}
    (split : splitAtByte text index = some (left, right)) : text = left ++ right ∧ (utf8 left).length = index := by
  induction text, index using splitAtByte.induct generalizing left with
  | case1 text =>
    simp only [splitAtByte, Option.some.injEq, Prod.mk.injEq] at split
    obtain ⟨rfl, rfl⟩ := split
    exact ⟨rfl, rfl⟩
  | case2 index => simp only [splitAtByte, reduceCtorEq] at split
  | case3 c rest index fits ih =>
    rw [splitAtByte, if_pos fits] at split
    obtain ⟨⟨l, r⟩, found, parts⟩ := Option.map_eq_some_iff.mp split
    cases parts
    obtain ⟨rfl, size⟩ := ih found
    refine ⟨rfl, ?_⟩
    rw [utf8_cons, List.length_append, String.length_utf8EncodeChar, size]
    omega
  | case4 c rest index spent => simp only [splitAtByte, if_neg spent, reduceCtorEq] at split

/-- A byte below 128 is a character, and its index falls before that. -/
theorem boundary_of_low {text : List Char} {index : Nat} {b : UInt8} (found : (utf8 text)[index]? = some b)
    (low : b.toNat < 128) :
    ∃ left c right, text = left ++ c :: right ∧ (utf8 left).length = index ∧ c.val.toNat = b.toNat := by
  induction text generalizing index with
  | nil => simp only [utf8_nil, List.getElem?_nil, reduceCtorEq] at found
  | cons c rest ih =>
    rw [utf8_cons] at found
    by_cases inside : index < (String.utf8EncodeChar c).length
    · rw [List.getElem?_append_left inside] at found
      obtain ⟨alone, value⟩ := encode_of_low (List.mem_of_getElem? found) low
      rw [alone, List.length_singleton] at inside
      exact ⟨[], c, rest, rfl, by rw [utf8_nil, List.length_nil]; omega, value⟩
    · rw [List.getElem?_append_right (by omega)] at found
      obtain ⟨left, d, right, rfl, size, value⟩ := ih found
      refine ⟨c :: left, d, right, rfl, ?_, value⟩
      rw [utf8_cons, List.length_append, size]
      omega

section Boundaries

variable {text : List Char}

/-- Whether a byte index falls between two characters. -/
def isCharBoundary (text : List Char) (index : Nat) : Bool := (splitAtByte text index).isSome

theorem isCharBoundary_iff {index : Nat} :
    isCharBoundary text index = true ↔ ∃ left, left <+: text ∧ (utf8 left).length = index := by
  rw [isCharBoundary, Option.isSome_iff_exists]
  constructor
  · rintro ⟨⟨left, right⟩, split⟩
    obtain ⟨whole, size⟩ := splitAtByte_eq_some split
    exact ⟨left, ⟨right, whole.symm⟩, size⟩
  · rintro ⟨left, ⟨right, rfl⟩, rfl⟩
    exact ⟨_, splitAtByte_append left right⟩

theorem isCharBoundary_length (text : List Char) : isCharBoundary text (utf8 text).length = true :=
  isCharBoundary_iff.mpr ⟨text, List.prefix_refl text, rfl⟩

theorem isCharBoundary_append (left right : List Char) (index : Nat) :
    isCharBoundary (left ++ right) ((utf8 left).length + index) = isCharBoundary right index := by
  induction left with
  | nil => rw [List.nil_append, utf8_nil, List.length_nil, Nat.zero_add]
  | cons c left ih =>
    have positive := c.utf8Size_pos
    have count : (utf8 (c :: left)).length = c.utf8Size + (utf8 left).length := by
      rw [utf8_cons, List.length_append, String.length_utf8EncodeChar]
    obtain ⟨before, same⟩ : ∃ before, (utf8 (c :: left)).length + index = before + 1 :=
      ⟨_, (Nat.succ_pred_eq_of_pos (by omega)).symm⟩
    have rest : before + 1 - c.utf8Size = (utf8 left).length + index := by omega
    rw [same, List.cons_append, isCharBoundary, splitAtByte, if_pos (by omega), Option.isSome_map, rest]
    exact ih

/-- The last boundary that is no later than an index. -/
def floorBoundary (text : List Char) : Nat → Nat
  | 0 => 0
  | index + 1 => if isCharBoundary text (index + 1) then index + 1 else floorBoundary text index

theorem floorBoundary_le (text : List Char) (index : Nat) : floorBoundary text index ≤ index := by
  induction index with
  | zero => exact Nat.le_refl 0
  | succ index ih =>
    rw [floorBoundary]
    split
    · exact Nat.le_refl _
    · omega

theorem isCharBoundary_floorBoundary (text : List Char) (index : Nat) :
    isCharBoundary text (floorBoundary text index) = true := by
  induction index with
  | zero => exact isCharBoundary_iff.mpr ⟨[], List.nil_prefix, rfl⟩
  | succ index ih =>
    rw [floorBoundary]
    split
    · assumption
    · exact ih

theorem le_floorBoundary {index boundary : Nat} (at_boundary : isCharBoundary text boundary = true)
    (below : boundary ≤ index) : boundary ≤ floorBoundary text index := by
  induction index with
  | zero => exact below
  | succ index ih =>
    rw [floorBoundary]
    split
    · exact below
    · rename_i off
      have other : boundary ≠ index + 1 := by
        rintro rfl
        exact off at_boundary
      exact ih (by omega)

/-- The longest part of a text from its start that ends between two characters and has at most that
many bytes. -/
structure LongestWithin (limit : Nat) (text part : List Char) : Prop where
  starts : part <+: text
  bounded : (utf8 part).length ≤ limit
  longest : ∀ other, other <+: text → (utf8 other).length ≤ limit → other <+: part

theorem LongestWithin.self {limit : Nat} (small : (utf8 text).length ≤ limit) : LongestWithin limit text text where
  starts := List.prefix_refl text
  bounded := small
  longest _ starts _ := starts

/-- What no boundary within the limit exceeds is the longest part within it. -/
theorem LongestWithin.of_last {limit : Nat} {part : List Char} (starts : part <+: text)
    (bounded : (utf8 part).length ≤ limit)
    (last : ∀ boundary, isCharBoundary text boundary = true → boundary ≤ limit → boundary ≤ (utf8 part).length) :
    LongestWithin limit text part where
  starts := starts
  bounded := bounded
  longest other starts' bounded' := by
    rcases List.prefix_or_prefix_of_prefix starts starts' with longer | shorter
    · obtain ⟨more, rfl⟩ := longer
      have reach := last _ (isCharBoundary_iff.mpr ⟨_, starts', rfl⟩) bounded'
      have none : more = [] := by
        have count := length_le_utf8 more
        rw [utf8_append, List.length_append] at reach
        exact List.length_eq_zero_iff.mp (by omega)
      simp only [none, List.append_nil, List.prefix_rfl]
    · exact shorter

end Boundaries

def fromUtf8 (bytes : List UInt8) : Option (List Char) :=
  bytes.toByteArray.utf8Decode?.map Array.toList

theorem toByteArray_utf8 (text : List Char) : (utf8 text).toByteArray = text.utf8Encode := rfl

theorem fromUtf8_eq_some {bytes : List UInt8} {text : List Char} : fromUtf8 bytes = some text ↔ utf8 text = bytes := by
  constructor
  · intro decoded
    obtain ⟨chars, found, rfl⟩ := Option.map_eq_some_iff.mp decoded
    have there : (bytes.toByteArray.utf8Decode?).isSome := by rw [found]; rfl
    have encoded := ByteArray.utf8Encode_get_utf8Decode? (h := there)
    simp only [found, Option.get_some] at encoded
    rw [← toByteArray_utf8] at encoded
    simpa using congrArg (fun array => array.data.toList) encoded
  · rintro rfl
    rw [fromUtf8, toByteArray_utf8, List.utf8Decode?_utf8Encode]
    simp

theorem utf8_injective {left right : List Char} (same : utf8 left = utf8 right) : left = right := by
  have decoded := fromUtf8_eq_some.mpr same
  rw [fromUtf8_eq_some.mpr rfl] at decoded
  exact (Option.some.inj decoded).symm

/-- Bytes that end in the encoding of a text that starts with an ASCII character. -/
theorem split_of_ascii {text tail : List Char} {body : List UInt8} {c : Char} (small : c.toNat < 128)
    (encoded : utf8 text = body ++ utf8 (c :: tail)) : ∃ left, text = left ++ c :: tail ∧ utf8 left = body := by
  rw [utf8_cons, encode_of_ascii small, List.singleton_append] at encoded
  have byte : (UInt8.ofNat c.toNat).toNat = c.toNat := by
    rw [UInt8.toNat_ofNat', Nat.mod_eq_of_lt (by omega)]
  have found : (utf8 text)[body.length]? = some (UInt8.ofNat c.toNat) := by
    rw [encoded, List.getElem?_append_right (Nat.le_refl _), Nat.sub_self, List.getElem?_cons_zero]
  obtain ⟨left, d, right, rfl, size, value⟩ := boundary_of_low found (by rw [byte]; exact small)
  obtain rfl : d = c := Char.ext (UInt32.toNat_inj.mp (value.trans byte))
  rw [utf8_append, utf8_cons, encode_of_ascii small, List.singleton_append] at encoded
  obtain ⟨own, rest⟩ := List.append_inj encoded size
  obtain rfl := utf8_injective (List.cons.inj rest).2
  exact ⟨left, rfl, own⟩

/-- A text whose encoding starts with that of another starts with the other. -/
theorem split_of_prefix {text left : List Char} {after : List UInt8} (encoded : utf8 text = utf8 left ++ after) :
    ∃ right, text = left ++ right ∧ utf8 right = after := by
  induction left generalizing text with
  | nil => exact ⟨text, rfl, encoded⟩
  | cons c left ih =>
    cases text with
    | nil =>
      have count := congrArg List.length encoded
      have positive := c.utf8Size_pos
      rw [utf8_cons, utf8_nil, List.length_append, List.length_append, String.length_utf8EncodeChar, List.length_nil] at count
      omega
    | cons d text =>
      rw [utf8_cons, utf8_cons, List.append_assoc] at encoded
      have arrays := congrArg (fun bytes : List UInt8 => bytes.toByteArray.utf8DecodeChar? 0) encoded
      simp only [List.toByteArray_append, ByteArray.utf8DecodeChar?_utf8EncodeChar_append, Option.some.injEq] at arrays
      subst arrays
      obtain ⟨right, rfl, same⟩ := ih (List.append_cancel_left encoded)
      exact ⟨right, rfl, same⟩

end NixHomeServer.Library
