import Mathlib.Tactic.Ring
import NixHomeServer.Library.Utf8

/-! Bytes read as UTF-8 with a replacement character for each longest part that starts
a character and does not end one. -/
namespace NixHomeServer.Library

/-- A character that has been started: the bytes it still needs, what the next one may be, and
the number read so far. -/
structure Pending where
  more : Nat
  low : Nat
  high : Nat
  value : Nat
  deriving DecidableEq, Repr

def replacement : Char := Char.ofNat 0xFFFD

/-- What a first byte makes: a character, or the start of one. -/
def firstByte (b : UInt8) : List Char × Option Pending :=
  let n := b.toNat
  if n < 0x80 then ([Char.ofNat n], none)
  else if n < 0xC2 then ([replacement], none)
  else if n < 0xE0 then ([], some ⟨0, 0x80, 0xBF, n - 0xC0⟩)
  else if n = 0xE0 then ([], some ⟨1, 0xA0, 0xBF, 0⟩)
  else if n = 0xED then ([], some ⟨1, 0x80, 0x9F, 0xD⟩)
  else if n < 0xF0 then ([], some ⟨1, 0x80, 0xBF, n - 0xE0⟩)
  else if n = 0xF0 then ([], some ⟨2, 0x90, 0xBF, 0⟩)
  else if n < 0xF4 then ([], some ⟨2, 0x80, 0xBF, n - 0xF0⟩)
  else if n = 0xF4 then ([], some ⟨2, 0x80, 0x8F, 4⟩)
  else ([replacement], none)

def lossyFrom : Option Pending → List UInt8 → List Char
  | none, [] => []
  | some _, [] => [replacement]
  | none, b :: rest => (firstByte b).1 ++ lossyFrom (firstByte b).2 rest
  | some p, b :: rest =>
    if p.low ≤ b.toNat ∧ b.toNat ≤ p.high then
      let value := p.value * 64 + (b.toNat - 0x80)
      match p.more with
      | 0 => Char.ofNat value :: lossyFrom none rest
      | more + 1 => lossyFrom (some ⟨more, 0x80, 0xBF, value⟩) rest
    else replacement :: (firstByte b).1 ++ lossyFrom (firstByte b).2 rest

def fromUtf8Lossy (bytes : List UInt8) : List Char := lossyFrom none bytes

section Ascii

/-- No byte that continues this start makes an ASCII character of it. -/
def Pending.Wide (p : Pending) : Prop := 0x80 ≤ p.low ∧ 128 ≤ (p.value * 64 + (p.low - 0x80)) * 64 ^ p.more

theorem firstByte_wide {b : UInt8} {p : Pending} (started : (firstByte b).2 = some p) : p.Wide ∧ 0x80 ≤ b.toNat := by
  unfold firstByte at started
  dsimp only at started
  repeat' split at started
  all_goals
    cases started
    try exact ⟨⟨by simp, by simp; try omega⟩, by omega⟩

theorem toNat_ofNat_wide {n : Nat} (wide : 128 ≤ n) : (Char.ofNat n).toNat = 0 ∨ 128 ≤ (Char.ofNat n).toNat := by
  by_cases valid : n.isValidChar
  · rw [Char.ofNat, dif_pos valid]
    exact .inr wide
  · rw [Char.ofNat, dif_neg valid]
    exact .inl rfl

variable {holds : Char → Bool}

/-- A predicate of visible ASCII characters holds of no more characters than bytes. -/
theorem countP_lossyFrom (ascii : ∀ c, holds c = true → 0 < c.toNat ∧ c.toNat < 128) (p : Option Pending)
    (wide : ∀ q, p = some q → q.Wide) (bytes : List UInt8) :
    (lossyFrom p bytes).countP holds ≤ bytes.countP fun b => holds (Char.ofNat b.toNat) := by
  have not_wide : ∀ n, 128 ≤ n → holds (Char.ofNat n) = false := by
    intro n large
    cases seen : holds (Char.ofNat n) with
    | false => rfl
    | true =>
      have small := ascii _ seen
      rcases toNat_ofNat_wide large with zero | large'
      · omega
      · omega
  have not_replacement : holds replacement = false := not_wide 0xFFFD (by decide)
  have first : ∀ b, (firstByte b).1.countP holds ≤ if holds (Char.ofNat b.toNat) then 1 else 0 := by
    intro b
    unfold firstByte
    dsimp only
    repeat' split
    all_goals simp_all
  induction bytes generalizing p with
  | nil =>
    cases p with
    | none => simp [lossyFrom]
    | some q => simp [lossyFrom, not_replacement]
  | cons b rest ih =>
    have begin : ((firstByte b).1 ++ lossyFrom (firstByte b).2 rest).countP holds ≤
        (b :: rest).countP fun b => holds (Char.ofNat b.toNat) := by
      have tail := ih (firstByte b).2 fun q started => (firstByte_wide started).1
      have head := first b
      rw [List.countP_append, List.countP_cons]
      omega
    cases p with
    | none => exact begin
    | some q =>
      obtain ⟨low, large⟩ := wide q rfl
      unfold lossyFrom
      split
      · rename_i within
        dsimp only
        split
        · rename_i last
          rw [last, Nat.pow_zero, Nat.mul_one] at large
          have tail := ih none nofun
          rw [List.countP_cons, not_wide _ (by omega), List.countP_cons]
          simp only [Bool.false_eq_true, if_false]
          omega
        · rename_i more count
          have goes_on : (⟨more, 0x80, 0xBF, q.value * 64 + (b.toNat - 0x80)⟩ : Pending).Wide := by
            refine ⟨Nat.le_refl _, ?_⟩
            rw [count, Nat.pow_succ] at large
            have grown : (q.value * 64 + (q.low - 0x80)) * (64 ^ more * 64) ≤
                ((q.value * 64 + (b.toNat - 0x80)) * 64 + (0x80 - 0x80)) * 64 ^ more := by
              have factor : q.value * 64 + (q.low - 0x80) ≤ q.value * 64 + (b.toNat - 0x80) := by omega
              calc (q.value * 64 + (q.low - 0x80)) * (64 ^ more * 64)
                  ≤ (q.value * 64 + (b.toNat - 0x80)) * (64 ^ more * 64) := Nat.mul_le_mul_right _ factor
                _ = ((q.value * 64 + (b.toNat - 0x80)) * 64 + (0x80 - 0x80)) * 64 ^ more := by ring
            exact Nat.le_trans large grown
          have tail := ih (some ⟨more, 0x80, 0xBF, q.value * 64 + (b.toNat - 0x80)⟩) (by
            rintro _ ⟨⟩
            exact goes_on)
          rw [List.countP_cons]
          omega
      · rw [List.cons_append, List.countP_cons, not_replacement]
        simpa using begin

theorem countP_fromUtf8Lossy (ascii : ∀ c, holds c = true → 0 < c.toNat ∧ c.toNat < 128) (bytes : List UInt8) :
    (fromUtf8Lossy bytes).countP holds ≤ bytes.countP fun b => holds (Char.ofNat b.toNat) :=
  countP_lossyFrom ascii none nofun bytes

end Ascii

section RoundTrip

theorem lossyFrom_started {p : Pending} {b : UInt8} {rest : List UInt8} {more : Nat} (within : p.low ≤ b.toNat ∧ b.toNat ≤ p.high)
    (count : p.more = more + 1) :
    lossyFrom (some p) (b :: rest) = lossyFrom (some ⟨more, 0x80, 0xBF, p.value * 64 + (b.toNat - 0x80)⟩) rest := by
  rw [lossyFrom, if_pos within]
  dsimp only
  rw [count]

theorem lossyFrom_last {p : Pending} {b : UInt8} {rest : List UInt8} (within : p.low ≤ b.toNat ∧ b.toNat ≤ p.high) (count : p.more = 0) :
    lossyFrom (some p) (b :: rest) = Char.ofNat (p.value * 64 + (b.toNat - 0x80)) :: lossyFrom none rest := by
  rw [lossyFrom, if_pos within]
  dsimp only
  rw [count]

/-- The start that a first byte of a longer character makes. -/
theorem firstByte_long {b : UInt8} (long : 0xC2 ≤ b.toNat ∧ b.toNat < 0xF5) : ∃ p : Pending, firstByte b = ([], some p) ∧
    (b.toNat < 0xE0 → p.more = 0 ∧ p.value = b.toNat - 0xC0) ∧ (0xE0 ≤ b.toNat → b.toNat < 0xF0 → p.more = 1 ∧ p.value = b.toNat - 0xE0) ∧
    (0xF0 ≤ b.toNat → p.more = 2 ∧ p.value = b.toNat - 0xF0) ∧
    ∀ x, 0x80 ≤ x → x ≤ 0xBF → (b.toNat = 0xE0 → 0xA0 ≤ x) → (b.toNat = 0xED → x ≤ 0x9F) → (b.toNat = 0xF0 → 0x90 ≤ x) →
      (b.toNat = 0xF4 → x ≤ 0x8F) → p.low ≤ x ∧ x ≤ p.high := by
  unfold firstByte
  dsimp only
  repeat' split
  all_goals
    first
      | omega
      | refine ⟨_, rfl, ?_⟩
        dsimp only
        refine ⟨?_, ?_, ?_, ?_⟩ <;> intros <;> omega

/-- A character is read from its encoding. -/
theorem lossyFrom_encode (c : Char) (rest : List UInt8) : lossyFrom none (String.utf8EncodeChar c ++ rest) = c :: lossyFrom none rest := by
  have valid : c.val.toNat < 0xD800 ∨ 0xDFFF < c.val.toNat ∧ c.val.toNat < 0x110000 := c.valid
  have back : ∀ n, n = c.val.toNat → Char.ofNat n = c := fun n same => by
    rw [same]
    exact Char.ofNat_toNat c
  have byte : ∀ n, n < 256 → (UInt8.ofNat n).toNat = n := fun n small => by
    rw [UInt8.toNat_ofNat', Nat.mod_eq_of_lt small]
  unfold String.utf8EncodeChar
  dsimp only
  split
  · have small := byte c.val.toNat (by omega)
    have first : firstByte (UInt8.ofNat c.val.toNat) = ([c], none) := by
      rw [firstByte, small, if_pos (by omega), back _ rfl]
    rw [List.singleton_append, lossyFrom, first]
    rfl
  · split
    · have first := byte (c.val.toNat / 64 % 32 + 192) (by omega)
      have last := byte (c.val.toNat % 64 + 128) (by omega)
      obtain ⟨p, started, two, -, -, range⟩ := firstByte_long (b := UInt8.ofNat (c.val.toNat / 64 % 32 + 192)) (by omega)
      obtain ⟨count, value⟩ := two (by omega)
      rw [List.cons_append, lossyFrom, started, List.nil_append, List.singleton_append,
        lossyFrom_last (range _ (by omega) (by omega) (by omega) (by omega) (by omega) (by omega)) count, back _ (by omega)]
    · split
      · have first := byte (c.val.toNat / 4096 % 16 + 224) (by omega)
        have second := byte (c.val.toNat / 64 % 64 + 128) (by omega)
        have last := byte (c.val.toNat % 64 + 128) (by omega)
        obtain ⟨p, started, -, three, -, range⟩ := firstByte_long (b := UInt8.ofNat (c.val.toNat / 4096 % 16 + 224)) (by omega)
        obtain ⟨count, value⟩ := three (by omega) (by omega)
        rw [List.cons_append, lossyFrom, started, List.nil_append, List.cons_append,
          lossyFrom_started (range _ (by omega) (by omega) (by omega) (by omega) (by omega) (by omega)) count, List.singleton_append,
          lossyFrom_last ⟨by dsimp only; omega, by dsimp only; omega⟩ rfl, back _ (by dsimp only; omega)]
      · have first := byte (c.val.toNat / 262144 % 8 + 240) (by omega)
        have second := byte (c.val.toNat / 4096 % 64 + 128) (by omega)
        have third := byte (c.val.toNat / 64 % 64 + 128) (by omega)
        have last := byte (c.val.toNat % 64 + 128) (by omega)
        obtain ⟨p, started, -, -, four, range⟩ := firstByte_long (b := UInt8.ofNat (c.val.toNat / 262144 % 8 + 240)) (by omega)
        obtain ⟨count, value⟩ := four (by omega)
        rw [List.cons_append, lossyFrom, started, List.nil_append, List.cons_append,
          lossyFrom_started (range _ (by omega) (by omega) (by omega) (by omega) (by omega) (by omega)) count, List.cons_append,
          lossyFrom_started ⟨by dsimp only; omega, by dsimp only; omega⟩ rfl, List.singleton_append,
          lossyFrom_last ⟨by dsimp only; omega, by dsimp only; omega⟩ rfl, back _ (by dsimp only; omega)]

theorem fromUtf8Lossy_utf8 (text : List Char) : fromUtf8Lossy (utf8 text) = text := by
  induction text with
  | nil => rfl
  | cons c rest ih =>
    rw [fromUtf8Lossy] at ih ⊢
    rw [utf8_cons, lossyFrom_encode, ih]

theorem lossyFrom_utf8 (text : List Char) (rest : List UInt8) : lossyFrom none (utf8 text ++ rest) = text ++ lossyFrom none rest := by
  induction text with
  | nil => rfl
  | cons c text ih => rw [utf8_cons, List.append_assoc, lossyFrom_encode, ih, List.cons_append]

end RoundTrip

section Pieces

/-- Bytes in pieces: encodings of characters, and broken ones that are replaced. -/
inductive Decodes : List UInt8 → List Char → Prop
  | nil : Decodes [] []
  | char {bytes : List UInt8} {text : List Char} (c : Char) (rest : Decodes bytes text) :
    Decodes (String.utf8EncodeChar c ++ bytes) (c :: text)
  | broken {bytes : List UInt8} {text : List Char} (piece : List UInt8) (filled : piece ≠ []) (rest : Decodes bytes text) :
    Decodes (piece ++ bytes) (replacement :: text)

/-- The bytes that may come next make an encoding of what has been read, the last of them or one
after the other. -/
def Completes : Nat → Nat → Nat → Nat → List UInt8 → Prop
  | 0, low, high, value, read => ∀ b : UInt8, low ≤ b.toNat → b.toNat ≤ high →
    String.utf8EncodeChar (Char.ofNat (value * 64 + (b.toNat - 0x80))) = read ++ [b]
  | more + 1, low, high, value, read => ∀ b : UInt8, low ≤ b.toNat → b.toNat ≤ high →
    Completes more 0x80 0xBF (value * 64 + (b.toNat - 0x80)) (read ++ [b])

theorem toNat_ofNat_valid {n : Nat} (valid : n < 0xD800 ∨ 0xDFFF < n ∧ n < 0x110000) : (Char.ofNat n).val.toNat = n := by
  rw [Char.ofNat, dif_pos (show n.isValidChar from valid)]
  rfl

theorem byte_eq {n : Nat} {b : UInt8} (same : n = b.toNat) : UInt8.ofNat n = b := by
  rw [same, UInt8.ofNat_toNat]

theorem encode_two {a b : UInt8} (first : 0xC2 ≤ a.toNat ∧ a.toNat < 0xE0) (second : 0x80 ≤ b.toNat ∧ b.toNat ≤ 0xBF) :
    String.utf8EncodeChar (Char.ofNat ((a.toNat - 0xC0) * 64 + (b.toNat - 0x80))) = [a, b] := by
  have value := toNat_ofNat_valid (n := (a.toNat - 0xC0) * 64 + (b.toNat - 0x80)) (by omega)
  unfold String.utf8EncodeChar
  dsimp only
  rw [value, if_neg (by omega), if_pos (by omega), byte_eq (show _ = a.toNat by omega), byte_eq (show _ = b.toNat by omega)]

theorem encode_three {a b c : UInt8} (first : 0xE0 ≤ a.toNat ∧ a.toNat < 0xF0) (second : 0x80 ≤ b.toNat ∧ b.toNat ≤ 0xBF)
    (third : 0x80 ≤ c.toNat ∧ c.toNat ≤ 0xBF) (large : a.toNat = 0xE0 → 0xA0 ≤ b.toNat) (whole : a.toNat = 0xED → b.toNat ≤ 0x9F) :
    String.utf8EncodeChar (Char.ofNat (((a.toNat - 0xE0) * 64 + (b.toNat - 0x80)) * 64 + (c.toNat - 0x80))) = [a, b, c] := by
  have value := toNat_ofNat_valid (n := ((a.toNat - 0xE0) * 64 + (b.toNat - 0x80)) * 64 + (c.toNat - 0x80)) (by omega)
  unfold String.utf8EncodeChar
  dsimp only
  rw [value, if_neg (by omega), if_neg (by omega), if_pos (by omega), byte_eq (show _ = a.toNat by omega),
    byte_eq (show _ = b.toNat by omega), byte_eq (show _ = c.toNat by omega)]

theorem encode_four {a b c d : UInt8} (first : 0xF0 ≤ a.toNat ∧ a.toNat < 0xF5) (second : 0x80 ≤ b.toNat ∧ b.toNat ≤ 0xBF)
    (third : 0x80 ≤ c.toNat ∧ c.toNat ≤ 0xBF) (fourth : 0x80 ≤ d.toNat ∧ d.toNat ≤ 0xBF) (large : a.toNat = 0xF0 → 0x90 ≤ b.toNat)
    (small : a.toNat = 0xF4 → b.toNat ≤ 0x8F) :
    String.utf8EncodeChar (Char.ofNat ((((a.toNat - 0xF0) * 64 + (b.toNat - 0x80)) * 64 + (c.toNat - 0x80)) * 64 + (d.toNat - 0x80))) =
      [a, b, c, d] := by
  have value := toNat_ofNat_valid
    (n := (((a.toNat - 0xF0) * 64 + (b.toNat - 0x80)) * 64 + (c.toNat - 0x80)) * 64 + (d.toNat - 0x80)) (by omega)
  unfold String.utf8EncodeChar
  dsimp only
  rw [value, if_neg (by omega), if_neg (by omega), if_neg (by omega), byte_eq (show _ = a.toNat by omega),
    byte_eq (show _ = b.toNat by omega), byte_eq (show _ = c.toNat by omega), byte_eq (show _ = d.toNat by omega)]

/-- A first byte is a character, is broken, or starts one. -/
theorem firstByte_cases (b : UInt8) : (∃ c, firstByte b = ([c], none) ∧ String.utf8EncodeChar c = [b]) ∨
    firstByte b = ([replacement], none) ∨
    ∃ p : Pending, firstByte b = ([], some p) ∧ Completes p.more p.low p.high p.value [b] := by
  have two (first : 0xC2 ≤ b.toNat ∧ b.toNat < 0xE0) : Completes 0 0x80 0xBF (b.toNat - 0xC0) [b] :=
    fun x low high => encode_two first ⟨low, high⟩
  have three {l h : Nat} (first : 0xE0 ≤ b.toNat ∧ b.toNat < 0xF0) (inside : 0x80 ≤ l ∧ h ≤ 0xBF)
      (large : b.toNat = 0xE0 → 0xA0 ≤ l) (whole : b.toNat = 0xED → h ≤ 0x9F) : Completes 1 l h (b.toNat - 0xE0) [b] :=
    fun x low' high' y low'' high'' => encode_three first (by omega) ⟨low'', high''⟩ (by omega) (by omega)
  have four {l h : Nat} (first : 0xF0 ≤ b.toNat ∧ b.toNat < 0xF5) (inside : 0x80 ≤ l ∧ h ≤ 0xBF)
      (large : b.toNat = 0xF0 → 0x90 ≤ l) (small : b.toNat = 0xF4 → h ≤ 0x8F) : Completes 2 l h (b.toNat - 0xF0) [b] :=
    fun x low' high' y low'' high'' z low₃ high₃ =>
      encode_four first (by omega) ⟨low'', high''⟩ ⟨low₃, high₃⟩ (by omega) (by omega)
  by_cases ascii : b.toNat < 0x80
  · have value : (Char.ofNat b.toNat).toNat = b.toNat := toNat_ofNat_valid (by omega)
    refine .inl ⟨Char.ofNat b.toNat, if_pos ascii, ?_⟩
    rw [encode_of_ascii (by omega), value, UInt8.ofNat_toNat]
  · by_cases long : 0xC2 ≤ b.toNat ∧ b.toNat < 0xF5
    · refine .inr (.inr ?_)
      unfold firstByte
      dsimp only
      rw [if_neg ascii, if_neg (by omega)]
      split
      · exact ⟨_, rfl, two (by omega)⟩
      · split
        · rename_i same
          exact ⟨_, rfl, by simpa [same] using three (l := 0xA0) (h := 0xBF) (by omega) (by omega) (by omega) (by omega)⟩
        · split
          · rename_i same
            exact ⟨_, rfl, by simpa [same] using three (l := 0x80) (h := 0x9F) (by omega) (by omega) (by omega) (by omega)⟩
          · split
            · exact ⟨_, rfl, three (l := 0x80) (h := 0xBF) (by omega) (by omega) (by omega) (by omega)⟩
            · split
              · rename_i same
                exact ⟨_, rfl, by simpa [same] using four (l := 0x90) (h := 0xBF) (by omega) (by omega) (by omega) (by omega)⟩
              · split
                · exact ⟨_, rfl, four (l := 0x80) (h := 0xBF) (by omega) (by omega) (by omega) (by omega)⟩
                · have same : b.toNat = 0xF4 := by omega
                  rw [if_pos same]
                  exact ⟨_, rfl, by simpa [same] using four (l := 0x80) (h := 0x8F) (by omega) (by omega) (by omega) (by omega)⟩
    · refine .inr (.inl ?_)
      unfold firstByte
      dsimp only
      rw [if_neg ascii]
      by_cases low : b.toNat < 0xC2
      · rw [if_pos low]
      · repeat rw [if_neg (by omega)]

/-- Reading replaces the broken pieces and nothing else. -/
theorem decodes_lossyFrom (bytes : List UInt8) : Decodes bytes (lossyFrom none bytes) ∧
    ∀ (p : Pending) (read : List UInt8), read ≠ [] → Completes p.more p.low p.high p.value read →
      Decodes (read ++ bytes) (lossyFrom (some p) bytes) := by
  induction bytes with
  | nil =>
    refine ⟨.nil, fun p read filled _ => ?_⟩
    exact .broken read filled .nil
  | cons b rest ih =>
    have fresh : Decodes (b :: rest) (lossyFrom none (b :: rest)) := by
      rcases firstByte_cases b with ⟨c, first, encoded⟩ | first | ⟨p, first, completes⟩
      · rw [lossyFrom, first]
        have next := Decodes.char c ih.1
        rwa [encoded] at next
      · rw [lossyFrom, first]
        exact .broken [b] (List.cons_ne_nil b []) ih.1
      · rw [lossyFrom, first]
        exact ih.2 p [b] (List.cons_ne_nil b []) completes
    refine ⟨fresh, fun p read filled completes => ?_⟩
    by_cases within : p.low ≤ b.toNat ∧ b.toNat ≤ p.high
    · cases count : p.more with
      | zero =>
        rw [count] at completes
        rw [lossyFrom_last within count]
        have next := Decodes.char (Char.ofNat (p.value * 64 + (b.toNat - 0x80))) ih.1
        rw [completes b within.1 within.2] at next
        simpa using next
      | succ more =>
        rw [count] at completes
        rw [lossyFrom_started within count]
        simpa using ih.2 _ (read ++ [b]) (by simp) (completes b within.1 within.2)
    · rw [lossyFrom, if_neg within]
      rw [lossyFrom] at fresh
      exact .broken read filled fresh

theorem decodes_fromUtf8Lossy (bytes : List UInt8) : Decodes bytes (fromUtf8Lossy bytes) := (decodes_lossyFrom bytes).1

variable {bytes : List UInt8} {text : List Char}

/-- Nothing is lost where nothing had to be replaced. -/
theorem Decodes.eq_utf8 (decodes : Decodes bytes text) (clean : replacement ∉ text) : bytes = utf8 text := by
  induction decodes with
  | nil => rfl
  | char c rest ih => rw [utf8_cons, ih fun member => clean (List.mem_cons_of_mem c member)]
  | broken piece filled rest ih => exact absurd List.mem_cons_self clean

theorem Decodes.mem (decodes : Decodes bytes text) {c : Char} (member : c ∈ text) (whole : c ≠ replacement) :
    ∀ b ∈ String.utf8EncodeChar c, b ∈ bytes := by
  induction decodes with
  | nil => cases member
  | char x rest ih =>
    intro b inside
    rcases List.mem_cons.mp member with rfl | later
    · exact List.mem_append_left _ inside
    · exact List.mem_append_right _ (ih later b inside)
  | broken piece filled rest ih =>
    intro b inside
    rcases List.mem_cons.mp member with same | later
    · exact absurd same whole
    · exact List.mem_append_right piece (ih later b inside)

theorem Decodes.eq_nil (decodes : Decodes bytes []) : bytes = [] := by
  cases decodes
  rfl

end Pieces

end NixHomeServer.Library
