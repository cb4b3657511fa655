import NixHomeServer.Browsertrix.Scan
import NixHomeServer.Library.Radix

/-! The texts in which a SHA-256 digest is written, and the one that the archive
engine compares. -/
namespace NixHomeServer.Browsertrix.Engine

open NixHomeServer.Library

section Texts

def hexText (value : Bytes) : Text := value.flatMap fun b => hexByte b.toNat

def base32Symbol (v : Nat) : Char := Char.ofNat (if v < 26 then 65 + v else 50 + (v - 26))

/-- Groups of five bits, the last one filled up with zeros. -/
def base32 (value : Bytes) : Text :=
  let width := (8 * value.length + 4) / 5
  (spread 32 width (number 256 (value.map UInt8.toNat) * 2 ^ (5 * width - 8 * value.length))).map base32Symbol

/-- The same text but for the case of its letters. -/
def SameLetters (text other : Text) : Prop := toAsciiLowercase text = toAsciiLowercase other

instance (text other : Text) : Decidable (SameLetters text other) := inferInstanceAs (Decidable (_ = _))

/-- A text that stands for a value, with a number of padding characters after Base32. -/
inductive Encodes (padding : Nat → Prop) (value : Bytes) : Text → Prop
  | hex {algorithm encoded : Text} (named : SameLetters algorithm "sha256".toList)
      (written : SameLetters encoded (hexText value)) : Encodes padding value (algorithm ++ ':' :: encoded)
  | base32 {algorithm encoded : Text} {n : Nat} (named : SameLetters algorithm "sha256".toList)
      (written : SameLetters encoded (base32 value)) (padded : padding n) :
      Encodes padding value (algorithm ++ ':' :: (encoded ++ List.replicate n '='))

end Texts

section Letters

variable {c x : Char}

theorem toLower_ascii (small : c.toLower.toNat < 128) : c.toNat < 128 := by
  unfold Char.toLower at small
  split at small
  · rename_i upper
    have bound : c.val.toNat ≤ 90 := upper.2
    exact Nat.lt_of_le_of_lt bound (by decide)
  · exact small

theorem hexDigit_table : ∀ n < 128, ∀ d < 16, digitOf 16 (Char.ofNat n) = some d ↔ (Char.ofNat n).toLower = Nat.digitChar d := by
  decide

theorem base32_table : ∀ n < 128, ∀ v < 32,
    base32Value (UInt8.ofNat (Char.ofNat n).toNat) = some v ↔ (Char.ofNat n).toLower = (base32Symbol v).toLower := by
  decide +kernel

theorem digit_small : ∀ d < 16, (Nat.digitChar d).toNat < 128 ∧ (Nat.digitChar d).toLower = Nat.digitChar d := by
  decide

theorem symbol_no_padding : ∀ v < 32, (base32Symbol v).toLower ≠ '=' := by
  decide

theorem symbol_small : ∀ v < 32, (base32Symbol v).toLower.toNat < 128 := by
  decide

theorem digitOf_iff {d : Nat} (small : d < 16) : digitOf 16 c = some d ↔ c.toLower = Nat.digitChar d := by
  have table := fun ascii => hexDigit_table c.toNat ascii d small
  rw [Char.ofNat_toNat] at table
  constructor
  · intro digit
    have range := alphanumeric_of_digitOf digit
    exact (table (by omega)).mp digit
  · intro same
    exact (table (toLower_ascii (by rw [same]; exact (digit_small d small).1))).mpr same

theorem base32Value_lt {b : UInt8} {v : Nat} (read : base32Value b = some v) : v < 32 ∧ b.toNat < 128 := by
  unfold base32Value at read
  simp only at read
  split at read
  · simp only [Option.some.injEq] at read
    omega
  · split at read
    · simp only [Option.some.injEq] at read
      omega
    · split at read
      · simp only [Option.some.injEq] at read
        omega
      · cases read

theorem base32Value_iff {v : Nat} (small : v < 32) (ascii : c.toNat < 128) :
    base32Value (UInt8.ofNat c.toNat) = some v ↔ c.toLower = (base32Symbol v).toLower := by
  have table := base32_table c.toNat ascii v small
  rwa [Char.ofNat_toNat] at table

/-- The symbols of a text in Base32 and their values. -/
theorem base32Values_iff {text : Text} {values : List Nat} :
    List.Forall₂ (fun b v => base32Value b = some v) (utf8 text) values ↔
      SameLetters text (values.map base32Symbol) ∧ ∀ v ∈ values, v < 32 := by
  induction text generalizing values with
  | nil => cases values <;> simp [SameLetters, toAsciiLowercase]
  | cons c rest ih =>
    by_cases ascii : c.toNat < 128
    · rw [utf8_cons, encode_of_ascii ascii, List.singleton_append]
      cases values with
      | nil => simp [SameLetters, toAsciiLowercase]
      | cons v values =>
        rw [List.forall₂_cons, ih]
        simp only [SameLetters, toAsciiLowercase, List.map_cons, List.cons.injEq, List.forall_mem_cons]
        constructor
        · rintro ⟨first, same, small⟩
          have below := (base32Value_lt first).1
          exact ⟨⟨(base32Value_iff below ascii).mp first, same⟩, below, small⟩
        · rintro ⟨⟨first, same⟩, below, small⟩
          exact ⟨(base32Value_iff below ascii).mpr first, same, small⟩
    · refine iff_of_false (fun read => ?_) (fun both => ?_)
      · obtain ⟨b, bytes, encoded⟩ := List.exists_cons_of_length_pos
          (show 0 < (String.utf8EncodeChar c).length by rw [String.length_utf8EncodeChar]; exact c.utf8Size_pos)
        rw [utf8_cons, encoded, List.cons_append] at read
        cases read with
        | cons first _ =>
          have member : b ∈ String.utf8EncodeChar c := encoded ▸ List.mem_cons_self
          have low := (base32Value_lt first).2
          have value : c.toNat = b.toNat := (encode_of_low member low).2
          omega
      · cases values with
        | nil => simp [SameLetters, toAsciiLowercase] at both
        | cons v values =>
          obtain ⟨same, small⟩ := both
          have first := (List.cons.inj same).1
          exact ascii (toLower_ascii (first ▸ symbol_small v (small v List.mem_cons_self)))

end Letters

section Accumulator

/-- The bits that have come in are those of the bytes that are out and of the accumulator. -/
theorem base32From_spec {values : List Nat} {symbols : Bytes} {acc bits : Nat} {bytes : List Nat}
    (read : List.Forall₂ (fun b v => base32Value b = some v) symbols values) (small : acc < 2 ^ bits) (few : bits < 8)
    (octets : ∀ b ∈ bytes, b < 256) : ∃ bytes' acc' bits', base32From acc bits bytes symbols = some (bytes', acc') ∧
      (∀ b ∈ bytes', b < 256) ∧ acc' < 2 ^ bits' ∧ bits' < 8 ∧
      8 * bytes'.length + bits' = 8 * bytes.length + bits + 5 * values.length ∧
      number 256 bytes' * 2 ^ bits' + acc' =
        (number 256 bytes * 2 ^ bits + acc) * 32 ^ values.length + number 32 values := by
  induction read generalizing acc bits bytes with
  | nil => exact ⟨bytes, acc, bits, rfl, octets, small, few, rfl, by simp [number]⟩
  | @cons ch v symbols values first rest ih =>
    have below := (base32Value_lt first).1
    have wide : acc * 32 + v < 2 ^ (bits + 5) := by
      rw [Nat.pow_add]
      omega
    have split : number 32 (v :: values) = v * 32 ^ values.length + number 32 values := by
      rw [← List.singleton_append, number_append]
      simp [number]
    rw [base32From, first, Option.bind_eq_bind, Option.bind_some, List.length_cons, split, Nat.pow_succ]
    split
    · rename_i full
      obtain ⟨k, rfl⟩ : ∃ k, bits = k + 3 := ⟨bits - 3, by omega⟩
      rw [Nat.add_sub_cancel]
      have octet : (acc * 32 + v) / 2 ^ k < 256 := by
        refine Nat.div_lt_of_lt_mul ?_
        rw [show (256 : Nat) = 2 ^ 8 from rfl, ← Nat.pow_add]
        exact wide
      have parts := Nat.div_add_mod' (acc * 32 + v) (2 ^ k)
      rw [Nat.mod_eq_of_lt octet]
      have octets_next : ∀ b ∈ bytes ++ [(acc * 32 + v) / 2 ^ k], b < 256 := by
        intro b member
        rcases List.mem_append.mp member with old | new
        · exact octets b old
        · exact List.mem_singleton.mp new ▸ octet
      obtain ⟨bytes', acc', bits', out, octets', small', few', length, total⟩ :=
        ih (Nat.mod_lt _ (Nat.two_pow_pos k)) (by omega) octets_next
      refine ⟨bytes', acc', bits', out, octets', small', few', ?_, ?_⟩
      · simp only [List.length_append, List.length_singleton] at length
        omega
      · rw [total, number_concat, Nat.add_mul _ _ (2 ^ k), Nat.add_assoc _ _ ((acc * 32 + v) % 2 ^ k), parts, Nat.pow_add]
        ring
    · rename_i short
      obtain ⟨bytes', acc', bits', out, octets', small', few', length, total⟩ := ih wide (by omega) octets
      refine ⟨bytes', acc', bits', out, octets', small', few', by omega, ?_⟩
      rw [total, Nat.pow_add]
      ring

theorem base32From_start {values : List Nat} {symbols : Bytes}
    (read : List.Forall₂ (fun b v => base32Value b = some v) symbols values) : ∃ bytes acc bits,
      base32From 0 0 [] symbols = some (bytes, acc) ∧ (∀ b ∈ bytes, b < 256) ∧ acc < 2 ^ bits ∧ bits < 8 ∧
      8 * bytes.length + bits = 5 * values.length ∧ number 256 bytes * 2 ^ bits + acc = number 32 values := by
  have spec := base32From_spec read (show 0 < 2 ^ 0 by decide) (by decide) (show ∀ b ∈ ([] : List Nat), b < 256 by simp)
  simpa [number] using spec

/-- With 52 symbols there are 32 bytes and four bits over. -/
theorem base32From_full {values : List Nat} {symbols : Bytes}
    (read : List.Forall₂ (fun b v => base32Value b = some v) symbols values) (long : values.length = 52) :
    ∃ bytes acc, base32From 0 0 [] symbols = some (bytes, acc) ∧ (∀ b ∈ bytes, b < 256) ∧ acc < 16 ∧ bytes.length = 32 ∧
      number 256 bytes * 16 + acc = number 32 values := by
  obtain ⟨bytes, acc, bits, out, octets, small, few, count, total⟩ := base32From_start read
  obtain rfl : bits = 4 := by omega
  exact ⟨bytes, acc, out, octets, small, by omega, total⟩

theorem values_of_base32From {symbols : Bytes} {acc bits : Nat} {bytes : List Nat} {out : List Nat × Nat}
    (read : base32From acc bits bytes symbols = some out) :
    ∃ values, List.Forall₂ (fun b v => base32Value b = some v) symbols values := by
  induction symbols generalizing acc bits bytes with
  | nil => exact ⟨[], .nil⟩
  | cons ch rest ih =>
    rw [base32From] at read
    obtain ⟨v, first, next⟩ := Option.bind_eq_some_iff.mp read
    split at next
    · obtain ⟨values, later⟩ := ih next
      exact ⟨v :: values, .cons first later⟩
    · obtain ⟨values, later⟩ := ih next
      exact ⟨v :: values, .cons first later⟩

end Accumulator

section Values

variable {value value' : Bytes} {text encoded algorithm : Text}

theorem toNat_octets (value : Bytes) : ∀ b ∈ value.map UInt8.toNat, b < 256 := by
  simp only [List.forall_mem_map]
  exact fun b _ => b.toNat_lt

theorem bytes_of_octets {octets : List Nat} (small : ∀ b ∈ octets, b < 256) :
    (octets.map UInt8.ofNat).map UInt8.toNat = octets := by
  rw [List.map_map]
  conv => rhs; rw [← List.map_id octets]
  refine List.map_congr_left fun b member => ?_
  have below := small b member
  simp [Nat.mod_eq_of_lt below]

theorem hexText_cons (b : UInt8) (value : Bytes) :
    hexText (b :: value) = Nat.digitChar (b.toNat / 16) :: Nat.digitChar (b.toNat % 16) :: hexText value := by
  simp [hexText, hexByte]

theorem hexText_flatMap (value : Bytes) : (value.map UInt8.toNat).flatMap hexByte = hexText value := by
  simp [hexText, List.flatMap_map]

theorem lower_hexText (value : Bytes) : toAsciiLowercase (hexText value) = hexText value := by
  induction value with
  | nil => rfl
  | cons b value ih =>
    have high := (digit_small (b.toNat / 16) (by have := b.toNat_lt; omega)).2
    have low := (digit_small (b.toNat % 16) (Nat.mod_lt _ (by decide))).2
    simp only [toAsciiLowercase] at ih ⊢
    simp [hexText_cons, high, low, ih]

/-- The hexadecimal texts of values are those of as many digits. -/
theorem hex_iff {n : Nat} {encoded : Text} : (∃ value : Bytes, value.length = n ∧ toAsciiLowercase encoded = hexText value) ↔
    encoded.length = 2 * n ∧ ∀ c ∈ encoded, isHex c = true := by
  induction n generalizing encoded with
  | zero =>
    constructor
    · rintro ⟨value, length, same⟩
      rw [List.length_eq_zero_iff.mp length] at same
      simp [List.map_eq_nil_iff.mp same]
    · rintro ⟨length, -⟩
      exact ⟨[], rfl, by simp [List.length_eq_zero_iff.mp length, toAsciiLowercase, hexText]⟩
  | succ n ih =>
    constructor
    · rintro ⟨_ | ⟨b, value⟩, length, same⟩
      · cases length
      · rw [hexText_cons] at same
        match encoded with
        | [] => simp [toAsciiLowercase] at same
        | [c] => simp [toAsciiLowercase] at same
        | c :: d :: rest =>
          simp only [toAsciiLowercase, List.map_cons, List.cons.injEq] at same
          obtain ⟨first, second, others⟩ := same
          obtain ⟨long, hex⟩ := ih.mp ⟨value, by simpa using length, others⟩
          have high := (digitOf_iff (by have := b.toNat_lt; omega)).mpr first
          have low := (digitOf_iff (Nat.mod_lt _ (by decide))).mpr second
          refine ⟨by simp only [List.length_cons, long]; omega, ?_⟩
          simp only [List.forall_mem_cons, isHex, high, low, Option.isSome_some, true_and]
          exact hex
    · rintro ⟨length, hex⟩
      match encoded with
      | [] => simp at length
      | [c] => simp at length; omega
      | c :: d :: rest =>
        simp only [List.forall_mem_cons, isHex] at hex
        obtain ⟨high, first⟩ := Option.isSome_iff_exists.mp hex.1
        obtain ⟨low, second⟩ := Option.isSome_iff_exists.mp hex.2.1
        obtain ⟨value, size, same⟩ := ih.mpr ⟨by simp only [List.length_cons] at length; omega, hex.2.2⟩
        have below := lt_of_digitOf first
        have below' := lt_of_digitOf second
        refine ⟨UInt8.ofNat (high * 16 + low) :: value, by simp [size], ?_⟩
        have octet : (UInt8.ofNat (high * 16 + low)).toNat = high * 16 + low := by
          rw [UInt8.toNat_ofNat', Nat.mod_eq_of_lt (by omega)]
        rw [hexText_cons, octet, show (high * 16 + low) / 16 = high by omega, show (high * 16 + low) % 16 = low by omega, ← same]
        simp [toAsciiLowercase, (digitOf_iff below).mp first, (digitOf_iff below').mp second]

theorem hexText_injective (same : hexText value = hexText value') : value = value' := by
  have digit : ∀ d < 16, ∀ d' < 16, Nat.digitChar d = Nat.digitChar d' → d = d' := by decide
  induction value generalizing value' with
  | nil =>
    cases value' with
    | nil => rfl
    | cons b value' => simp [hexText, hexByte] at same
  | cons b value ih =>
    cases value' with
    | nil => simp [hexText, hexByte] at same
    | cons b' value' =>
      simp only [hexText_cons, List.cons.injEq] at same
      obtain ⟨first, second, others⟩ := same
      have bound := b.toNat_lt
      have bound' := b'.toNat_lt
      have high := digit _ (by omega) _ (by omega) first
      have low := digit _ (Nat.mod_lt _ (by decide)) _ (Nat.mod_lt _ (by decide)) second
      rw [ih others, UInt8.toNat_inj.mp (show b.toNat = b'.toNat by omega)]

/-- The Base32 text of 32 bytes is read back as these bytes, and nothing else is. -/
theorem base32_iff {encoded : Text} (length : value.length = 32) : SameLetters encoded (base32 value) ↔
    (utf8 encoded).length = 52 ∧ base32From 0 0 [] (utf8 encoded) = some (value.map UInt8.toNat, 0) := by
  obtain ⟨N, named⟩ : ∃ N, N = number 256 (value.map UInt8.toNat) := ⟨_, rfl⟩
  have octets := toNat_octets value
  have below : N < 256 ^ 32 := by
    have bound := number_lt (by decide) octets
    rwa [List.length_map, length, ← named] at bound
  have written : base32 value = (spread 32 52 (N * 16)).map base32Symbol := by
    simp only [base32, length, ← named]
    rfl
  have fits : N * 16 < 32 ^ 52 := by omega
  constructor
  · intro same
    rw [written] at same
    have read := base32Values_iff.mpr ⟨same, fun v => lt_of_mem_spread (by decide)⟩
    obtain ⟨bytes, acc, out, small, short, count, total⟩ := base32From_full read (length_spread 52 _)
    rw [number_spread fits] at total
    have same_number : number 256 bytes = number 256 (value.map UInt8.toNat) := by omega
    have same_bytes := number_injective (by decide) small octets (by simp [count, length]) same_number
    refine ⟨by simpa using read.length_eq, ?_⟩
    rw [out, same_bytes, show acc = 0 by omega]
  · rintro ⟨long, out⟩
    obtain ⟨values, read⟩ := values_of_base32From out
    obtain ⟨bytes, acc, out', -, -, -, total⟩ := base32From_full read (read.length_eq.symm.trans long)
    obtain ⟨rfl, rfl⟩ := Prod.mk.inj (Option.some.inj (out'.symm.trans out))
    obtain ⟨same, small⟩ := base32Values_iff.mp read
    have again := spread_number (by decide) small
    rw [← read.length_eq, long, ← total, Nat.add_zero, ← named] at again
    rw [written, again]
    exact same

theorem ascii_of_hex {encoded : Text} (hex : ∀ c ∈ encoded, isHex c = true) : (utf8 encoded).length = encoded.length := by
  refine length_utf8_of_ascii fun c member => ?_
  obtain ⟨d, digit⟩ := Option.isSome_iff_exists.mp (hex c member)
  have range := alphanumeric_of_digitOf digit
  omega

theorem absent_of_letters {text other : Text} {c : Char} (same : SameLetters text other) (fixed : c.toLower = c)
    (absent : c ∉ toAsciiLowercase other) : c ∉ text := by
  intro member
  have lowered : c.toLower ∈ toAsciiLowercase text := List.mem_map_of_mem member
  rw [same, fixed] at lowered
  exact absent lowered

theorem padding_no_symbol (value : Bytes) : '=' ∉ toAsciiLowercase (base32 value) := by
  intro member
  simp only [toAsciiLowercase, base32, List.map_map, List.mem_map, Function.comp_apply] at member
  obtain ⟨v, inside, same⟩ := member
  exact symbol_no_padding v (lt_of_mem_spread (by decide) inside) same

/-- Padding is taken off a text that ends otherwise. -/
theorem rdropWhile_padding {encoded : Text} (absent : '=' ∉ encoded) (n : Nat) :
    (encoded ++ List.replicate n '=').rdropWhile (· = '=') = encoded := by
  induction n with
  | zero =>
    rw [List.replicate_zero, List.append_nil, List.rdropWhile_eq_self_iff]
    intro nonempty last
    exact absent (of_decide_eq_true last ▸ List.getLast_mem nonempty)
  | succ n ih => rw [List.replicate_succ', ← List.append_assoc, List.rdropWhile_concat_pos _ _ _ (by simp), ih]

theorem padding_split (encoded : Text) :
    ∃ n, encoded = encoded.rdropWhile (· = '=') ++ List.replicate n '=' := by
  induction encoded using List.reverseRecOn with
  | nil => exact ⟨0, rfl⟩
  | append_singleton encoded c ih =>
    by_cases pad : c = '='
    · obtain ⟨n, split⟩ := ih
      refine ⟨n + 1, ?_⟩
      rw [List.rdropWhile_concat_pos _ _ _ (by simpa using pad), List.replicate_succ', ← List.append_assoc, ← split, pad]
    · exact ⟨0, by rw [List.rdropWhile_concat_neg _ _ _ (by simpa using pad), List.replicate_zero, List.append_nil]⟩

/-- What is read is the value of the text, in any case of its letters and with any padding. -/
theorem normalizeSha256_eq_returns {r : Text} : normalizeSha256 text = .returns r ↔
    ∃ value : Bytes, value.length = 32 ∧ Encodes (fun _ => True) value text ∧ r = sha256Prefix ++ hexText value := by
  simp only [normalizeSha256, Checked.bind_eq_returns, Checked.ofOption_eq_returns, Checked.ensure_eq_returns,
    exists_const]
  constructor
  · rintro ⟨⟨algorithm, encoded⟩, cut, named, read⟩
    obtain ⟨rfl, -⟩ := cutAt_eq_some cut
    split at read
    · rename_i hex
      have digits := List.all_eq_true.mp hex.2
      obtain ⟨value, length, same⟩ := (hex_iff (n := 32)).mpr ⟨by rw [← ascii_of_hex digits, hex.1], digits⟩
      refine ⟨value, length, .hex named (same.trans (lower_hexText value).symm), ?_⟩
      rw [← same]
      exact (Checked.returns.inj read).symm
    · simp only [Checked.bind_eq_returns, Checked.ofOption_eq_returns, Checked.ensure_eq_returns, exists_const,
        Checked.pure_eq, Checked.returns.injEq] at read
      obtain ⟨long, ⟨bytes, acc⟩, out, ⟨count, rfl⟩, rfl⟩ := read
      obtain ⟨values, symbols⟩ := values_of_base32From out
      obtain ⟨bytes', acc', out', octets, -⟩ := base32From_full symbols (symbols.length_eq.symm.trans long)
      obtain ⟨rfl, -⟩ := Prod.mk.inj (Option.some.inj (out'.symm.trans out))
      have back := bytes_of_octets octets
      obtain ⟨n, split⟩ := padding_split encoded
      have size : (bytes'.map UInt8.ofNat).length = 32 := by simpa using count
      refine ⟨bytes'.map UInt8.ofNat, size, ?_, by rw [← hexText_flatMap, back]⟩
      rw [split]
      exact .base32 named ((base32_iff size).mpr ⟨long, by rw [back]; exact out⟩) trivial
  · rintro ⟨value, length, encodes, rfl⟩
    have apart : ∀ algorithm : Text, SameLetters algorithm "sha256".toList → ':' ∉ algorithm := fun algorithm named =>
      absent_of_letters named (by decide) (by decide)
    cases encodes with
    | @hex algorithm encoded named written =>
      have same : toAsciiLowercase encoded = hexText value := written.trans (lower_hexText value)
      obtain ⟨long, digits⟩ := hex_iff.mp ⟨value, length, same⟩
      refine ⟨(algorithm, encoded), cutAt_append ':' encoded (apart algorithm named), named, ?_⟩
      rw [if_pos ⟨by rw [ascii_of_hex digits, long], List.all_eq_true.mpr digits⟩, same]
    | @base32 algorithm encoded n named written _ =>
      obtain ⟨long, out⟩ := (base32_iff length).mp written
      have unpadded : '=' ∉ encoded := absent_of_letters written (by decide) (padding_no_symbol value)
      have other : ¬((utf8 (encoded ++ List.replicate n '=')).length = 64 ∧ (encoded ++ List.replicate n '=').all isHex = true) := by
        rintro ⟨size, digits⟩
        cases n with
        | zero => simp [long] at size
        | succ n =>
          have pad : isHex '=' = true := List.all_eq_true.mp digits '=' (by simp)
          exact absurd pad (by decide)
      refine ⟨(algorithm, _), cutAt_append ':' _ (apart algorithm named), named, ?_⟩
      rw [if_neg other, rdropWhile_padding unpadded]
      simp only [Checked.bind_eq_returns, Checked.ofOption_eq_returns, Checked.ensure_eq_returns, exists_const,
        Checked.pure_eq, Checked.returns.injEq]
      exact ⟨long, _, out, ⟨by simpa using length, rfl⟩, by rw [hexText_flatMap]⟩

/-- A text stands for one value at most, and texts are read alike exactly if they stand for the same
value; every text of a value is read, and no other text. -/
theorem normalizeSha256_canonical :
    (∀ text r, normalizeSha256 text = .returns r ↔
      ∃ value : Bytes, value.length = 32 ∧ Encodes (fun _ => True) value text ∧ r = sha256Prefix ++ hexText value) ∧
    ∀ (value value' : Bytes) (text text' : Text), value.length = 32 → value'.length = 32 →
      Encodes (fun _ => True) value text → Encodes (fun _ => True) value' text' →
        (normalizeSha256 text = normalizeSha256 text' ↔ value = value') := by
  refine ⟨fun text r => normalizeSha256_eq_returns, fun value value' text text' length length' stands stands' => ?_⟩
  have read := normalizeSha256_eq_returns.mpr ⟨value, length, stands, rfl⟩
  have read' := normalizeSha256_eq_returns.mpr ⟨value', length', stands', rfl⟩
  rw [read, read', Checked.returns.injEq]
  constructor
  · intro same
    exact hexText_injective (List.append_cancel_left same)
  · rintro rfl
    rfl

def zeros : Text := List.replicate 52 'A'

/-- One padding character in place of four. -/
theorem short_padding : (∃ r, normalizeSha256 ("sha256".toList ++ ':' :: (zeros ++ ['='])) = .returns r) ∧
    ¬ ∃ value : Bytes, value.length = 32 ∧
      Encodes (fun n => n = 0 ∨ n = 4) value ("sha256".toList ++ ':' :: (zeros ++ ['='])) := by
  have written : zeros = base32 (List.replicate 32 0) := by decide +kernel
  constructor
  · have stands : Encodes (fun _ => True) (List.replicate 32 0) ("sha256".toList ++ ':' :: (zeros ++ List.replicate 1 '=')) :=
      .base32 rfl (written ▸ rfl) trivial
    exact ⟨_, normalizeSha256_eq_returns.mpr ⟨_, List.length_replicate, stands, rfl⟩⟩
  · rintro ⟨value, length, stands⟩
    have own := cutAt_append ':' (zeros ++ ['=']) (show ':' ∉ "sha256".toList by decide)
    have apart : ∀ algorithm : Text, SameLetters algorithm "sha256".toList → ':' ∉ algorithm := fun algorithm named =>
      absent_of_letters named (by decide) (by decide)
    generalize whole : "sha256".toList ++ ':' :: (zeros ++ ['=']) = text at stands own
    cases stands with
    | @hex algorithm encoded named spelled =>
      rw [cutAt_append ':' encoded (apart algorithm named)] at own
      obtain ⟨-, rfl⟩ := Prod.mk.inj (Option.some.inj own)
      have digits := (hex_iff.mp ⟨value, length, spelled.trans (lower_hexText value)⟩).2
      exact absurd (digits '=' (by simp)) (by decide)
    | @base32 algorithm encoded n named spelled padded =>
      rw [cutAt_append ':' _ (apart algorithm named)] at own
      obtain ⟨-, same⟩ := Prod.mk.inj (Option.some.inj own)
      have letters := congrArg List.length spelled
      have size := congrArg List.length same
      have full : (base32 value).length = 52 := by simp [base32, length]
      simp only [toAsciiLowercase, List.length_map, full] at letters
      simp only [List.length_append, List.length_replicate, letters, List.length_singleton, zeros] at size
      omega

/-- Thirty-two zeros in hexadecimal and in padded Base32. -/
theorem zeros_alike : normalizeSha256 ("sha256".toList ++ ':' :: hexText (List.replicate 32 0)) =
    normalizeSha256 ("SHA256".toList ++ ':' :: (zeros ++ List.replicate 4 '=')) ↔
      (List.replicate 32 0 : Bytes) = List.replicate 32 0 :=
  normalizeSha256_canonical.2 (List.replicate 32 0) (List.replicate 32 0) _ _ List.length_replicate List.length_replicate
    (.hex rfl rfl) (.base32 rfl (show SameLetters zeros (base32 (List.replicate 32 0)) by decide +kernel) trivial)

end Values

end NixHomeServer.Browsertrix.Engine
