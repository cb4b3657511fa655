import NixHomeServer.Groundwater.Clock

/-! Which zone suffixes are understood: the grammar of an offset, and the texts
on which the parser keeps to it. -/
namespace NixHomeServer.Groundwater.Clock

open NixHomeServer.Library

def signOf (c : Char) : Option Int := if c = '+' then some 1 else if c = '-' then some (-1) else none

def twoDigits (bound : Nat) (a b : Char) : Option Nat := (numeral 10 [a, b]).filter (· ≤ bound)

def signedOffset (sign a b c d : Char) : Option Int :=
  (signOf sign).bind fun s => (twoDigits 23 a b).bind fun hours : Nat => (twoDigits 59 c d).map fun minutes : Nat =>
    s * (60 * (hours : Int) + minutes)

/-- A sign, two digits of hours, a colon and two digits of minutes. -/
def zoneOffset : List Char → Option Int
  | [sign, a, b, ':', c, d] => signedOffset sign a b c d
  | _ => none

/-- The same with or without the colon. -/
def inlineOffset : List Char → Option Int
  | [sign, a, b, ':', c, d] => signedOffset sign a b c d
  | [sign, a, b, c, d] => signedOffset sign a b c d
  | _ => none

inductive EndsInZone (trimmed : List Char) : Int → Prop
  | zulu (body : List Char) (z : Char) (ends : trimmed = body ++ [z]) (letter : z = 'Z' ∨ z = 'z') : EndsInZone trimmed 0
  | offset (body suffix : List Char) (minutes : Int) (ends : trimmed = body ++ suffix)
      (written : zoneOffset suffix = some minutes) : EndsInZone trimmed minutes

/-- A sign leads the last six bytes, and the fourth of them is a colon. -/
def ZoneLike (trimmed : List Char) : Prop :=
  ∃ body sign hours minutes, trimmed = body ++ sign :: hours ++ ':' :: minutes ∧ (sign = '+' ∨ sign = '-') ∧
    (utf8 hours).length = 2 ∧ (utf8 minutes).length = 2

section Fields

theorem ascii_of_numeral {c : Char} (numeric : c = '+' ∨ c = '-' ∨ ∃ d, digitOf 10 c = some d) :
    c.toNat < 128 ∧ c ≠ ':' ∧ c ≠ 'Z' ∧ c ≠ 'z' := by
  rcases numeric with rfl | rfl | ⟨d, digit⟩
  · decide
  · decide
  · obtain ⟨low, high, -⟩ := digitOf_decimal.mp digit
    refine ⟨by omega, ?_, ?_, ?_⟩ <;> (rintro rfl; revert high low; decide)

/-- A numeral of two bytes is two characters. -/
theorem pair_of_parseI32 {text : List Char} {v : Int} (read : parseI32 text = some v)
    (size : (utf8 text).length = 2) : ∃ a b, text = [a, b] := by
  obtain ⟨-, numeric⟩ := chars_of_parseSigned read
  rw [length_utf8_of_ascii fun c member => (ascii_of_numeral (numeric c member)).1] at size
  exact List.length_eq_two.mp size

theorem no_colon_of_parseI32 {text : List Char} {v : Int} (read : parseI32 text = some v) : ':' ∉ text := by
  intro member
  obtain ⟨-, numeric⟩ := chars_of_parseSigned read
  exact (ascii_of_numeral (numeric ':' member)).2.1 rfl

theorem parseOffset_eq_returns {value : List Char} {offset : Int} :
    parseOffset value = .returns offset ↔ ∃ sign rest hours minutes h m, trim value = sign :: rest ∧
      (sign = '+' ∨ sign = '-') ∧ offsetFields rest = .returns (hours, minutes) ∧ parseI32 hours = some h ∧
      parseI32 minutes = some m ∧ h ≤ 23 ∧ m ≤ 59 ∧
      offset = ((if sign = '+' then 1 else -1) * (h * 60 + m)).bmod (2 ^ 32) := by
  unfold parseOffset
  cases trimmed : trim value with
  | nil => exact ⟨by simp, by rintro ⟨_, _, _, _, _, _, ⟨⟩, _⟩⟩
  | cons first rest =>
    dsimp only
    by_cases signed : first = '+' ∨ first = '-'
    · rw [if_pos signed, Checked.bind_eq_returns]
      constructor
      · rintro ⟨⟨hours, minutes⟩, fields, parsed⟩
        obtain ⟨h, read_h, parsed⟩ := Checked.bind_eq_returns.mp parsed
        obtain ⟨m, read_m, parsed⟩ := Checked.bind_eq_returns.mp parsed
        rw [Checked.ofOption_eq_returns] at read_h read_m
        split at parsed
        · cases parsed
        · cases parsed
          exact ⟨first, rest, hours, minutes, h, m, rfl, signed, fields, read_h, read_m, by omega, by omega, rfl⟩
      · rintro ⟨sign, tail, hours, minutes, h, m, same, -, fields, read_h, read_m, few, fewer, rfl⟩
        cases same
        refine ⟨(hours, minutes), fields, ?_⟩
        dsimp only
        rw [read_h, read_m]
        exact if_neg (by omega)
    · rw [if_neg signed]
      refine ⟨by simp, ?_⟩
      rintro ⟨_, _, _, _, _, _, same, sign, _⟩
      cases same
      exact absurd sign signed

theorem not_sign_of_digit {c : Char} {d : Nat} (digit : digitOf 10 c = some d) : c ≠ '+' ∧ c ≠ '-' := by
  obtain ⟨low, -, -⟩ := digitOf_decimal.mp digit
  constructor <;> (rintro rfl; revert low; decide)

/-- A field without a sign of its own is read as its digits. -/
theorem parseI32_eq_numeral {a b : Char} {n : Nat} (small : n < 100) (plus : a ≠ '+') (minus : a ≠ '-') :
    parseI32 [a, b] = some (n : Int) ↔ numeral 10 [a, b] = some n := by
  rw [parseI32, parseSigned_unsigned plus minus, Option.map_eq_some_iff]
  constructor
  · rintro ⟨m, found, same⟩
    obtain ⟨read, -⟩ := Option.filter_eq_some_iff.mp found
    rwa [← Int.ofNat.inj same]
  · intro read
    exact ⟨n, Option.filter_eq_some_iff.mpr ⟨read, decide_eq_true (by omega)⟩, rfl⟩

theorem signedOffset_eq_some {sign a b c d : Char} {o : Int} :
    signedOffset sign a b c d = some o ↔ (sign = '+' ∨ sign = '-') ∧ ∃ h m : Nat, numeral 10 [a, b] = some h ∧
      numeral 10 [c, d] = some m ∧ h ≤ 23 ∧ m ≤ 59 ∧ o = (if sign = '+' then 1 else -1) * (60 * h + m) := by
  simp only [signedOffset, twoDigits, signOf, Option.bind_eq_some_iff, Option.map_eq_some_iff,
    Option.filter_eq_some_iff, decide_eq_true_eq]
  constructor
  · rintro ⟨s, signed, h, ⟨read_h, few⟩, m, ⟨read_m, fewer⟩, rfl⟩
    split at signed
    · cases signed
      exact ⟨.inl ‹_›, h, m, read_h, read_m, few, fewer, by rw [if_pos ‹_›]⟩
    · rename_i other
      split at signed
      · cases signed
        exact ⟨.inr ‹_›, h, m, read_h, read_m, few, fewer, by rw [if_neg other]⟩
      · cases signed
  · rintro ⟨signed, h, m, read_h, read_m, few, fewer, rfl⟩
    refine ⟨if sign = '+' then 1 else -1, ?_, h, ⟨read_h, few⟩, m, ⟨read_m, fewer⟩, rfl⟩
    rcases signed with rfl | rfl <;> rfl

/-- A written offset stays below a day. -/
theorem signedOffset_lt {sign a b c d : Char} {o : Int} (written : signedOffset sign a b c d = some o) :
    -1440 < o ∧ o < 1440 := by
  obtain ⟨-, h, m, -, -, few, fewer, rfl⟩ := signedOffset_eq_some.mp written
  split <;> omega

theorem bmod_offset {sign : Char} {h m : Nat} (few : h ≤ 23) (fewer : m ≤ 59) :
    ((if sign = '+' then 1 else -1) * ((h : Int) * 60 + m)).bmod (2 ^ 32) =
      (if sign = '+' then 1 else -1) * (60 * (h : Int) + m) := by
  split
  · rw [Int.bmod_eq_of_le] <;> omega
  · rw [Int.bmod_eq_of_le] <;> omega

end Fields

section Suffixes

variable {value : List Char}

theorem last_of_trim {body : List Char} {c : Char} (ends : trim value = body ++ [c]) : isWhitespace c = false := by
  have last := List.rdropWhile_last_not isWhitespace (value.dropWhile isWhitespace)
  have whole : List.rdropWhile isWhitespace (value.dropWhile isWhitespace) = body ++ [c] := ends
  simp only [whole, List.getLast_append_singleton] at last
  exact Bool.eq_false_iff.mpr (last (List.append_ne_nil_of_right_ne_nil _ (List.cons_ne_nil c [])))

/-- A suffix of a trimmed text that a sign leads is trimmed. -/
theorem trim_suffix {body rest : List Char} {sign : Char} (ends : trim value = body ++ sign :: rest)
    (signed : sign = '+' ∨ sign = '-') : trim (sign :: rest) = sign :: rest := by
  have solid : isWhitespace sign = false := by rcases signed with rfl | rfl <;> decide
  rw [trim, trimBy, List.dropWhile_cons_of_neg (by simp only [solid, Bool.false_eq_true, not_false_eq_true])]
  refine List.rdropWhile_eq_self_iff.mpr fun _ => ?_
  obtain ⟨front, last, split⟩ : ∃ front last, sign :: rest = front ++ [last] :=
    ⟨_, _, (List.dropLast_append_getLast (List.cons_ne_nil sign rest)).symm⟩
  simp only [split, List.getLast_append_singleton]
  rw [split, ← List.append_assoc] at ends
  simp only [last_of_trim ends, Bool.false_eq_true, not_false_eq_true]

/-- The fields of an offset that is parsed with a colon after three bytes. -/
theorem offsetFields_zone {sign : Char} {hours minutes : List Char} (trimmed : trim (sign :: (hours ++ ':' :: minutes)) = sign :: (hours ++ ':' :: minutes))
    {offset : Int} (parsed : parseOffset (sign :: (hours ++ ':' :: minutes)) = .returns offset) :
    ∃ h m, parseI32 hours = some h ∧ parseI32 minutes = some m ∧ h ≤ 23 ∧ m ≤ 59 ∧
      offset = ((if sign = '+' then 1 else -1) * (h * 60 + m)).bmod (2 ^ 32) := by
  obtain ⟨first, rest, first_field, second_field, h, m, same, -, fields, read_h, read_m, few, fewer, written⟩ :=
    parseOffset_eq_returns.mp parsed
  rw [trimmed] at same
  cases same
  by_cases early : ':' ∈ hours
  · obtain ⟨left, right, rfl, absent⟩ := List.eq_append_cons_of_mem early
    rw [offsetFields, List.append_assoc, List.cons_append, cutAt_append ':' _ absent] at fields
    cases fields
    exact absurd (List.mem_append_right right List.mem_cons_self) (no_colon_of_parseI32 read_m)
  · rw [offsetFields, cutAt_append ':' minutes early] at fields
    cases fields
    exact ⟨h, m, read_h, read_m, few, fewer, written⟩

theorem getElem?_utf8 (left right : List Char) (index : Nat) :
    (utf8 (left ++ right))[(utf8 left).length + index]? = (utf8 right)[index]? := by
  rw [utf8_append, List.getElem?_append_right (by omega), Nat.add_sub_cancel_left]

theorem char_of_toNat {c d : Char} (same : c.val.toNat = d.toNat) : c = d :=
  Char.ext (UInt32.toNat_inj.mp same)

/-- What the split of a timestamp comes to. -/
inductive Split (trimmed : List Char) : Checked Unit (List Char × Option Int) → Prop
  | zulu (body : List Char) (z : Char) (ends : trimmed = body ++ [z]) (letter : z = 'Z' ∨ z = 'z') :
      Split trimmed (.returns (body, some 0))
  | zone (body hours minutes : List Char) (sign : Char) (ends : trimmed = body ++ sign :: (hours ++ ':' :: minutes))
      (signed : sign = '+' ∨ sign = '-') (first : (utf8 hours).length = 2) (second : (utf8 minutes).length = 2) :
      Split trimmed (parseOffset (sign :: (hours ++ ':' :: minutes)) >>= fun o => .returns (trimEnd body, some o))
  | bare (short : ZoneLike trimmed → (utf8 trimmed).length = 6) : Split trimmed (.returns (trimmed, none))

theorem zoneLike_bytes {trimmed : List Char} (like : ZoneLike trimmed) :
    ∃ index, (utf8 trimmed).length = index + 6 ∧
      ((utf8 trimmed)[index]? = some 43 ∨ (utf8 trimmed)[index]? = some 45) ∧
      (utf8 trimmed)[index + 3]? = some 58 := by
  obtain ⟨body, sign, hours, minutes, rfl, signed, first, second⟩ := like
  have one : (String.utf8EncodeChar sign).length = 1 := by rcases signed with rfl | rfl <;> decide
  have colon : String.utf8EncodeChar ':' = [58] := by decide
  refine ⟨(utf8 body).length, ?_, ?_, ?_⟩
  · simp only [utf8_append, utf8_cons, colon, List.length_append, List.length_cons, List.length_nil, one, first, second]
  · have at_sign := getElem?_utf8 body (sign :: hours ++ ':' :: minutes) 0
    rw [Nat.add_zero, ← List.append_assoc] at at_sign
    rw [at_sign]
    rcases signed with rfl | rfl
    · exact .inl rfl
    · exact .inr rfl
  · have at_colon := getElem?_utf8 (body ++ sign :: hours) (':' :: minutes) 0
    have size : (utf8 (body ++ sign :: hours)).length = (utf8 body).length + 3 := by
      simp only [utf8_append, utf8_cons, List.length_append, one, first]
    rw [Nat.add_zero, size] at at_colon
    rw [at_colon]
    rfl

theorem splitZone_cases (trimmed : List Char) : Split trimmed (splitZone trimmed) := by
  unfold splitZone
  split
  · rename_i letter
    obtain ⟨z, last, kind⟩ : ∃ z, trimmed.getLast? = some z ∧ (z = 'Z' ∨ z = 'z') :=
      letter.elim (fun last => ⟨'Z', last, .inl rfl⟩) fun last => ⟨'z', last, .inr rfl⟩
    exact .zulu trimmed.dropLast z (List.dropLast_append_getLast? z last).symm kind
  · dsimp only
    split
    · rename_i long
      split
      · rename_i marked
        obtain ⟨sign, colon⟩ := marked
        obtain ⟨byte, found, low⟩ : ∃ byte : UInt8, (utf8 trimmed)[(utf8 trimmed).length - 6]? = some byte ∧
            (byte.toNat = '+'.toNat ∨ byte.toNat = '-'.toNat) :=
          sign.elim (fun plus => ⟨43, plus, .inl rfl⟩) fun minus => ⟨45, minus, .inr rfl⟩
        obtain ⟨body, s, rest, whole, size, value⟩ :=
          boundary_of_low found (by rcases low with same | same <;> rw [same] <;> decide)
        have signed : s = '+' ∨ s = '-' :=
          low.imp (fun same => char_of_toNat (value.trans same)) fun same => char_of_toNat (value.trans same)
        have one : (String.utf8EncodeChar s).length = 1 := by rcases signed with rfl | rfl <;> decide
        have total : (utf8 trimmed).length = (utf8 body).length + 1 + (utf8 rest).length := by
          rw [whole, utf8_append, utf8_cons, List.length_append, List.length_append, one]
          omega
        have at_colon : (utf8 rest)[2]? = some 58 := by
          have shifted := getElem?_utf8 (body ++ [s]) rest 2
          have before : (utf8 (body ++ [s])).length = (utf8 body).length + 1 := by
            simp only [utf8_append, utf8_cons, utf8_nil, List.append_nil, List.length_append, one]
          rw [before, List.append_assoc, List.singleton_append, ← whole] at shifted
          rw [← shifted, ← colon, ← size, Nat.add_assoc]
        obtain ⟨hours, d, minutes, parts, first, point⟩ := boundary_of_low at_colon (by decide)
        obtain rfl : d = ':' := char_of_toNat point
        have second : (utf8 minutes).length = 2 := by
          have inner : (utf8 rest).length = (utf8 hours).length + 1 + (utf8 minutes).length := by
            rw [parts, utf8_append, utf8_cons, List.length_append, List.length_append,
              show (String.utf8EncodeChar ':').length = 1 by decide]
            omega
          omega
        subst parts
        rw [← size, whole, splitAtByte_append]
        exact .zone body hours minutes s rfl signed first second
      · rename_i unmarked
        refine .bare fun like => absurd ?_ unmarked
        obtain ⟨index, total, sign, colon⟩ := zoneLike_bytes like
        rw [total, Nat.add_sub_cancel]
        exact ⟨sign, colon⟩
    · refine .bare fun like => ?_
      obtain ⟨index, total, -, -⟩ := zoneLike_bytes like
      omega

end Suffixes

section Timestamps

variable (chrono : Chrono)

/-- A year, a month, a day, an hour and a minute take a digit each. -/
def Chrono.FiveDigits : Prop :=
  ∀ format ∈ formats, ∀ text naive, chrono.parseFromStr text format = some naive → 5 ≤ text.countP Char.isDigit

/-- The zone of a timestamp is understood as it is written. -/
structure ZoneGrammar (text : List Char) : Prop where
  offset : ∀ time minutes, parseDeviceTime chrono text = .returns time → time.fixedOffsetMinutes = some minutes →
    EndsInZone (trim text) minutes ∧ -1440 < minutes ∧ minutes < 1440
  rejected : ZoneLike (trim text) → (∀ minutes, ¬EndsInZone (trim text) minutes) →
    parseDeviceTime chrono text = .fails ()

/-- A field with a sign of its own. -/
def OwnSign (field : List Char) : Prop := field.head? = some '+' ∨ field.head? = some '-'

/-- The timestamp is followed by an offset of which a field has a sign of its own. -/
def SignedZone (trimmed : List Char) : Prop :=
  ∃ body sign hours minutes h m, trimmed = body ++ sign :: (hours ++ ':' :: minutes) ∧ (sign = '+' ∨ sign = '-') ∧
    hours.length = 2 ∧ minutes.length = 2 ∧ parseI32 hours = some h ∧ h ≤ 23 ∧ parseI32 minutes = some m ∧ m ≤ 59 ∧
    (OwnSign hours ∨ OwnSign minutes) ∧ (parseNaive chrono (trimEnd body)).isSome

variable {chrono} {text : List Char}

theorem parseDeviceTime_eq_returns {time : DeviceTime chrono.Naive} : parseDeviceTime chrono text = .returns time ↔
    trim text ≠ [] ∧ ∃ body, splitZone (trim text) = .returns (body, time.fixedOffsetMinutes) ∧
      parseNaive chrono body = some time.naive := by
  unfold parseDeviceTime
  dsimp only
  split
  · exact ⟨nofun, fun ⟨some_text, _⟩ => absurd ‹_› some_text⟩
  · rename_i some_text
    rw [Checked.bind_eq_returns]
    constructor
    · rintro ⟨⟨body, fixed⟩, split, parsed⟩
      obtain ⟨naive, read, parsed⟩ := Checked.bind_eq_returns.mp parsed
      cases parsed
      exact ⟨some_text, body, split, Checked.ofOption_eq_returns.mp read⟩
    · rintro ⟨-, body, split, read⟩
      refine ⟨_, split, ?_⟩
      dsimp only
      rw [read]
      rfl

theorem parseOffset_ne_panics {value rest : List Char} {sign : Char} (trimmed : trim value = sign :: rest)
    (colon : ':' ∈ rest) : parseOffset value ≠ .panics := by
  obtain ⟨hours, minutes, rfl, absent⟩ := List.eq_append_cons_of_mem colon
  unfold parseOffset
  rw [trimmed]
  dsimp only
  split
  · rw [offsetFields, cutAt_append ':' minutes absent]
    intro lost
    rcases Checked.bind_eq_panics.mp lost with lost | ⟨_, same, lost⟩
    · cases lost
    · cases same
      rcases Checked.bind_eq_panics.mp lost with lost | ⟨_, -, lost⟩
      · exact Checked.ofOption_ne_panics _ _ lost
      · rcases Checked.bind_eq_panics.mp lost with lost | ⟨_, -, lost⟩
        · exact Checked.ofOption_ne_panics _ _ lost
        · split at lost <;> cases lost
  · nofun

theorem splitZone_ne_panics : splitZone (trim text) ≠ .panics := by
  intro lost
  have cases := splitZone_cases (trim text)
  generalize found : splitZone (trim text) = result at cases lost
  cases cases with
  | zulu => cases lost
  | bare => cases lost
  | zone body hours minutes sign ends signed =>
    rcases Checked.bind_eq_panics.mp lost with lost | ⟨_, -, lost⟩
    · exact parseOffset_ne_panics (trim_suffix ends signed) (List.mem_append_right hours List.mem_cons_self) lost
    · cases lost

theorem parseDeviceTime_ne_panics : parseDeviceTime chrono text ≠ .panics := by
  unfold parseDeviceTime
  dsimp only
  split
  · nofun
  · intro lost
    rcases Checked.bind_eq_panics.mp lost with lost | ⟨⟨body, fixed⟩, -, lost⟩
    · exact splitZone_ne_panics lost
    · rcases Checked.bind_eq_panics.mp lost with lost | ⟨_, -, lost⟩
      · exact Checked.ofOption_ne_panics _ _ lost
      · cases lost

/-- Fields without a sign of their own are as they are written. -/
theorem signedOffset_of_fields {sign a b c d : Char} {h m : Int} (signed : sign = '+' ∨ sign = '-')
    (read_h : parseI32 [a, b] = some h) (few : h ≤ 23) (read_m : parseI32 [c, d] = some m) (fewer : m ≤ 59)
    (plain : ¬(OwnSign [a, b] ∨ OwnSign [c, d])) :
    signedOffset sign a b c d = some (((if sign = '+' then 1 else -1) * (h * 60 + m)).bmod (2 ^ 32)) := by
  simp only [OwnSign, List.head?_cons, Option.some.injEq, not_or] at plain
  obtain ⟨⟨plus_a, minus_a⟩, plus_c, minus_c⟩ := plain
  have numbers : ∀ x y v, x ≠ '+' → x ≠ '-' → parseI32 [x, y] = some v →
      ∃ n : Nat, numeral 10 [x, y] = some n ∧ v = n := by
    intro x y v plus minus read
    rw [parseI32, parseSigned_unsigned plus minus] at read
    obtain ⟨n, found, same⟩ := Option.map_eq_some_iff.mp read
    exact ⟨n, (Option.filter_eq_some_iff.mp found).1, same.symm⟩
  obtain ⟨hours, written_h, rfl⟩ := numbers a b h plus_a minus_a read_h
  obtain ⟨minutes, written_m, rfl⟩ := numbers c d m plus_c minus_c read_m
  have few' : hours ≤ 23 := by omega
  have fewer' : minutes ≤ 59 := by omega
  refine signedOffset_eq_some.mpr ⟨signed, hours, minutes, written_h, written_m, few', fewer', ?_⟩
  exact bmod_offset few' fewer'

/-- Fields that are written have no sign of their own. -/
theorem plain_of_signedOffset {sign a b c d : Char} {o : Int} (written : signedOffset sign a b c d = some o) :
    ¬(OwnSign [a, b] ∨ OwnSign [c, d]) := by
  obtain ⟨-, h, m, read_h, read_m, -⟩ := signedOffset_eq_some.mp written
  obtain ⟨x, -, first, -⟩ := numeral_two.mp read_h
  obtain ⟨y, -, second, -⟩ := numeral_two.mp read_m
  simp only [OwnSign, List.head?_cons, Option.some.injEq, not_or]
  exact ⟨not_sign_of_digit first, not_sign_of_digit second⟩

theorem endsInZone_small {trimmed : List Char} {minutes : Int} (ends : EndsInZone trimmed minutes) :
    -1440 < minutes ∧ minutes < 1440 := by
  cases ends with
  | zulu => decide
  | offset body suffix _ _ written =>
    unfold zoneOffset at written
    split at written
    · exact signedOffset_lt written
    · cases written

theorem countP_normalized (candidate : List Char) :
    (candidate.map fun c => if c = 'T' then ' ' else c).countP Char.isDigit = candidate.countP Char.isDigit := by
  rw [List.countP_map]
  refine List.countP_congr fun c _ => ?_
  simp only [Function.comp_apply]
  split
  · subst ‹c = 'T'›
    decide
  · rfl

theorem five_digits_of_parseNaive (digits : chrono.FiveDigits) {body : List Char} {naive : chrono.Naive}
    (full : looksLikeTwoDigitYear body = false) (read : parseNaive chrono body = some naive) :
    5 ≤ body.countP Char.isDigit := by
  unfold parseNaive at read
  obtain ⟨format, member, parsed⟩ := List.exists_of_findSome?_eq_some read
  have enough := digits format member _ naive parsed
  rw [countP_normalized] at enough
  simpa only [full, Bool.false_eq_true, if_false] using enough

/-- A text of six bytes that looks like a zone is no timestamp. -/
theorem parseNaive_of_short (digits : chrono.FiveDigits) {trimmed : List Char} (like : ZoneLike trimmed)
    (short : (utf8 trimmed).length = 6) : parseNaive chrono trimmed = none := by
  obtain ⟨body, sign, hours, minutes, rfl, signed, first, second⟩ := like
  have one : (String.utf8EncodeChar sign).length = 1 := by rcases signed with rfl | rfl <;> decide
  have nothing : body = [] := by
    have few := length_le_utf8 body
    have colon : (String.utf8EncodeChar ':').length = 1 := by decide
    rw [utf8_append, utf8_append, utf8_cons, utf8_cons] at short
    simp only [List.length_append, one, first, second, colon] at short
    exact List.eq_nil_of_length_eq_zero (by omega)
  subst nothing
  cases read : parseNaive chrono ([] ++ sign :: hours ++ ':' :: minutes) with
  | none => rfl
  | some naive =>
    have plain : sign.isDigit = false := by rcases signed with rfl | rfl <;> decide
    have full : looksLikeTwoDigitYear ([] ++ sign :: hours ++ ':' :: minutes) = false := by
      rw [List.nil_append, List.cons_append]
      unfold looksLikeTwoDigitYear
      split
      · rename_i same
        rw [← (List.cons.inj same).1, plain, Bool.false_and]
      · rfl
    have enough := five_digits_of_parseNaive digits full read
    have few_hours := Nat.le_trans (List.countP_le_length (p := Char.isDigit) (l := hours)) (length_le_utf8 hours)
    have few_minutes := Nat.le_trans (List.countP_le_length (p := Char.isDigit) (l := minutes)) (length_le_utf8 minutes)
    have colon : ':'.isDigit = false := by decide
    rw [List.nil_append, List.countP_append, List.countP_cons, List.countP_cons, plain, colon] at enough
    simp only [Bool.false_eq_true, if_false] at enough
    omega

/-- Where an offset is parsed, it is written or a field has a sign of its own. -/
theorem written_or_signed {body hours minutes : List Char} {sign : Char} {o : Int}
    (ends : trim text = body ++ sign :: (hours ++ ':' :: minutes)) (signed : sign = '+' ∨ sign = '-')
    (first : (utf8 hours).length = 2) (second : (utf8 minutes).length = 2)
    (parsed : parseOffset (sign :: (hours ++ ':' :: minutes)) = .returns o) (unsigned : ¬SignedZone chrono (trim text))
    (read : (parseNaive chrono (trimEnd body)).isSome) : EndsInZone (trim text) o := by
  obtain ⟨h, m, read_h, read_m, few, fewer, rfl⟩ := offsetFields_zone (trim_suffix ends signed) parsed
  obtain ⟨a, b, rfl⟩ := pair_of_parseI32 read_h first
  obtain ⟨c, d, rfl⟩ := pair_of_parseI32 read_m second
  have plain : ¬(OwnSign [a, b] ∨ OwnSign [c, d]) := fun own =>
    unsigned ⟨body, sign, [a, b], [c, d], h, m, ends, signed, rfl, rfl, read_h, few, read_m, fewer, own, read⟩
  exact .offset body _ _ ends (signedOffset_of_fields signed read_h few read_m fewer plain)

theorem zoneGrammar_of_not_signed (digits : chrono.FiveDigits) (unsigned : ¬SignedZone chrono (trim text)) :
    ZoneGrammar chrono text := by
  have understood : ∀ time minutes, parseDeviceTime chrono text = .returns time →
      time.fixedOffsetMinutes = some minutes → EndsInZone (trim text) minutes := by
    intro time minutes parsed fixed
    obtain ⟨-, body, split, read⟩ := parseDeviceTime_eq_returns.mp parsed
    have cases := splitZone_cases (trim text)
    rw [split, fixed] at cases
    generalize found : Checked.returns (body, some minutes) = result at cases
    cases cases with
    | zulu body z ends letter =>
      cases found
      exact .zulu body z ends letter
    | bare => cases found
    | zone front hours mins sign ends signed first second =>
      obtain ⟨o, offset, done⟩ := Checked.bind_eq_returns.mp found.symm
      cases done
      exact written_or_signed ends signed first second offset unsigned (Option.isSome_iff_exists.mpr ⟨_, read⟩)
  refine ⟨fun time minutes parsed fixed => ?_, fun like outside => ?_⟩
  · have ends := understood time minutes parsed fixed
    exact ⟨ends, endsInZone_small ends⟩
  · cases parsed : parseDeviceTime chrono text with
    | fails => rfl
    | panics => exact absurd parsed parseDeviceTime_ne_panics
    | returns time =>
      cases fixed : time.fixedOffsetMinutes with
      | some minutes => exact absurd (understood time minutes parsed fixed) (outside minutes)
      | none =>
        obtain ⟨-, body, split, read⟩ := parseDeviceTime_eq_returns.mp parsed
        have cases := splitZone_cases (trim text)
        rw [split, fixed] at cases
        generalize found : Checked.returns (body, none) = result at cases
        cases cases with
        | zulu => cases found
        | zone =>
          obtain ⟨_, -, done⟩ := Checked.bind_eq_returns.mp found.symm
          cases done
        | bare short =>
          cases found
          rw [parseNaive_of_short digits like (short like)] at read
          cases read

theorem ne_nil_of_parseNaive (digits : chrono.FiveDigits) {body : List Char}
    (naive : (parseNaive chrono (trimEnd body)).isSome) : body ≠ [] := by
  rintro rfl
  obtain ⟨time, read⟩ := Option.isSome_iff_exists.mp naive
  have enough := five_digits_of_parseNaive digits rfl read
  exact absurd enough (by decide)

theorem length_encode_sign {sign : Char} (signed : sign = '+' ∨ sign = '-') :
    (String.utf8EncodeChar sign).length = 1 := by
  rcases signed with rfl | rfl <;> decide

/-- After some text, what looks like a zone is parsed as one. -/
theorem splitZone_zone {body hours minutes : List Char} {sign : Char} (some_body : body ≠ [])
    (ends : trim text = body ++ sign :: (hours ++ ':' :: minutes)) (signed : sign = '+' ∨ sign = '-')
    (first : (utf8 hours).length = 2) (second : (utf8 minutes).length = 2) (number : ∀ z ∈ minutes, z ≠ 'Z' ∧ z ≠ 'z') :
    splitZone (trim text) =
      (parseOffset (sign :: (hours ++ ':' :: minutes)) >>= fun o => .returns (trimEnd body, some o)) := by
  have cases := splitZone_cases (trim text)
  generalize splitZone (trim text) = result at cases
  have colon : (String.utf8EncodeChar ':').length = 1 := by decide
  have total : (utf8 (trim text)).length = (utf8 body).length + 6 := by
    simp only [ends, utf8_append, utf8_cons, List.length_append, length_encode_sign signed, first, second, colon]
  cases cases with
  | zulu front z same letter =>
    have some_minutes : minutes ≠ [] := by
      rintro rfl
      cases second
    have last : z = minutes.getLast some_minutes := by
      have ending := congrArg List.getLast? (same.symm.trans ends)
      simpa only [List.getLast?_append, List.getLast?_cons, List.getLast?_singleton, List.getLast?_nil,
        Option.getD_none, Option.some_or, List.getLast?_eq_some_getLast some_minutes, Option.getD_some, Option.some.injEq] using ending
    have other := number z (last ▸ List.getLast_mem some_minutes)
    exact absurd letter (not_or.mpr other)
  | bare short =>
    have six := short ⟨body, sign, hours, minutes, by rw [ends, List.append_assoc]; rfl, signed, first, second⟩
    have few := length_le_utf8 body
    have some_length := List.length_pos_of_ne_nil some_body
    omega
  | zone front hours' minutes' sign' ends' signed' first' second' =>
    have total' : (utf8 (trim text)).length = (utf8 front).length + 6 := by
      simp only [ends', utf8_append, utf8_cons, List.length_append, length_encode_sign signed', first', second', colon]
    obtain ⟨rfl, same⟩ := append_inj_utf8 (ends.symm.trans ends') (by omega)
    rw [same]

/-- The zone of a timestamp is understood as written exactly if no field of it has a sign of its own. -/
theorem zoneGrammar_iff (digits : chrono.FiveDigits) :
    ZoneGrammar chrono text ↔ ¬SignedZone chrono (trim text) := by
  refine ⟨fun grammar misread => ?_, zoneGrammar_of_not_signed digits⟩
  obtain ⟨body, sign, hours, minutes, h, m, ends, signed, two, two', read_h, few, read_m, fewer, own, naive⟩ := misread
  obtain ⟨a, b, rfl⟩ := List.length_eq_two.mp two
  obtain ⟨c, d, rfl⟩ := List.length_eq_two.mp two'
  have size : ∀ x y v, parseI32 [x, y] = some v → (utf8 [x, y]).length = 2 := by
    intro x y v read
    obtain ⟨-, numeric⟩ := chars_of_parseSigned read
    exact length_utf8_of_ascii fun z member => (ascii_of_numeral (numeric z member)).1
  have number : ∀ z ∈ [c, d], z ≠ 'Z' ∧ z ≠ 'z' := by
    intro z member
    obtain ⟨-, numeric⟩ := chars_of_parseSigned read_m
    exact (ascii_of_numeral (numeric z member)).2.2
  -- the offset is parsed
  have fields : offsetFields ([a, b] ++ ':' :: [c, d]) = .returns ([a, b], [c, d]) := by
    rw [offsetFields, cutAt_append ':' _ (no_colon_of_parseI32 read_h)]
  have offset := parseOffset_eq_returns.mpr
    ⟨sign, _, _, _, h, m, trim_suffix ends signed, signed, fields, read_h, read_m, few, fewer, rfl⟩
  have split := splitZone_zone (ne_nil_of_parseNaive digits naive) ends signed (size a b h read_h) (size c d m read_m)
    number
  obtain ⟨time, read⟩ := Option.isSome_iff_exists.mp naive
  have some_text : trim text ≠ [] := by
    rw [ends]
    exact List.append_ne_nil_of_right_ne_nil _ (List.cons_ne_nil _ _)
  rw [offset, Checked.returns_bind] at split
  have parsed : parseDeviceTime chrono text = .returns ⟨time, some _⟩ :=
    parseDeviceTime_eq_returns.mpr ⟨some_text, _, split, read⟩
  -- and yet the grammar does not have it
  obtain ⟨zone, -⟩ := grammar.offset _ _ parsed rfl
  generalize (_ : Int).bmod _ = o at zone
  cases zone with
  | zulu front z same letter =>
    rw [ends, show body ++ sign :: ([a, b] ++ ':' :: [c, d]) = (body ++ [sign, a, b, ':', c]) ++ [d] by simp] at same
    obtain ⟨-, tail⟩ := List.append_inj' same rfl
    obtain ⟨rfl, -⟩ := List.cons.inj tail
    exact absurd letter (not_or.mpr (number d (List.mem_cons_of_mem _ List.mem_cons_self)))
  | offset front suffix _ same written =>
    unfold zoneOffset at written
    split at written
    · rw [ends] at same
      obtain ⟨-, tail⟩ := List.append_inj' same rfl
      cases tail
      exact plain_of_signedOffset written own
    · cases written

end Timestamps

section Policies

/-- What follows `local-offset` and a separator. -/
def inlineText (value : List Char) : Option (List Char) :=
  ((toAsciiLowercase (trim value)).dropPrefix? "local-offset".toList).bind fun rest =>
    match trim rest with
    | ':' :: rest | '=' :: rest => some rest
    | _ => none

/-- The inline offset of a policy is understood as it is written. -/
structure OffsetGrammar (value : List Char) : Prop where
  accepted : ∀ rest minutes, inlineText value = some rest → inlineOffset (trim rest) = some minutes →
    ClockPolicy.parse value = .returns (.localOffset minutes)
  written : ∀ minutes, ClockPolicy.parse value = .returns (.localOffset minutes) →
    ∃ rest, inlineText value = some rest ∧ inlineOffset (trim rest) = some minutes
  rejected : ∀ rest, inlineText value = some rest → inlineOffset (trim rest) = none →
    ClockPolicy.parse value = .fails ()

def TwoDigits (field : List Char) : Prop := field.length = 2 ∧ (numeral 10 field).isSome

/-- The second of four bytes and the third belong to one character, or a field of the offset is a number
within its bound that is not written as two digits. -/
def LooseOffset (trimmed : List Char) : Prop :=
  ∃ sign rest, trimmed = sign :: rest ∧ (sign = '+' ∨ sign = '-') ∧
    (offsetFields rest = .panics ∨
      ∃ hours minutes h m, offsetFields rest = .returns (hours, minutes) ∧ parseI32 hours = some h ∧ h ≤ 23 ∧
        parseI32 minutes = some m ∧ m ≤ 59 ∧ ¬(TwoDigits hours ∧ TwoDigits minutes))

theorem pair_of_twoDigits {field : List Char} (two : TwoDigits field) :
    ∃ a b n, field = [a, b] ∧ numeral 10 [a, b] = some n ∧ a ≠ '+' ∧ a ≠ '-' ∧ ':' ∉ field ∧
      (utf8 field).length = 2 := by
  obtain ⟨size, read⟩ := two
  obtain ⟨a, b, rfl⟩ := List.length_eq_two.mp size
  obtain ⟨n, read⟩ := Option.isSome_iff_exists.mp read
  obtain ⟨x, y, first, second, -⟩ := numeral_two.mp read
  have numeric : ∀ c ∈ [a, b], ∃ d, digitOf 10 c = some d := (digits_of_numeral read).2
  have ascii : ∀ c ∈ [a, b], c.toNat < 128 := fun c member => (ascii_of_numeral (.inr (.inr (numeric c member)))).1
  refine ⟨a, b, n, rfl, read, (not_sign_of_digit first).1, (not_sign_of_digit first).2, fun member => ?_, ?_⟩
  · exact (ascii_of_numeral (.inr (.inr (numeric ':' member)))).2.1 rfl
  · exact length_utf8_of_ascii ascii

theorem offsetFields_cases {rest hours minutes : List Char} (fields : offsetFields rest = .returns (hours, minutes)) :
    rest = hours ++ ':' :: minutes ∨ rest = hours ++ minutes := by
  unfold offsetFields at fields
  split at fields
  · rename_i cut
    cases fields
    exact .inl (cutAt_eq_some cut).1
  · split at fields
    · exact .inr (splitAtByte_eq_some (Checked.unwrap_eq_returns.mp fields)).1
    · cases fields

theorem cutAt_of_not_mem {text : List Char} (absent : ':' ∉ text) : cutAt ':' text = none := by
  cases cut : cutAt ':' text with
  | none => rfl
  | some parts =>
    obtain ⟨rfl, -⟩ := cutAt_eq_some cut
    exact absurd (List.mem_append_right _ List.mem_cons_self) absent

theorem offsetFields_of_twoDigits {hours minutes : List Char} (first : TwoDigits hours) (second : TwoDigits minutes) :
    offsetFields (hours ++ ':' :: minutes) = .returns (hours, minutes) ∧
      offsetFields (hours ++ minutes) = .returns (hours, minutes) := by
  obtain ⟨-, -, -, -, -, -, -, absent, size⟩ := pair_of_twoDigits first
  obtain ⟨-, -, -, -, -, -, -, absent', size'⟩ := pair_of_twoDigits second
  constructor
  · rw [offsetFields, cutAt_append ':' minutes absent]
  · have nowhere : ':' ∉ hours ++ minutes := fun member =>
      (List.mem_append.mp member).elim absent absent'
    have four : (utf8 (hours ++ minutes)).length = 4 := by
      rw [utf8_append, List.length_append, size, size']
    have cut := splitAtByte_append hours minutes
    rw [size] at cut
    rw [offsetFields, cutAt_of_not_mem nowhere]
    dsimp only
    rw [if_pos four, cut]
    rfl

/-- An inline offset is written exactly if its fields are two digits each. -/
theorem inlineOffset_iff {sign : Char} {rest : List Char} {o : Int} (signed : sign = '+' ∨ sign = '-') :
    inlineOffset (sign :: rest) = some o ↔ ∃ hours minutes h m, offsetFields rest = .returns (hours, minutes) ∧
      TwoDigits hours ∧ TwoDigits minutes ∧ parseI32 hours = some h ∧ parseI32 minutes = some m ∧ h ≤ 23 ∧
      m ≤ 59 ∧ o = ((if sign = '+' then 1 else -1) * (h * 60 + m)).bmod (2 ^ 32) := by
  constructor
  · intro written
    have fields : ∀ a b c d, signedOffset sign a b c d = some o → TwoDigits [a, b] ∧ TwoDigits [c, d] ∧
        ∃ h m : Int, parseI32 [a, b] = some h ∧ parseI32 [c, d] = some m ∧ h ≤ 23 ∧ m ≤ 59 ∧
          o = ((if sign = '+' then 1 else -1) * (h * 60 + m)).bmod (2 ^ 32) := by
      intro a b c d offset
      obtain ⟨-, h, m, read_h, read_m, few, fewer, rfl⟩ := signedOffset_eq_some.mp offset
      have plain := plain_of_signedOffset offset
      simp only [OwnSign, List.head?_cons, Option.some.injEq, not_or] at plain
      obtain ⟨⟨plus_a, minus_a⟩, plus_c, minus_c⟩ := plain
      refine ⟨⟨rfl, Option.isSome_iff_exists.mpr ⟨h, read_h⟩⟩, ⟨rfl, Option.isSome_iff_exists.mpr ⟨m, read_m⟩⟩, h, m,
        (parseI32_eq_numeral (by omega) plus_a minus_a).mpr read_h,
        (parseI32_eq_numeral (by omega) plus_c minus_c).mpr read_m, by omega, by omega, ?_⟩
      exact (bmod_offset few fewer).symm
    unfold inlineOffset at written
    split at written
    · rename_i same
      cases same
      obtain ⟨first, second, h, m, rest⟩ := fields _ _ _ _ written
      exact ⟨_, _, h, m, (offsetFields_of_twoDigits first second).1, first, second, rest⟩
    · rename_i same
      cases same
      obtain ⟨first, second, h, m, rest⟩ := fields _ _ _ _ written
      exact ⟨_, _, h, m, (offsetFields_of_twoDigits first second).2, first, second, rest⟩
    · cases written
  · rintro ⟨hours, minutes, h, m, fields, first, second, read_h, read_m, few, fewer, rfl⟩
    have parts := offsetFields_cases fields
    obtain ⟨a, b, -, rfl, -, plus_a, minus_a, -⟩ := pair_of_twoDigits first
    obtain ⟨c, d, -, rfl, -, plus_c, minus_c, -⟩ := pair_of_twoDigits second
    have plain : ¬(OwnSign [a, b] ∨ OwnSign [c, d]) := by
      simp only [OwnSign, List.head?_cons, Option.some.injEq, not_or]
      exact ⟨⟨plus_a, minus_a⟩, plus_c, minus_c⟩
    have offset := signedOffset_of_fields signed read_h few read_m fewer plain
    rcases parts with rfl | rfl
    · exact offset
    · unfold inlineOffset
      split
      case h_1 same => cases same
      case h_2 same =>
        cases same
        exact offset
      case h_3 other => exact absurd rfl (other sign a b c d)

theorem parse_of_inlineText {value rest : List Char} (found : inlineText value = some rest) :
    ClockPolicy.parse value = (parseOffset rest >>= fun offset => .returns (.localOffset offset)) := by
  obtain ⟨after, dropped, separated⟩ := Option.bind_eq_some_iff.mp found
  obtain ⟨start, whole, same⟩ := List.dropPrefix?_eq_some_iff.mp dropped
  have start : start = "local-offset".toList := eq_of_beq same
  have long : (toAsciiLowercase (trim value)).length = after.length + 12 := by
    rw [whole, start, List.length_append, Nat.add_comm]
    rfl
  have no_utc : toAsciiLowercase (trim value) ≠ "utc".toList := fun same => by
    rw [same] at long
    exact absurd long (by simp only [String.reduceToList, List.length_cons, List.length_nil]; omega)
  have no_unknown : toAsciiLowercase (trim value) ≠ "unknown".toList := fun same => by
    rw [same] at long
    exact absurd long (by simp only [String.reduceToList, List.length_cons, List.length_nil]; omega)
  unfold ClockPolicy.parse
  dsimp only
  have onward : ∀ next : List Char → Checked Unit ClockPolicy, (Checked.ofOption () (some after) >>= next) = next after :=
    fun _ => rfl
  rw [if_neg no_utc, if_neg no_unknown, dropped, onward]
  split at separated
  · cases separated
    rename_i text
    rw [text]
    rfl
  · cases separated
    rename_i text
    rw [text]
    rfl
  · cases separated

theorem inlineText_of_parse {value : List Char} {minutes : Int}
    (parsed : ClockPolicy.parse value = .returns (.localOffset minutes)) :
    ∃ rest, inlineText value = some rest ∧ parseOffset rest = .returns minutes := by
  unfold ClockPolicy.parse at parsed
  dsimp only at parsed
  split at parsed
  · cases parsed
  · split at parsed
    · cases parsed
    · obtain ⟨after, dropped, parsed⟩ := Checked.bind_eq_returns.mp parsed
      rw [Checked.ofOption_eq_returns] at dropped
      have inline : inlineText value = (match trim after with
          | ':' :: rest | '=' :: rest => some rest
          | _ => none) := by
        rw [inlineText, dropped]
        rfl
      split at parsed
      · cases parsed
      · rename_i text
        obtain ⟨offset, found, done⟩ := Checked.bind_eq_returns.mp parsed
        cases done
        rw [text] at inline
        exact ⟨_, inline, found⟩
      · rename_i text
        obtain ⟨offset, found, done⟩ := Checked.bind_eq_returns.mp parsed
        cases done
        rw [text] at inline
        exact ⟨_, inline, found⟩
      · cases parsed

/-- Where the fields are not loose, an offset is parsed as it is written and nothing else is. -/
theorem parseOffset_of_not_loose {rest : List Char} (tight : ¬LooseOffset (trim rest)) :
    (∀ o, parseOffset rest = .returns o ↔ inlineOffset (trim rest) = some o) ∧ parseOffset rest ≠ .panics := by
  constructor
  · intro o
    constructor
    · intro parsed
      obtain ⟨sign, tail, hours, minutes, h, m, text, signed, fields, read_h, read_m, few, fewer, rfl⟩ :=
        parseOffset_eq_returns.mp parsed
      have two : TwoDigits hours ∧ TwoDigits minutes := by
        by_contra loose
        exact tight ⟨sign, tail, text, signed, .inr ⟨hours, minutes, h, m, fields, read_h, few, read_m, fewer, loose⟩⟩
      rw [text]
      exact (inlineOffset_iff signed).mpr
        ⟨hours, minutes, h, m, fields, two.1, two.2, read_h, read_m, few, fewer, rfl⟩
    · intro written
      obtain ⟨sign, tail, text, signed⟩ : ∃ sign tail, trim rest = sign :: tail ∧ (sign = '+' ∨ sign = '-') := by
        unfold inlineOffset at written
        split at written
        · exact ⟨_, _, ‹_›, (signedOffset_eq_some.mp written).1⟩
        · exact ⟨_, _, ‹_›, (signedOffset_eq_some.mp written).1⟩
        · cases written
      rw [text] at written
      obtain ⟨hours, minutes, h, m, fields, -, -, read_h, read_m, few, fewer, rfl⟩ :=
        (inlineOffset_iff signed).mp written
      exact parseOffset_eq_returns.mpr
        ⟨sign, tail, hours, minutes, h, m, text, signed, fields, read_h, read_m, few, fewer, rfl⟩
  · intro lost
    unfold parseOffset at lost
    split at lost
    · cases lost
    · rename_i first tail text
      split at lost
      · rename_i signed
        rcases Checked.bind_eq_panics.mp lost with lost | ⟨⟨hours, minutes⟩, -, lost⟩
        · exact tight ⟨first, tail, text, signed, .inl lost⟩
        · rcases Checked.bind_eq_panics.mp lost with lost | ⟨_, -, lost⟩
          · exact Checked.ofOption_ne_panics _ _ lost
          · rcases Checked.bind_eq_panics.mp lost with lost | ⟨_, -, lost⟩
            · exact Checked.ofOption_ne_panics _ _ lost
            · split at lost <;> cases lost
      · cases lost

/-- The inline offset of a policy is understood as it is written exactly if it is not loose. -/
theorem offsetGrammar_iff {value : List Char} :
    OffsetGrammar value ↔ ∀ rest ∈ inlineText value, ¬LooseOffset (trim rest) := by
  constructor
  · rintro grammar rest found ⟨sign, tail, text, signed, loose⟩
    have parse := parse_of_inlineText found
    rcases loose with lost | ⟨hours, minutes, h, m, fields, read_h, few, read_m, fewer, loose⟩
    · have panics : ClockPolicy.parse value = .panics := by
        rw [parse, parseOffset, text]
        dsimp only
        rw [if_pos signed, lost]
        rfl
      cases written : inlineOffset (trim rest) with
      | none => exact absurd (panics.symm.trans (grammar.rejected rest found written)) nofun
      | some o => exact absurd (panics.symm.trans (grammar.accepted rest o found written)) nofun
    · have parsed := parseOffset_eq_returns.mpr
        ⟨sign, tail, hours, minutes, h, m, text, signed, fields, read_h, read_m, few, fewer, rfl⟩
      rw [parsed, Checked.returns_bind] at parse
      obtain ⟨rest', found', written⟩ := grammar.written _ parse
      obtain rfl := Option.some.inj (found.symm.trans found')
      rw [text] at written
      obtain ⟨hours', minutes', -, -, fields', first, second, -⟩ := (inlineOffset_iff signed).mp written
      rw [fields] at fields'
      cases fields'
      exact loose ⟨first, second⟩
  · intro tight
    refine ⟨fun rest o found written => ?_, fun o parsed => ?_, fun rest found nothing => ?_⟩
    · rw [parse_of_inlineText found, ((parseOffset_of_not_loose (tight rest found)).1 o).mpr written,
        Checked.returns_bind]
    · obtain ⟨rest, found, offset⟩ := inlineText_of_parse parsed
      exact ⟨rest, found, ((parseOffset_of_not_loose (tight rest found)).1 o).mp offset⟩
    · obtain ⟨exact_offset, no_panic⟩ := parseOffset_of_not_loose (tight rest found)
      rw [parse_of_inlineText found]
      cases offset : parseOffset rest with
      | fails => rfl
      | panics => exact absurd offset no_panic
      | returns o => rw [(exact_offset o).mp offset] at nothing; cases nothing

end Policies

section Results

variable {chrono : Chrono}

/-- Offsets are understood as they are written exactly where no field of theirs is loose. -/
theorem offsets_as_written (digits : chrono.FiveDigits) :
    (∀ text, ZoneGrammar chrono text ↔ ¬SignedZone chrono (trim text)) ∧
      ∀ value, OffsetGrammar value ↔ ∀ rest ∈ inlineText value, ¬LooseOffset (trim rest) :=
  ⟨fun _ => zoneGrammar_iff digits, fun _ => offsetGrammar_iff⟩

end Results

section Example

/-- A library that knows one timestamp. -/
def morning : Chrono where
  Naive := Int
  parseFromStr text format :=
    if text = "2026-10-03 01:33:45".toList ∧ format = "%Y-%m-%d %H:%M:%S".toList then some (1790991225 * 1000000000)
    else none
  instant naive := naive
  least := -8334601228800 * 1000000000
  greatest := 8210266876799 * 1000000000 + 999999999

theorem morning_digits : morning.FiveDigits := by
  intro format _ text naive parsed
  obtain ⟨⟨rfl, -⟩, -⟩ := Option.ite_none_right_eq_some.mp parsed
  decide

theorem one_timestamp_as_written :
    (∀ text, ZoneGrammar morning text ↔ ¬SignedZone morning (trim text)) ∧
      ∀ value, OffsetGrammar value ↔ ∀ rest ∈ inlineText value, ¬LooseOffset (trim rest) :=
  offsets_as_written morning_digits

/-- A sign before the hours is taken with them. -/
theorem signs_within_offsets :
    ¬∀ chrono : Chrono, chrono.FiveDigits → (∀ text, ZoneGrammar chrono text) ∧ ∀ value, OffsetGrammar value := by
  intro always
  have grammar := (always morning morning_digits).1 "2026-10-03T01:33:45+-5:30".toList
  refine (zoneGrammar_iff morning_digits).mp grammar ?_
  refine ⟨"2026-10-03T01:33:45".toList, '+', ['-', '5'], ['3', '0'], -5, 30, by decide, .inl rfl, rfl, rfl, by decide,
    by decide, by decide, by decide, .inl (.inr rfl), by decide⟩

end Example

end NixHomeServer.Groundwater.Clock
