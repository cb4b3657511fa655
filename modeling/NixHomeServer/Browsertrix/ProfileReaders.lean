import Mathlib.Data.List.Pairwise
import NixHomeServer.Browsertrix.ProfileTar

/-! What a reader of the ustar format makes of a profile that the check lets
through. -/
namespace NixHomeServer.Browsertrix.ProfileTar

open NixHomeServer.Library

/-- What the format leaves to its readers: what a numeral without digits stands for, and in which
headers there is a field for the front part of a path. -/
structure Reader where
  blank : Option Nat
  fronted : Bytes → Bool

structure Record where
  offset : Nat
  typeflag : UInt8
  path : Bytes
  size : Nat
  deriving DecidableEq

namespace Reader

variable (r : Reader)

/-- Octal digits, with spaces and NULs before and after them. -/
def number (bytes : Bytes) : Option Nat :=
  let digits := trimBy padding (bytes.map fun b => Char.ofNat b.toNat)
  if digits = [] then r.blank else numeral 8 digits

def path (header : Bytes) : Bytes :=
  let name := (slice header 0 100).takeWhile (· ≠ 0)
  let front := (slice header 345 500).takeWhile (· ≠ 0)
  if r.fronted header = true ∧ front ≠ [] then front ++ 0x2F :: name else name

def record (offset : Nat) (header : Bytes) : Option Record := do
  let expected ← r.number (slice header 148 156)
  if expected = checksum header then
    let size ← r.number (slice header 124 136)
    return ⟨offset, typeflag header, r.path header, size⟩
  else none

def records (offset : Nat) (bytes : Bytes) : Option (List Record) :=
  if bytes.length < 512 then none
  else if ∀ b ∈ bytes.take 512, b = 0 then
    if 1024 ≤ bytes.length ∧ ∀ b ∈ (bytes.drop 512).take 512, b = 0 then some [] else none
  else
    (r.record offset (bytes.take 512)).bind fun record =>
      if padded record.size ≤ (bytes.drop 512).length then
        (records (offset + 512 + padded record.size) ((bytes.drop 512).drop (padded record.size))).map (record :: ·)
      else none
termination_by bytes.length
decreasing_by
  simp only [List.length_drop]
  omega

end Reader

/-- The headers of the sections of a file. -/
def headers (bytes : Bytes) : List Bytes :=
  if bytes.length < 512 then []
  else if ∀ b ∈ bytes.take 512, b = 0 then []
  else bytes.take 512 :: match octal (slice (bytes.take 512) 124 136) with
    | .returns size => headers ((bytes.drop 512).drop (padded size))
    | _ => []
termination_by bytes.length
decreasing_by
  simp only [List.length_drop]
  omega

def Entry.record (e : Entry) : Record := ⟨e.offset, typeflag e.header, utf8 e.name, e.size⟩

section Numerals

variable {r : Reader} {bytes : Bytes} {n : Nat}

theorem charOf_eq {b : UInt8} {c : Char} (small : c.toNat < 128) : Char.ofNat b.toNat = c ↔ b = UInt8.ofNat c.toNat := by
  have byte := b.toNat_lt
  have valid : b.toNat.isValidChar := .inl (by omega)
  have value : (Char.ofNat b.toNat).toNat = b.toNat := by rw [Char.ofNat, dif_pos valid]; rfl
  constructor
  · rintro rfl
    rw [value, UInt8.ofNat_toNat]
  · rintro rfl
    rw [UInt8.toNat_ofNat', Nat.mod_eq_of_lt (by omega), Char.ofNat_toNat]

/-- Neither signed nor without digits, unless the reader takes that for a zero. -/
def Reader.Plain (r : Reader) (bytes : Bytes) : Prop :=
  0x2B ∉ bytes ∧ ((∀ b ∈ bytes, b = 0 ∨ b = 0x20) → r.blank = some 0)

theorem chars_of_octal (read : octal bytes = .returns n) : ∃ text, utf8 text = bytes ∧ (∀ c ∈ text, c.toNat < 128) ∧
    parseUnsigned 8 (2 ^ 64) (if trimBy padding text = [] then ['0'] else trimBy padding text) = some n := by
  simp only [octal, Checked.bind_eq_returns, Checked.ofOption_eq_returns] at read
  obtain ⟨text, decoded, parsed⟩ := read
  refine ⟨text, fromUtf8_eq_some.mp decoded, fun c member => ?_, parsed⟩
  by_cases pad : padding c = true
  · simp only [padding, Bool.or_eq_true, decide_eq_true_eq] at pad
    rcases pad with rfl | rfl <;> decide
  · have inside := mem_trimBy member (Bool.not_eq_true _ ▸ pad)
    rw [if_neg (List.ne_nil_of_mem inside)] at parsed
    rcases (chars_of_parseUnsigned parsed).2 c inside with rfl | ⟨d, digit⟩
    · decide
    · have := alphanumeric_of_digitOf digit
      omega

theorem charsOf_utf8 {text : Text} (small : ∀ c ∈ text, c.toNat < 128) :
    (utf8 text).map (fun b => Char.ofNat b.toNat) = text := by
  induction text with
  | nil => rfl
  | cons c rest ih =>
    have tail := ih fun x member => small x (List.mem_cons_of_mem _ member)
    have head := small c List.mem_cons_self
    rw [utf8_cons, encode_of_ascii head, List.singleton_append, List.map_cons, tail, (charOf_eq head).mpr rfl]

/-- A numeral that the check reads is read alike where it is plain. -/
theorem number_of_octal (read : octal bytes = .returns n) : r.number bytes = some n ↔ r.Plain bytes := by
  obtain ⟨text, rfl, small, parsed⟩ := chars_of_octal read
  have chars := charsOf_utf8 small
  have sign : 0x2B ∈ utf8 text ↔ '+' ∈ text := by
    conv => rhs; rw [← chars]
    simp only [List.mem_map, charOf_eq (show ('+' : Char).toNat < 128 by decide)]
    constructor
    · exact fun member => ⟨_, member, rfl⟩
    · rintro ⟨_, member, rfl⟩
      exact member
  have blank : (∀ b ∈ utf8 text, b = 0 ∨ b = 0x20) ↔ trimBy padding text = [] := by
    have spelled : (∀ b ∈ utf8 text, b = 0 ∨ b = 0x20) ↔ ∀ c ∈ text, padding c = true := by
      conv => rhs; rw [← chars]
      simp only [List.forall_mem_map, padding, Bool.or_eq_true, decide_eq_true_eq,
        charOf_eq (show ('\x00' : Char).toNat < 128 by decide), charOf_eq (show (' ' : Char).toNat < 128 by decide)]
      exact Iff.rfl
    rw [spelled]
    refine ⟨trimBy_blank, fun none c member => ?_⟩
    by_contra solid
    exact absurd (mem_trimBy member (Bool.not_eq_true _ ▸ solid)) (none ▸ List.not_mem_nil)
  rw [Reader.number, Reader.Plain, chars, sign, blank]
  by_cases none : trimBy padding text = []
  · rw [if_pos none] at parsed
    have zero : n = 0 := (Option.some.inj parsed).symm
    have unsigned : '+' ∉ text := fun member => absurd (mem_trimBy member (by decide)) (none ▸ List.not_mem_nil)
    simp only [none, if_true, zero, unsigned, not_false_eq_true, true_and, true_implies]
  · rw [if_neg none] at parsed
    simp only [none, if_false, false_implies, and_true]
    have inside : '+' ∈ text ↔ '+' ∈ trimBy padding text :=
      ⟨fun member => mem_trimBy member (by decide), mem_of_mem_trimBy⟩
    rw [inside]
    have no_sign : ∀ {digits : Text} {m : Nat}, numeral 8 digits = some m → '+' ∉ digits := fun found member => by
      obtain ⟨d, digit⟩ := (digits_of_numeral found).2 _ member
      exact absurd digit (by decide +revert)
    unfold parseUnsigned at parsed
    obtain ⟨found, -⟩ := Option.filter_eq_some_iff.mp parsed
    refine ⟨no_sign, fun unsigned => ?_⟩
    split at found
    · rename_i signed
      exact absurd (signed ▸ List.mem_cons_self) unsigned
    · exact found

end Numerals

section Entries

variable {r : Reader} {header bytes : Bytes} {p : Progress} {e : Entry} {entries : List Entry} {fault : Option String}

/-- A header in which the reader finds what the check finds. -/
structure Reader.Agrees (r : Reader) (header : Bytes) : Prop where
  checksum : r.Plain (slice header 148 156)
  size : r.Plain (slice header 124 136)
  front : r.fronted header = true ∨ (slice header 345 500).takeWhile (· ≠ 0) = []

theorem path_of_headerName {name : Text} (named : headerName header = .returns name) :
    r.path header = utf8 name ↔ r.fronted header = true ∨ (slice header 345 500).takeWhile (· ≠ 0) = [] := by
  simp only [headerName, field, Checked.bind_eq_returns, Checked.ofOption_eq_returns, Checked.pure_eq,
    Checked.returns.injEq, fromUtf8_eq_some] at named
  obtain ⟨last, named, front, fronted, rfl⟩ := named
  have absent : front = [] ↔ utf8 front = [] := by
    constructor
    · rintro rfl
      rfl
    · intro none
      have long := length_le_utf8 front
      rw [none] at long
      exact List.length_eq_zero_iff.mp (Nat.le_zero.mp long)
  rw [Reader.path, ← named, ← fronted]
  by_cases none : front = []
  · rw [none]
    simp
  · have some_front := mt absent.mpr none
    rw [if_neg none]
    simp only [ne_eq, some_front, not_false_eq_true, and_true, or_false]
    split
    · rename_i taken
      rw [utf8_append, utf8_cons]
      exact iff_of_true rfl taken
    · rename_i left_out
      refine iff_of_false (fun same => ?_) left_out
      have long := congrArg List.length same
      rw [utf8_append, utf8_cons, List.length_append, List.length_append, String.length_utf8EncodeChar] at long
      have positive := ('/' : Char).utf8Size_pos
      omega

theorem record_iff (admitted : Admitted p header e) :
    r.record p.total header = some e.record ↔ r.Agrees header := by
  have sum := number_of_octal (r := r) admitted.sum
  have size := number_of_octal (r := r) admitted.sized
  have path := path_of_headerName (r := r) admitted.named
  simp only [Reader.record, Option.bind_eq_bind, Option.bind_eq_some_iff]
  constructor
  · rintro ⟨expected, read, rest⟩
    split at rest
    · rename_i same
      subst same
      obtain ⟨n, sized, made⟩ := Option.bind_eq_some_iff.mp rest
      obtain ⟨-, -, paths, rfl⟩ := Record.mk.inj (Option.some.inj made)
      exact ⟨sum.mp read, size.mp sized, path.mp paths⟩
    · cases rest
  · rintro ⟨plain, sized, front⟩
    refine ⟨_, sum.mpr plain, ?_⟩
    rw [if_pos rfl, size.mpr sized, Option.bind_some, path.mpr front, ← admitted.offset, ← admitted.header]
    rfl

theorem block_front (body rest : Bytes) (block : header.length = 512) :
    (header ++ (body ++ rest)).take 512 = header ∧ (header ++ (body ++ rest)).drop 512 = body ++ rest ∧
      ¬ (header ++ (body ++ rest)).length < 512 := by
  rw [← block, List.take_left, List.drop_left, List.length_append]
  exact ⟨rfl, rfl, by omega⟩

/-- The reader goes through the same entries exactly where it agrees with every header. -/
theorem Walked.records_iff (walked : Walked fault bytes p entries) :
    r.records p.total bytes = some (entries.map Entry.record) ↔ ∀ e ∈ entries, r.Agrees e.header := by
  induction walked with
  | @done zeros p long clear sound within =>
    have ends : ∀ b ∈ (zeros.drop 512).take 512, b = 0 := fun b member =>
      clear b (List.mem_of_mem_drop (List.mem_of_mem_take member))
    rw [Reader.records, if_neg (by omega), if_pos fun b member => clear b (List.mem_of_mem_take member),
      if_pos ⟨long, ends⟩]
    exact iff_of_true rfl fun e none => absurd none List.not_mem_nil
  | @entry header body rest p e later block solid admitted held further ih =>
    obtain ⟨front, back, long⟩ := block_front body rest block
    rw [Reader.records, if_neg long, front, if_neg solid, back, List.map_cons, List.forall_mem_cons, admitted.header]
    constructor
    · intro found
      obtain ⟨first, read, next⟩ := Option.bind_eq_some_iff.mp found
      split at next
      · obtain ⟨others, reads, same⟩ := Option.map_eq_some_iff.mp next
        obtain ⟨rfl, rfl⟩ := List.cons.inj same
        refine ⟨(record_iff admitted).mp read, ih.mp ?_⟩
        rw [Entry.record, ← held, List.drop_left, held] at reads
        exact reads
      · cases next
    · rintro ⟨agrees, others⟩
      rw [(record_iff admitted).mpr agrees, Option.bind_some]
      have room : padded e.record.size ≤ (body ++ rest).length := by
        rw [Entry.record, ← held, List.length_append]
        exact Nat.le_add_right _ _
      rw [if_pos room, Entry.record, ← held, List.drop_left, held]
      exact congrArg (Option.map _) (ih.mpr others)

theorem Walked.headers_eq (walked : Walked fault bytes p entries) : headers bytes = entries.map Entry.header := by
  induction walked with
  | @done zeros p long clear sound within =>
    rw [headers, if_neg (by omega), if_pos fun b member => clear b (List.mem_of_mem_take member), List.map_nil]
  | @entry header body rest p e later block solid admitted held further ih =>
    obtain ⟨front, back, long⟩ := block_front body rest block
    rw [headers, if_neg long, front, if_neg solid, admitted.sized, back, List.map_cons, admitted.header]
    simp only [← held, List.drop_left, ih]

/-- What the check has seen of each entry. -/
theorem Walked.admitted (walked : Walked fault bytes p entries) :
    ∀ e ∈ entries, headerName e.header = .returns e.name ∧ unsafePath e.name = false ∧
      typeflag e.header ∈ [0, 0x30, 0x35] ∧ e.name ∉ p.names := by
  induction walked with
  | done => exact fun e none => absurd none List.not_mem_nil
  | entry block solid admitted held further ih =>
    rw [List.forall_mem_cons, admitted.header]
    refine ⟨⟨admitted.named, admitted.safe, admitted.kind, admitted.fresh⟩, fun e member => ?_⟩
    obtain ⟨named, safe, kind, fresh⟩ := ih e member
    exact ⟨named, safe, kind, fun old => fresh (List.mem_cons_of_mem _ old)⟩

theorem Walked.distinct (walked : Walked fault bytes p entries) : entries.Pairwise fun a b => a.name ≠ b.name := by
  induction walked with
  | done => exact .nil
  | entry block solid admitted held further ih =>
    refine .cons (fun e member same => ?_) ih
    exact (further.admitted e member).2.2.2 (same ▸ List.mem_cons_self)

theorem Walked.few (walked : Walked fault bytes p entries) (few : p.entries ≤ entryLimit) :
    p.entries + entries.length ≤ entryLimit := by
  induction walked with
  | done => exact few
  | @entry header body rest p e later block solid admitted held further ih =>
    have next := ih admitted.few
    change p.entries + 1 + later.length ≤ entryLimit at next
    rw [List.length_cons]
    omega

/-- The length of the sections of the entries. -/
def extent (entries : List Entry) : Nat := (entries.map fun e => 512 + padded e.size).sum

theorem Walked.zeros (walked : Walked fault bytes p entries) :
    extent entries + 1024 ≤ bytes.length ∧ ∀ b ∈ bytes.drop (extent entries), b = 0 := by
  induction walked with
  | done long clear => exact ⟨by rw [extent, List.map_nil, List.sum_nil, Nat.zero_add]; exact long, clear⟩
  | @entry header body rest p e later block solid admitted held further ih =>
    obtain ⟨long, clear⟩ := ih
    have whole : extent (e :: later) = header.length + (body.length + extent later) := by
      rw [extent, List.map_cons, List.sum_cons, ← extent, block, held, Nat.add_assoc]
    rw [whole, List.drop_length_add_append, List.drop_length_add_append, List.length_append, List.length_append]
    exact ⟨by omega, clear⟩

theorem padded_dvd (size : Nat) : 512 ∣ padded size := Nat.dvd_mul_left _ _

/-- Without bytes after the terminator the length is one in blocks. -/
theorem Walked.small (walked : Walked fault bytes p entries) :
    p.total + bytes.length ≤ inflatedLimit ∨ 512 ∣ bytes.length := by
  induction walked with
  | @done zeros p long clear sound within =>
    rcases Nat.lt_or_eq_of_le long with more | exact_length
    · exact .inl (within more)
    · exact .inr ⟨2, exact_length.symm⟩
  | @entry header body rest p e later block solid admitted held further ih =>
    have blocks := padded_dvd e.size
    rw [List.length_append, List.length_append, block, held]
    rcases ih with short | whole
    · change p.total + 512 + padded e.size + rest.length ≤ inflatedLimit at short
      exact .inl (by omega)
    · exact .inr (by omega)

end Entries

section Profiles

variable {r : Reader} {s : Inflated} {entries : List Entry}

def ProperAncestor (path other : Text) : Prop :=
  normalised path <+: normalised other ∧ normalised path ≠ normalised other

/-- The reader goes through the same entries at the same offsets, and unpacking them makes regular
files and directories only, each once and each below where it starts. -/
structure Faithful (r : Reader) (s : Inflated) (entries : List Entry) : Prop where
  read : r.records 0 s.bytes = some (entries.map Entry.record)
  kinds : ∀ e ∈ entries, e.record.typeflag ∈ [0, 0x30, 0x35]
  inside : ∀ e ∈ entries, isAbsolute e.name = false ∧ ['.', '.'] ∉ splitAll '/' e.name
  distinct : entries.Pairwise fun a b => normalised a.name ≠ normalised b.name
  clear : ∀ a ∈ entries, isDirectory a.header = false → ∀ b ∈ entries, ¬ ProperAncestor a.name b.name
  data : s.bytes.length ≤ inflatedLimit
  few : entries.length ≤ entryLimit
  ends : ∀ b ∈ s.bytes.drop (extent entries), b = 0

/-- No numeral is signed or left blank to a reader that does not take it for zero, no part of a path
stands in a field that the reader does not know, one path is not spelled in two ways, and no file
stands in the way to another entry. -/
structure Unambiguous (r : Reader) (bytes : Bytes) : Prop where
  agrees : ∀ h ∈ headers bytes, r.Agrees h
  spelled : ∀ a ∈ headers bytes, ∀ b ∈ headers bytes, ∀ m n, headerName a = .returns m → headerName b = .returns n →
    normalised m = normalised n → m = n
  clear : ∀ a ∈ headers bytes, isDirectory a = false → ∀ b ∈ headers bytes, ∀ m n, headerName a = .returns m →
    headerName b = .returns n → ¬ ProperAncestor m n

theorem walked_of_readTar (read : readTar s = .returns entries) :
    Walked s.fault s.bytes ⟨0, 0, []⟩ entries ∧ s.bytes.length ≤ inflatedLimit := by
  have walked := walked_of_walk read
  have small := walked.small
  unfold Inflated.take at walked small
  split at walked
  · rename_i long
    rw [if_pos long, List.length_take, Nat.min_eq_left long] at small
    simp only [inflatedLimit] at small
    omega
  · rename_i short
    rw [if_neg short] at small
    refine ⟨walked, ?_⟩
    simp only [inflatedLimit] at short small ⊢
    omega

theorem spelled_iff (walked : Walked s.fault s.bytes ⟨0, 0, []⟩ entries) :
    (entries.Pairwise fun a b => normalised a.name ≠ normalised b.name) ↔
      ∀ a ∈ headers s.bytes, ∀ b ∈ headers s.bytes, ∀ m n, headerName a = .returns m → headerName b = .returns n →
        normalised m = normalised n → m = n := by
  rw [walked.headers_eq]
  simp only [List.forall_mem_map]
  constructor
  · intro distinct a first b second m n named_a named_b same
    obtain rfl := Checked.returns.inj ((walked.admitted a first).1.symm.trans named_a)
    obtain rfl := Checked.returns.inj ((walked.admitted b second).1.symm.trans named_b)
    by_contra other
    have : Std.Symm fun a b : Entry => normalised a.name ≠ normalised b.name := ⟨fun _ _ differ => differ.symm⟩
    exact distinct.forall first second (fun one => other (congrArg Entry.name one)) same
  · intro spelled
    refine walked.distinct.imp_of_mem fun {a b} first second other same => other ?_
    exact spelled a first b second _ _ (walked.admitted a first).1 (walked.admitted b second).1 same

theorem clear_iff (walked : Walked s.fault s.bytes ⟨0, 0, []⟩ entries) :
    (∀ a ∈ entries, isDirectory a.header = false → ∀ b ∈ entries, ¬ ProperAncestor a.name b.name) ↔
      ∀ a ∈ headers s.bytes, isDirectory a = false → ∀ b ∈ headers s.bytes, ∀ m n, headerName a = .returns m →
        headerName b = .returns n → ¬ ProperAncestor m n := by
  rw [walked.headers_eq]
  simp only [List.forall_mem_map]
  constructor
  · intro clear a first regular b second m n named_a named_b
    obtain rfl := Checked.returns.inj ((walked.admitted a first).1.symm.trans named_a)
    obtain rfl := Checked.returns.inj ((walked.admitted b second).1.symm.trans named_b)
    exact clear a first regular b second
  · intro clear a first regular b second
    exact clear a first regular b second _ _ (walked.admitted a first).1 (walked.admitted b second).1

/-- What the check accepts leaves nothing to the unpacker exactly where it can be read in one way. -/
theorem validated_iff (r : Reader) (s : Inflated) (accepted : validateTar s = .returns ()) :
    ∃ entries, readTar s = .returns entries ∧ (Faithful r s entries ↔ Unambiguous r s.bytes) := by
  obtain ⟨entries, read, -⟩ := Checked.bind_eq_returns.mp accepted
  obtain ⟨walked, data⟩ := walked_of_readTar read
  have reads := walked.records_iff (r := r)
  refine ⟨entries, read, fun faithful => ⟨?_, (spelled_iff walked).mp faithful.distinct, (clear_iff walked).mp faithful.clear⟩,
    fun plain => ⟨reads.mpr fun e member => ?_, fun e member => ?_, fun e member => ?_, (spelled_iff walked).mpr plain.spelled,
      (clear_iff walked).mpr plain.clear, data, ?_, walked.zeros.2⟩⟩
  · rw [walked.headers_eq]
    exact List.forall_mem_map.mpr (reads.mp faithful.read)
  · exact plain.agrees _ (walked.headers_eq ▸ List.mem_map_of_mem member)
  · exact (walked.admitted e member).2.2.1
  · have safe := (walked.admitted e member).2.1
    simp only [unsafePath, Bool.or_eq_false_iff, Bool.not_eq_false'] at safe
    exact isInside_iff.mp safe.2
  · have few := walked.few (Nat.zero_le _)
    rwa [Nat.zero_add] at few

/-- A directory whose size is written with a sign, and the terminator. -/
def signedHeader : Bytes :=
  0x61 :: List.replicate 123 0 ++ [0x2B, 0x30] ++ List.replicate 22 0 ++ [0x37, 0x36, 0x31] ++ List.replicate 5 0 ++
    0x35 :: List.replicate 355 0

def signed : Inflated := ⟨signedHeader ++ List.replicate 1024 0, none⟩

theorem octal_utf8 (text : Text) : octal (utf8 text) = .ofOption "invalid tar number"
    (parseUnsigned 8 (2 ^ 64) (if trimBy padding text = [] then ['0'] else trimBy padding text)) := by
  rw [octal, fromUtf8_eq_some.mpr rfl]
  rfl

theorem signed_admitted : Admitted ⟨0, 0, []⟩ signedHeader ⟨0, signedHeader, ['a'], 0⟩ where
  few := by decide
  sum := by
    rw [show slice signedHeader 148 156 = utf8 ('7' :: '6' :: '1' :: List.replicate 5 '\x00') by decide, octal_utf8]
    decide +kernel
  named := by
    rw [headerName, field, fromUtf8_eq_some.mpr (show utf8 ['a'] = _ by decide), field,
      fromUtf8_eq_some.mpr (show utf8 [] = _ by decide)]
    rfl
  safe := by decide
  kind := by decide
  fresh := List.not_mem_nil
  sized := by
    rw [show slice signedHeader 124 136 = utf8 ('+' :: '0' :: List.replicate 10 '\x00') by decide, octal_utf8]
    decide
  small := by decide
  hollow _ := rfl
  fits := by decide
  offset := rfl
  header := rfl

theorem signed_read : readTar signed = .returns [⟨0, signedHeader, ['a'], 0⟩] := by
  have short : ¬ inflatedLimit + 1 ≤ signed.bytes.length := by decide +kernel
  rw [readTar, Inflated.take, if_neg short]
  have length : (List.replicate 1024 (0 : UInt8)).length = 1024 := List.length_replicate
  have walked : Walked none (signedHeader ++ ([] ++ List.replicate 1024 0)) ⟨0, 0, []⟩ [⟨0, signedHeader, ['a'], 0⟩] :=
    .entry (by decide +kernel) (by decide +kernel) signed_admitted rfl
      (.done length.ge (fun b => List.eq_of_mem_replicate) rfl fun more => absurd length more.ne')
  exact walk_of_walked walked

theorem signed_accepted : validateTar signed = .returns () := by
  rw [validateTar, signed_read]
  rfl

/-- No reader of the format goes through it. -/
theorem signed_differs : ∃ s, validateTar s = .returns () ∧ ∀ r entries, readTar s = .returns entries →
    ¬ Faithful r s entries := by
  refine ⟨signed, signed_accepted, fun r entries read faithful => ?_⟩
  obtain rfl := Checked.returns.inj (signed_read.symm.trans read)
  have agrees := (walked_of_readTar signed_read).1.records_iff.mp faithful.read _ List.mem_cons_self
  exact agrees.size.1 (by decide +kernel)

theorem signed_iff : ∃ entries, readTar signed = .returns entries ∧
    (Faithful ⟨none, fun _ => true⟩ signed entries ↔ Unambiguous ⟨none, fun _ => true⟩ signed.bytes) :=
  validated_iff ⟨none, fun _ => true⟩ signed signed_accepted

end Profiles

end NixHomeServer.Browsertrix.ProfileTar
