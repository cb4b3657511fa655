import Mathlib.Algebra.GroupWithZero.Nat
import Mathlib.Data.FinEnum
import NixHomeServer.Browsertrix.ZipDirectory
import NixHomeServer.Library.Numerals
import NixHomeServer.Library.Paths

/-! The check of an imported browser profile, which a tar program unpacks later,
and what a reader of the ustar format makes of the same bytes. -/
namespace NixHomeServer.Browsertrix.ProfileTar

open NixHomeServer.Library

abbrev Bytes := List UInt8
abbrev Text := List Char
abbrev Result := Checked String

def inflatedLimit : Nat := 256 * 1024 * 1024
def entryLimit : Nat := 10000
def sizeLimit : Nat := 64 * 1024 * 1024

/-- What a decoder gives out: its bytes and, where it stops early, the error. -/
structure Inflated where
  bytes : Bytes
  fault : Option String

def Inflated.take (limit : Nat) (s : Inflated) : Inflated :=
  if limit ≤ s.bytes.length then ⟨s.bytes.take limit, none⟩ else s

section Fields

def slice (header : Bytes) (start stop : Nat) : Bytes := (header.take stop).drop start

def padding (c : Char) : Bool := c = '\x00' || c = ' '

def octal (bytes : Bytes) : Result Nat := do
  let text ← .ofOption "invalid tar number" (fromUtf8 bytes)
  let s := trimBy padding text
  .ofOption "invalid tar number" (parseUnsigned 8 (2 ^ 64) (if s = [] then ['0'] else s))

def checksum (header : Bytes) : Nat :=
  (header.zipIdx.map fun (v, i) => if 148 ≤ i ∧ i < 156 then 32 else v.toNat).sum

def field (bytes : Bytes) : Result Text :=
  .ofOption "profile path is not UTF-8" (fromUtf8 (bytes.takeWhile (· ≠ 0)))

def headerName (header : Bytes) : Result Text := do
  let name ← field (slice header 0 100)
  let front ← field (slice header 345 500)
  return if front = [] then name else front ++ '/' :: name

def unsafePath (name : Text) : Bool :=
  name.isEmpty || name.contains '\\' || name.contains ':' || name.any ZipDirectory.isControl || !isInside name

def typeflag (header : Bytes) : UInt8 := header.getD 156 0

def isDirectory (header : Bytes) : Bool := typeflag header == 0x35

def padded (size : Nat) : Nat := (size + 511) / 512 * 512

end Fields

structure Entry where
  offset : Nat
  header : Bytes
  name : Text
  size : Nat
  deriving DecidableEq

/-- The variables of the loop. -/
structure Progress where
  entries : Nat
  total : Nat
  names : List Text

local instance lawfulTar : LawfulBEq (List Char) := inferInstance

def readHeader (p : Progress) (header : Bytes) : Result (Entry × Progress) := do
  let total := p.total + 512
  .ensure (p.entries + 1 ≤ entryLimit) "profile entry limit exceeded"
  let expected ← octal (slice header 148 156)
  .ensure (expected = checksum header) "profile tar checksum mismatch"
  let name ← headerName header
  .ensure (unsafePath name = false) "unsafe path in profile tar"
  .ensure (typeflag header ∈ [0, 0x30, 0x35]) "profile tar links, devices and extension headers are forbidden"
  .ensure (name ∉ p.names) "duplicate profile path"
  let size ← octal (slice header 124 136)
  .ensure (¬ (sizeLimit < size ∨ isDirectory header = true ∧ size ≠ 0)) "invalid profile entry size"
  .ensure (size + 511 < 2 ^ 64 ∧ total + padded size < 2 ^ 64) "profile size overflow"
  .ensure (total + padded size ≤ inflatedLimit) "inflated profile size limit exceeded"
  return (⟨p.total, header, name, size⟩, ⟨p.entries + 1, total + padded size, name :: p.names⟩)

def Inflated.ended : Option String → Result Unit
  | none => .returns ()
  | some e => .fails e

/-- A read that gives fewer bytes than there is room for changes only which of two errors it is. -/
def trailing (fault : Option String) (rest : Bytes) (total : Nat) : Result Unit :=
  if rest = [] then Inflated.ended fault
  else do
    let read := rest.take 16384
    .ensure (total + read.length < 2 ^ 64) "profile size overflow"
    .ensure (total + read.length ≤ inflatedLimit) "inflated profile size limit exceeded"
    .ensure (∀ b ∈ read, b = 0) "profile has data after tar terminator"
    trailing fault (rest.drop 16384) (total + read.length)
termination_by rest.length
decreasing_by
  have positive := List.length_pos_iff.mpr ‹¬ rest = []›
  rw [List.length_drop]
  omega

def terminator (fault : Option String) (rest : Bytes) (total : Nat) : Result Unit := do
  .ensure (512 ≤ rest.length) "missing tar terminator"
  .ensure (∀ b ∈ rest.take 512, b = 0) "invalid tar terminator"
  trailing fault (rest.drop 512) (total + 512)

def walk (fault : Option String) (rest : Bytes) (p : Progress) : Result (List Entry) :=
  if rest.length < 512 then .fails "truncated profile tar header"
  else if ∀ b ∈ rest.take 512, b = 0 then do
    terminator fault (rest.drop 512) (p.total + 512)
    return []
  else do
    let (entry, next) ← readHeader p (rest.take 512)
    .ensure (padded entry.size ≤ (rest.drop 512).length) (fault.getD "truncated profile entry")
    return entry :: (← walk fault ((rest.drop 512).drop (padded entry.size)) next)
termination_by rest.length
decreasing_by
  simp only [List.length_drop]
  omega

/-- The entries that the check goes through. -/
def readTar (s : Inflated) : Result (List Entry) :=
  let decoder := s.take (inflatedLimit + 1)
  walk decoder.fault decoder.bytes ⟨0, 0, []⟩

def validateTar (s : Inflated) : Result Unit := do
  let _ ← readTar s
  return ()

section Inversion

variable {p next : Progress} {header : Bytes} {e : Entry} {fault : Option String}

/-- What holds of a header that the loop goes on from. -/
structure Admitted (p : Progress) (header : Bytes) (e : Entry) : Prop where
  few : p.entries + 1 ≤ entryLimit
  sum : octal (slice header 148 156) = .returns (checksum header)
  named : headerName header = .returns e.name
  safe : unsafePath e.name = false
  kind : typeflag header ∈ [0, 0x30, 0x35]
  fresh : e.name ∉ p.names
  sized : octal (slice header 124 136) = .returns e.size
  small : e.size ≤ sizeLimit
  hollow : isDirectory header = true → e.size = 0
  fits : p.total + 512 + padded e.size ≤ inflatedLimit
  offset : e.offset = p.total
  header : e.header = header

def Progress.after (p : Progress) (e : Entry) : Progress :=
  ⟨p.entries + 1, p.total + 512 + padded e.size, e.name :: p.names⟩

theorem readHeader_eq_returns : readHeader p header = .returns (e, next) ↔ Admitted p header e ∧ next = p.after e := by
  simp only [readHeader, Checked.bind_eq_returns, Checked.ensure_eq_returns, Checked.pure_eq, Checked.returns.injEq,
    Prod.mk.injEq, exists_and_left, exists_const, not_or, not_and, not_not, Nat.not_lt]
  constructor
  · rintro ⟨few, _, sum, rfl, name, named, safe, kind, fresh, size, sized, ⟨small, hollow⟩, -, fits, rfl, rfl⟩
    exact ⟨⟨few, sum, named, safe, kind, fresh, sized, small, hollow, fits, rfl, rfl⟩, rfl⟩
  · rintro ⟨admitted, rfl⟩
    obtain ⟨offset, _, name, size⟩ := e
    obtain ⟨few, sum, named, safe, kind, fresh, sized, small, hollow, fits, rfl, rfl⟩ := admitted
    have bounded : padded size ≤ size + 511 := Nat.div_mul_le_self _ _
    simp only [inflatedLimit, sizeLimit] at small fits ⊢
    refine ⟨few, _, sum, rfl, name, named, safe, kind, fresh, size, sized, ⟨small, hollow⟩, ⟨?_, ?_⟩, fits, rfl, rfl⟩ <;> omega

theorem trailing_eq_returns {rest : Bytes} {total : Nat} : trailing fault rest total = .returns () ↔
    fault = none ∧ (∀ b ∈ rest, b = 0) ∧ (rest ≠ [] → total + rest.length ≤ inflatedLimit) := by
  induction rest, total using trailing.induct with
  | case1 total =>
    rw [trailing, if_pos rfl]
    cases fault <;> simp [Inflated.ended]
  | case2 rest total some_left read ih =>
    have whole : rest.take 16384 ++ rest.drop 16384 = rest := List.take_append_drop _ _
    have long := congrArg List.length whole
    rw [List.length_append] at long
    have part : read.length = (rest.take 16384).length := rfl
    have all : (∀ b ∈ rest, b = 0) ↔ (∀ b ∈ rest.take 16384, b = 0) ∧ ∀ b ∈ rest.drop 16384, b = 0 := by
      rw [← List.forall_mem_append, whole]
    rw [trailing, if_neg some_left]
    simp only [Checked.bind_eq_returns, Checked.ensure_eq_returns, exists_const]
    rw [ih, all]
    constructor
    · rintro ⟨-, here, clear, sound, later, more⟩
      refine ⟨sound, ⟨clear, later⟩, fun _ => ?_⟩
      by_cases done : rest.drop 16384 = []
      · rw [done, List.length_nil] at long
        omega
      · have := more done
        omega
    · rintro ⟨sound, ⟨clear, later⟩, within⟩
      have total_within := within some_left
      simp only [inflatedLimit] at total_within ⊢
      exact ⟨by omega, by omega, clear, sound, later, fun _ => by omega⟩

theorem terminator_eq_returns {rest : Bytes} {total : Nat} : terminator fault rest total = .returns () ↔
    512 ≤ rest.length ∧ fault = none ∧ (∀ b ∈ rest, b = 0) ∧
      (512 < rest.length → total + rest.length ≤ inflatedLimit) := by
  have all : (∀ b ∈ rest, b = 0) ↔ (∀ b ∈ rest.take 512, b = 0) ∧ ∀ b ∈ rest.drop 512, b = 0 := by
    rw [← List.forall_mem_append, List.take_append_drop]
  have more : rest.drop 512 ≠ [] ↔ 512 < rest.length := by
    rw [ne_eq, List.drop_eq_nil_iff, Nat.not_le]
  simp only [terminator, Checked.bind_eq_returns, Checked.ensure_eq_returns, exists_const, trailing_eq_returns, all, more,
    List.length_drop]
  constructor
  · rintro ⟨long, clear, sound, later, within⟩
    exact ⟨long, sound, ⟨clear, later⟩, fun beyond => by have := within beyond; omega⟩
  · rintro ⟨long, sound, ⟨clear, later⟩, within⟩
    exact ⟨long, clear, sound, later, fun beyond => by have := within beyond; omega⟩

/-- The bytes that the loop accepts, section after section. -/
inductive Walked (fault : Option String) : Bytes → Progress → List Entry → Prop
  | done {zeros : Bytes} {p : Progress} (long : 1024 ≤ zeros.length) (clear : ∀ b ∈ zeros, b = 0) (sound : fault = none)
      (within : 1024 < zeros.length → p.total + zeros.length ≤ inflatedLimit) : Walked fault zeros p []
  | entry {header body rest : Bytes} {p : Progress} {e : Entry} {later : List Entry} (block : header.length = 512)
      (solid : ¬ ∀ b ∈ header, b = 0) (admitted : Admitted p header e) (held : body.length = padded e.size)
      (further : Walked fault rest (p.after e) later) : Walked fault (header ++ (body ++ rest)) p (e :: later)

theorem walked_of_walk {rest : Bytes} {entries : List Entry} (walked : walk fault rest p = .returns entries) :
    Walked fault rest p entries := by
  induction rest, p using walk.induct generalizing entries with
  | case1 rest p short =>
    rw [walk, if_pos short] at walked
    cases walked
  | case2 rest p long clear =>
    rw [walk, if_neg long, if_pos clear] at walked
    simp only [Checked.bind_eq_returns, Checked.pure_eq, Checked.returns.injEq] at walked
    obtain ⟨⟨⟩, ended, rfl⟩ := walked
    obtain ⟨room, sound, later, within⟩ := terminator_eq_returns.mp ended
    rw [List.length_drop] at room within
    refine .done (by omega) (fun b member => ?_) sound (fun beyond => by have := within (by omega); omega)
    rw [← List.take_append_drop 512 rest] at member
    exact (List.mem_append.mp member).elim (clear b) (later b)
  | case3 rest p long solid ih =>
    rw [walk, if_neg long, if_neg solid] at walked
    simp only [Checked.bind_eq_returns, Checked.ensure_eq_returns, Checked.pure_eq, Checked.returns.injEq] at walked
    obtain ⟨⟨e, next⟩, read, -, held, later, further, rfl⟩ := walked
    obtain ⟨admitted, rfl⟩ := readHeader_eq_returns.mp read
    have whole := List.take_append_drop (padded e.size) (rest.drop 512)
    dsimp only at held
    rw [← List.take_append_drop 512 rest, ← whole]
    exact .entry (by rw [List.length_take]; omega) solid admitted
      (by rw [List.length_take]; exact Nat.min_eq_left held) (ih e _ further)

theorem walk_of_walked {rest : Bytes} {entries : List Entry} (walked : Walked fault rest p entries) :
    walk fault rest p = .returns entries := by
  induction walked with
  | @done zeros p long clear sound within =>
    have ended : terminator fault (zeros.drop 512) (p.total + 512) = .returns () := by
      rw [terminator_eq_returns, List.length_drop]
      exact ⟨by omega, sound, fun b member => clear b (List.mem_of_mem_drop member),
        fun beyond => by have := within (by omega); omega⟩
    rw [walk, if_neg (by omega), if_pos fun b member => clear b (List.mem_of_mem_take member), ended]
    rfl
  | @entry header body rest p e later block solid admitted held further ih =>
    have front : (header ++ (body ++ rest)).take 512 = header := by rw [← block, List.take_left]
    have back : (header ++ (body ++ rest)).drop 512 = body ++ rest := by rw [← block, List.drop_left]
    rw [walk, if_neg (by rw [List.length_append]; omega), front, if_neg solid, back,
      readHeader_eq_returns.mpr ⟨admitted, rfl⟩, Checked.returns_bind]
    simp only [← held, List.drop_left, ih]
    rw [Checked.ensure, if_pos (by rw [List.length_append]; exact Nat.le_add_right _ _)]
    rfl

end Inversion

end NixHomeServer.Browsertrix.ProfileTar
