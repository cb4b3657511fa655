import NixHomeServer.Browsertrix.ZipDirectory
import NixHomeServer.Library.Intervals

/-! What holds of the directory of a file that passes the check. -/
namespace NixHomeServer.Browsertrix.ZipDirectory

open NixHomeServer.Library

/-- The fields of an extra area from a position to its end. -/
inductive Fields (data : Bytes) : Nat → List (Nat × Bytes) → Prop
  | done : Fields data data.length []
  | field {p tag length : Nat} {value : Bytes} {rest : List (Nat × Bytes)} (tagged : word 2 data p = some tag)
      (measured : word 2 data (p + 2) = some length) (held : segment data (p + 4) length = some value)
      (others : Fields data (p + 4 + length) rest) : Fields data p ((tag, value) :: rest)

def zip64Values (fields : List (Nat × Bytes)) : List Bytes := (fields.filter fun f => f.1 = 1).map Prod.snd

/-- The value of a 32-bit field, in the ZIP64 value where the field is all ones,
and how much of that value is used up. -/
inductive Widened (z : Bytes) (p : Nat) : Nat → Nat → Nat → Prop
  | narrow {field : Nat} (short : field ≠ u32Max) : Widened z p field field p
  | wide {value : Nat} (long : word 8 z p = some value) : Widened z p u32Max value (p + 8)

structure Member where
  name : Bytes
  fields : List (Nat × Bytes)
  extraLength : Nat
  commentLength : Nat
  unpacked : Nat
  packed : Nat
  localAt : Nat
  localExtra : Nat

/-- The length of the central record. -/
def Member.size (m : Member) : Nat := 46 + (m.name.length + m.extraLength + m.commentLength)

def Member.zip64 (m : Member) : Bytes := (zip64Values m.fields).headD []

/-- From the local header to the end of the data. -/
def Member.range (m : Member) : Nat × Nat :=
  (m.localAt, m.localAt + 30 + (m.name.length + m.localExtra) + m.packed)

/-- The central record of the member at a position. -/
structure Central (content : Bytes) (p : Nat) (m : Member) : Prop where
  signed : segment content p 4 = some recordSignature
  nameLength : word 2 content (p + 28) = some m.name.length
  extraLength : word 2 content (p + 30) = some m.extraLength
  commentLength : word 2 content (p + 32) = some m.commentLength
  named : segment content (p + 46) m.name.length = some m.name
  extended : ∃ extras, segment content (p + 46 + m.name.length) m.extraLength = some extras ∧ Fields extras 0 m.fields
  single : (zip64Values m.fields).length ≤ 1
  sized : ∃ unpacked packed localAt used used' used'', word 4 content (p + 24) = some unpacked ∧
    word 4 content (p + 20) = some packed ∧ word 4 content (p + 42) = some localAt ∧
    Widened m.zip64 0 unpacked m.unpacked used ∧ Widened m.zip64 used packed m.packed used' ∧
    Widened m.zip64 used' localAt m.localAt used''

/-- The local header of the member, where its central record says. -/
structure Local (content : Bytes) (m : Member) : Prop where
  signed : segment content m.localAt 4 = some localSignature
  nameLength : word 2 content (m.localAt + 26) = some m.name.length
  extraLength : word 2 content (m.localAt + 28) = some m.localExtra
  named : segment content (m.localAt + 30) m.name.length = some m.name

/-- Central records, each where the last one ends. -/
inductive Chain (content : Bytes) : Nat → List Member → Nat → Prop
  | done (p : Nat) : Chain content p [] p
  | record {p stop : Nat} {m : Member} {rest : List Member} (central : Central content p m) (header : Local content m)
      (others : Chain content (p + m.size) rest stop) : Chain content p (m :: rest) stop

/-- The end record of a file of this size, or the ZIP64 record before it, says
where the directory lies. -/
structure Ends (content : Bytes) (size : Nat) (span : Span) : Prop where
  signed : segment content span.endAt 4 = some endSignature
  closes : ∃ comment, word 2 content (span.endAt + 20) = some comment ∧ span.endAt + 22 + comment = size
  located : (span.directoryEnd = span.endAt ∧ word 2 content (span.endAt + 10) = some span.count ∧
      word 4 content (span.endAt + 12) = some span.length ∧ word 4 content (span.endAt + 16) = some span.start) ∨
    ∃ locator, locator + 20 = span.endAt ∧ segment content locator 4 = some locatorSignature ∧
      word 8 content (locator + 8) = some span.directoryEnd ∧ span.directoryEnd + 56 = locator ∧
      segment content span.directoryEnd 4 = some endSignature64 ∧
      word 8 content (span.directoryEnd + 32) = some span.count ∧
      word 8 content (span.directoryEnd + 40) = some span.length ∧
      word 8 content (span.directoryEnd + 48) = some span.start

structure Preflighted (content : Bytes) (size : Nat) (directory : Directory) (span : Span) (members : List Member) :
    Prop where
  ends : Ends content size span
  given : directory.count = span.count ∧ directory.start = span.start
  held : segment content directory.start (size - directory.start) = some directory.data
  only : ∀ p ∈ List.range (directory.data.length - 3),
    (directory.data.drop p).take 4 = endSignature → directory.start + p = span.endAt
  spans : directory.start + span.length = span.directoryEnd
  counted : members.length = directory.count
  chain : Chain content directory.start members span.directoryEnd
  named : (members.map Member.name).Nodup
  before : ∀ m ∈ members, m.range.1 < m.range.2 ∧ m.range.2 ≤ directory.start
  apart : (members.map Member.range).Pairwise Library.Apart
  bounded : (members.map Member.unpacked).sum ≤ 64 * 1024 * 1024 * 1024

section reads

variable {b : Bytes} {p : Nat}

theorem u16le_sound (inside : p + 2 ≤ b.length) : (u16le b p).Sound fun n => word 2 b p = some n :=
  .unwrap (word_of_le inside).choose_spec

theorem u32le_sound (inside : p + 4 ≤ b.length) : (u32le b p).Sound fun n => word 4 b p = some n :=
  .unwrap (word_of_le inside).choose_spec

theorem u64le_sound (inside : p + 8 ≤ b.length) : (u64le b p).Sound fun n => word 8 b p = some n :=
  .unwrap (word_of_le inside).choose_spec

theorem u16_lt {n : Nat} (read : word 2 b p = some n) : n < 65536 := word_lt read

theorem suffix_sound (inside : p ≤ b.length) : (suffix b p).Sound fun rest => rest = b.drop p := by
  rw [suffix, if_pos inside]
  exact rfl

/-- What was read of a file, unless nothing was to be read. -/
theorem bytes_sound (file : File) (start length : Nat) :
    (bytes file start length).Sound fun b => b.length = length ∧
      (length ≠ 0 → segment file.content start length = some b) := by
  unfold bytes
  split
  · rename_i nothing
    exact ⟨nothing.symm, fun some => absurd nothing some⟩
  · exact Checked.Sound.ofOption.mono fun part cut => ⟨length_segment cut, fun _ => cut⟩

end reads

section extras

variable {data name : Bytes}

theorem extraFrom_sound (short : data.length < 2 ^ 63) (p : Nat) (zip64 : Option Bytes) (inside : p ≤ data.length) :
    (extraFrom data name p zip64).Sound fun found =>
      ∃ fields, Fields data p fields ∧ found.toList = zip64.toList ++ zip64Values fields := by
  induction p, zip64 using extraFrom.induct data with
  | case1 p zip64 past =>
    rw [extraFrom, if_pos past]
    obtain rfl : p = data.length := by omega
    exact ⟨[], .done, by rw [zip64Values]; exact (List.append_nil _).symm⟩
  | case2 p zip64 more truncated =>
    rw [extraFrom, if_neg more, if_pos truncated]
    exact trivial
  | case3 p zip64 more whole ih =>
    rw [extraFrom, if_neg more, if_neg whole]
    refine (u16le_sound (by omega)).bind fun tag tagged => ?_
    refine (u16le_sound (by omega)).bind fun length measured => ?_
    have bound := u16_lt measured
    refine (Checked.Sound.fits (by omega)).bind fun _ _ => ?_
    refine Checked.Sound.ofOption.bind fun value held => ?_
    have reach := inside_of_segment held
    refine Checked.Sound.ensure.bind fun _ once => ?_
    refine Checked.Sound.ensure.bind fun _ _ => ?_
    refine (ih tag length value reach).mono fun found ⟨fields, chain, collected⟩ => ?_
    refine ⟨(tag, value) :: fields, .field tagged measured held chain, ?_⟩
    by_cases own : tag = 1
    · have fresh : zip64 = none := by
        cases zip64 with
        | none => rfl
        | some other => exact absurd ⟨own, rfl⟩ once
      simpa [own, fresh, zip64Values] using collected
    · simpa [own, zip64Values] using collected

theorem extra_sound (short : data.length < 2 ^ 63) : (extra data name).Sound fun found =>
    ∃ fields, Fields data 0 fields ∧ found.toList = zip64Values fields :=
  extraFrom_sound short 0 none (Nat.zero_le _)

theorem widened_sound {z : Bytes} {p : Nat} (near : p + 8 < 2 ^ 64) (field : Nat) :
    (widened z p field).Sound fun got => Widened z p field got.1 got.2 ∧ got.2 ≤ p + 8 := by
  unfold widened
  split
  · rename_i ones
    subst ones
    refine (Checked.Sound.fits near).bind fun _ _ => ?_
    refine Checked.Sound.ofOption.bind fun value held => ?_
    have long := length_segment held
    refine (u64le_sound (by omega)).bind fun n read => ?_
    rw [word_segment held (by omega)] at read
    exact ⟨.wide read, Nat.le_refl _⟩
  · rename_i short
    exact ⟨.narrow short, Nat.le_add_right p 8⟩

end extras

section span

variable {file : File}

/-- A header read of a file, and what is read of the header. -/
theorem word_read {content h : Bytes} {start length p width n : Nat} (cut : segment content start length = some h)
    (inside : p + width ≤ length) (read : word width h p = some n) : word width content (start + p) = some n := by
  rwa [word_segment cut inside] at read

theorem signed_read {content h mark : Bytes} {start length : Nat} (cut : segment content start length = some h)
    (inside : mark.length ≤ length) (starts : mark.isPrefixOf h = true) :
    segment content start mark.length = some mark := by
  have own := segment_of_mark (Nat.zero_le h.length) starts
  rwa [segment_segment cut (by omega)] at own

theorem findEnd_sound {tail : Bytes} (short : tail.length < 2 ^ 17) (n : Nat) (inside : n ≤ tail.length - 21) :
    (findEnd tail n).Sound fun found => ∀ p, found = some p → segment tail p 4 = some endSignature ∧
      ∃ comment, word 2 tail (p + 20) = some comment ∧ p + 22 + comment = tail.length := by
  induction n with
  | zero => exact nofun
  | succ p ih =>
    unfold findEnd
    refine (suffix_sound (by omega)).bind fun rest same => ?_
    split
    · rename_i starts
      refine (u16le_sound (by omega)).bind fun comment read => ?_
      have bound := u16_lt read
      refine (Checked.Sound.fits (by omega)).bind fun _ _ => ?_
      split
      · rename_i closes
        rintro _ found
        obtain rfl := Option.some.inj found
        rw [same] at starts
        exact ⟨segment_of_mark (by omega) starts, comment, read, closes⟩
      · exact ih (by omega)
    · exact ih (by omega)

theorem readEnd_sound {content tail : Bytes} {tailStart : Nat} (short : tail.length < 2 ^ 17)
    (addressable : content.length < 2 ^ 63) (cut : tail.length ≠ 0 → segment content tailStart tail.length = some tail) :
    (readEnd tail tailStart).Sound fun span => Ends content (tailStart + tail.length) span := by
  refine Checked.Sound.bind ((findEnd_sound short _ (Nat.le_refl _)).bind fun found met =>
    Checked.Sound.ofOption.mono fun p same => met p same) ?_
  rintro p ⟨signed, comment, read, closes⟩
  have whole := cut (by omega)
  have reach := inside_of_segment whole
  refine (suffix_sound (by omega)).bind fun last same => ?_
  have rest : segment content (tailStart + p) (tail.length - p) = some last := by
    rw [← segment_segment whole (by omega), segment_of_le (by omega), same, List.take_of_length_le]
    rw [List.length_drop]
  have long := length_segment rest
  refine (u16le_sound (by omega)).bind fun disk _ => ?_
  refine (u16le_sound (by omega)).bind fun directoryDisk _ => ?_
  refine (u16le_sound (by omega)).bind fun here _ => ?_
  refine (u16le_sound (by omega)).bind fun count counted => ?_
  refine Checked.Sound.ensure.bind fun _ _ => ?_
  refine (Checked.Sound.fits (by omega)).bind fun _ _ => ?_
  refine (u32le_sound (by omega)).bind fun length measured => ?_
  refine (u32le_sound (by omega)).bind fun start started => ?_
  refine ⟨?_, ⟨comment, ?_, ?_⟩, .inl ⟨rfl, ?_, ?_, ?_⟩⟩
  · rwa [← segment_segment whole (by omega)]
  · show word 2 content (tailStart + p + 20) = some comment
    rw [Nat.add_assoc]
    exact word_read whole (by omega) read
  · dsimp only
    omega
  · exact word_read rest (by omega) counted
  · exact word_read rest (by omega) measured
  · exact word_read rest (by omega) started

theorem readEnd64_sound {size locator : Nat} {held : Bytes} {span : Span} (ends : Ends file.content size span)
    (before : locator + 20 = span.endAt) (cut : segment file.content locator 20 = some held)
    (starts : locatorSignature.isPrefixOf held = true) :
    (readEnd64 file held span).Sound fun span' => Ends file.content size span' ∧ span'.endAt = span.endAt := by
  have long := length_segment cut
  refine (u32le_sound (by omega)).bind fun disk _ => ?_
  refine (u32le_sound (by omega)).bind fun disks _ => ?_
  refine Checked.Sound.ensure.bind fun _ _ => ?_
  refine (u64le_sound (by omega)).bind fun there pointed => ?_
  refine (Checked.Sound.minus (by omega)).bind fun limit limited => ?_
  refine Checked.Sound.ensure.bind fun _ _ => ?_
  refine (bytes_sound file there 56).bind fun z both => ?_
  have whole := both.2 (by omega)
  refine (u64le_sound (by omega)).bind fun length _ => ?_
  refine Checked.Sound.ensure.bind fun _ laid => ?_
  refine (u32le_sound (by omega)).bind fun disk _ => ?_
  refine (u32le_sound (by omega)).bind fun directoryDisk _ => ?_
  refine (u64le_sound (by omega)).bind fun here _ => ?_
  refine (u64le_sound (by omega)).bind fun count counted => ?_
  refine Checked.Sound.ensure.bind fun _ _ => ?_
  refine (u64le_sound (by omega)).bind fun length measured => ?_
  refine (u64le_sound (by omega)).bind fun start started => ?_
  refine Checked.Sound.ensure.bind fun _ _ => ?_
  refine ⟨⟨ends.signed, ends.closes, .inr ⟨locator, before, ?_, ?_, ?_, ?_, ?_, ?_, ?_⟩⟩, rfl⟩
  · exact signed_read cut (by decide) starts
  · exact word_read cut (by omega) pointed
  · dsimp only
    omega
  · exact signed_read whole (by decide) laid.1
  · exact word_read whole (by omega) counted
  · exact word_read whole (by omega) measured
  · exact word_read whole (by omega) started

theorem readSpan_sound {tail : Bytes} {tailStart : Nat} (short : tail.length < 2 ^ 17)
    (cut : tail.length ≠ 0 → segment file.content tailStart tail.length = some tail) :
    (readSpan file tail tailStart).Sound fun span => Ends file.content (tailStart + tail.length) span := by
  refine (readEnd_sound short file.addressable cut).bind fun span ends => ?_
  have located : (readLocator file span.endAt).Sound fun held =>
      locatorSignature.isPrefixOf held = true → 20 ≤ span.endAt ∧ segment file.content (span.endAt - 20) 20 = some held := by
    unfold readLocator
    split
    · rename_i room
      exact (bytes_sound file _ 20).mono fun held both _ => ⟨room, both.2 (by omega)⟩
    · exact nofun
  refine located.bind fun held there => ?_
  split
  · rename_i starts
    obtain ⟨room, whole⟩ := there starts
    exact (readEnd64_sound ends (Nat.sub_add_cancel room) whole starts).mono fun _ both => both.1
  · exact Checked.Sound.ensure.bind fun _ _ => ends

/-- The directory ends where the end record starts, or with the ZIP64 records before it. -/
theorem Ends.order {content : Bytes} {size : Nat} {span : Span} (ends : Ends content size span) :
    span.endAt + 22 ≤ size ∧ span.directoryEnd ≤ span.endAt ∧
      (span.directoryEnd ≠ span.endAt → 20 ≤ span.endAt) := by
  obtain ⟨comment, -, closes⟩ := ends.closes
  obtain ⟨same, -⟩ | ⟨locator, before, -, -, after, -⟩ := ends.located <;> omega

theorem unambiguous_sound {span : Span} {snapshot : Bytes} (short : span.start + snapshot.length < 2 ^ 64)
    (room : span.directoryEnd ≠ span.endAt → 20 ≤ span.endAt) :
    (unambiguous span snapshot).Sound fun _ => ∀ p ∈ List.range (snapshot.length - 3),
      (snapshot.drop p).take 4 = endSignature → span.start + p = span.endAt := by
  have stray (sig : Bytes) (p : Nat) : (strayLocator span sig p).Sound fun _ => True := by
    unfold strayLocator
    split
    · exact trivial
    · split
      · exact trivial
      · rename_i other
        exact (Checked.Sound.minus (room other)).bind fun _ _ => trivial
  have step : ∀ p ∈ List.range (snapshot.length - 3), (u64 (span.start + p)).Sound fun _ => True := by
    intro p member
    have inside := List.mem_range.mp member
    exact Checked.Sound.fits (by omega)
  refine Checked.Sound.each fun p member => ?_
  refine (step p member).bind fun _ _ => (stray _ _).bind fun _ _ => ?_
  exact Checked.Sound.ensure.mono fun _ allowed signed =>
    not_not.mp fun other => allowed (.inl ⟨signed, other⟩)

end span

section walk

variable {file : File} {span : Span} {snapshot : Bytes}

theorem metadata_sound {at' length : Nat} (after : span.start ≤ at') (near : at' + length < 2 ^ 64)
    {size : Nat} (cut : segment file.content span.start size = some snapshot) :
    (metadata span snapshot at' length).Sound fun part => segment file.content at' length = some part := by
  refine (Checked.Sound.minus after).bind fun offset same => ?_
  refine (Checked.Sound.fits (by omega)).bind fun _ _ => ?_
  refine Checked.Sound.ofOption.mono fun part held => ?_
  have reach := inside_of_segment held
  have long := length_segment cut
  rw [segment_segment cut (by omega), Nat.add_comm, same] at held
  exact held

/-- The member of a central record, by what lies beside its name. -/
def Header.member (header : Header) (fields : List (Nat × Bytes)) (extraLength commentLength localExtra : Nat) : Member where
  name := header.name
  fields := fields
  extraLength := extraLength
  commentLength := commentLength
  unpacked := header.unpacked
  packed := header.packed
  localAt := header.localAt
  localExtra := localExtra

structure HeaderRead (content : Bytes) (span : Span) (walk : Walk) (header : Header) : Prop where
  central : ∃ fields extraLength commentLength, ∀ localExtra,
    Central content walk.position (header.member fields extraLength commentLength localExtra) ∧
      header.next = walk.position + (header.member fields extraLength commentLength localExtra).size
  within : header.next ≤ span.directoryEnd
  fresh : header.name ∉ walk.names
  filled : header.name ≠ []
  short : header.name.length ≤ maxName
  bounded : walk.inflated + header.unpacked ≤ maxInflated

variable {walk : Walk} {size : Nat}

theorem readDisk_sound {h z : Bytes} {p : Nat} (long : 36 ≤ h.length) (near : p + 4 < 2 ^ 64) :
    (readDisk h z p).Sound fun _ => True := by
  refine (u16le_sound (by omega)).bind fun short _ => ?_
  split
  · refine (Checked.Sound.fits near).bind fun _ _ => ?_
    refine Checked.Sound.ofOption.bind fun value held => ?_
    have four := length_segment held
    exact (u32le_sound (by omega)).mono fun _ _ => trivial
  · exact trivial

theorem readHeader_sound (after : span.start ≤ walk.position) (low : span.directoryEnd < 2 ^ 63)
    (cut : segment file.content span.start size = some snapshot) :
    (readHeader span snapshot walk).Sound (HeaderRead file.content span walk) := by
  refine Checked.Sound.ensure.bind fun _ room => ?_
  refine (metadata_sound after (by omega) cut).bind fun h whole => ?_
  have long := length_segment whole
  refine Checked.Sound.ensure.bind fun _ signed => ?_
  refine (u16le_sound (by omega)).bind fun nameLen named => ?_
  refine (u16le_sound (by omega)).bind fun extraLen extended => ?_
  refine (u16le_sound (by omega)).bind fun commentLen commented => ?_
  have nameBound := u16_lt named
  have extraBound := u16_lt extended
  have commentBound := u16_lt commented
  refine (Checked.Sound.fits (by omega)).bind fun _ _ => ?_
  refine Checked.Sound.ensure.bind fun _ bounds => ?_
  refine (metadata_sound (by omega) (by omega) cut).bind fun name held => ?_
  obtain rfl := length_segment held
  refine Checked.Sound.ofOption.bind fun text _ => ?_
  refine (u16le_sound (by omega)).bind fun flags _ => ?_
  refine Checked.Sound.ensure.bind fun _ _ => ?_
  refine Checked.Sound.ensure.bind fun _ fresh => ?_
  refine (metadata_sound (by omega) (by omega) cut).bind fun extras beside => ?_
  obtain rfl := length_segment beside
  refine (extra_sound (by omega)).bind fun found ⟨fields, chain, collected⟩ => ?_
  have single : (zip64Values fields).length ≤ 1 := by
    rw [← collected]
    cases found with
    | none => exact Nat.zero_le 1
    | some value => exact Nat.le_refl 1
  have given : found.getD [] = (zip64Values fields).headD [] := by
    rw [← collected]
    cases found <;> rfl
  refine (u32le_sound (by omega)).bind fun unpacked unpackedRead => ?_
  refine (u32le_sound (by omega)).bind fun packed packedRead => ?_
  refine (u32le_sound (by omega)).bind fun localAt localRead => ?_
  rw [given]
  refine (widened_sound (by omega) unpacked).bind fun ⟨unpacked', used⟩ ⟨unpackedWide, first⟩ => ?_
  refine (widened_sound (by omega) packed).bind fun ⟨packed', used'⟩ ⟨packedWide, second⟩ => ?_
  refine (widened_sound (by omega) localAt).bind fun ⟨localAt', used''⟩ ⟨localWide, third⟩ => ?_
  dsimp only at first second third unpackedWide packedWide localWide
  refine (readDisk_sound (by omega) (by omega)).bind fun disk _ => ?_
  refine Checked.Sound.ensure.bind fun _ _ => ?_
  refine Checked.Sound.ensure.bind fun _ bounded => ?_
  refine (u16le_sound (by omega)).bind fun method _ => ?_
  refine Checked.Sound.ensure.bind fun _ _ => ?_
  refine ⟨⟨fields, extras.length, commentLen, fun localExtra => ⟨?_, Nat.add_assoc _ _ _⟩⟩, bounds.1, fresh,
    fun empty => bounds.2.1 (congrArg List.length empty), bounds.2.2, bounded.2⟩
  exact {
    signed := signed_read whole (by decide) signed
    nameLength := word_read whole (by omega) named
    extraLength := word_read whole (by omega) extended
    commentLength := word_read whole (by omega) commented
    named := held
    extended := ⟨extras, beside, chain⟩
    single := single
    sized := ⟨unpacked, packed, localAt, used, used', used'', word_read whole (by omega) unpackedRead,
      word_read whole (by omega) packedRead, word_read whole (by omega) localRead, unpackedWide, packedWide, localWide⟩ }

theorem readLocal_sound {header : Header} (low : span.start < 2 ^ 63) (filled : header.name ≠ [])
    (short : header.name.length ≤ maxName) :
    (readLocal file span header).Sound fun dataEnd => dataEnd ≤ span.start ∧
      ∃ localExtra, ∀ fields extraLength commentLength,
        Local file.content (header.member fields extraLength commentLength localExtra) ∧
          (header.member fields extraLength commentLength localExtra).range = (header.localAt, dataEnd) := by
  have named : header.name.length ≠ 0 := fun none => filled (List.length_eq_zero_iff.mp none)
  have shorter : header.name.length ≤ 1024 := short
  refine Checked.Sound.ensure.bind fun _ room => ?_
  refine (bytes_sound file header.localAt 30).bind fun lh both => ?_
  have whole := both.2 (by omega)
  refine (u16le_sound (by omega)).bind fun flags _ => ?_
  refine (u16le_sound (by omega)).bind fun method _ => ?_
  refine (u16le_sound (by omega)).bind fun nameLen nameRead => ?_
  refine Checked.Sound.ensure.bind fun _ ⟨signed, _, _, same⟩ => ?_
  rw [same] at nameRead
  refine (u16le_sound (by omega)).bind fun localExtra extended => ?_
  have extraBound := u16_lt extended
  refine (Checked.Sound.fits (by omega)).bind fun _ _ => ?_
  refine Checked.Sound.ensure.bind fun _ inside => ?_
  refine (bytes_sound file (header.localAt + 30) header.name.length).bind fun name found => ?_
  refine Checked.Sound.ensure.bind fun _ own => ?_
  rw [own] at found
  refine (bytes_sound file _ localExtra).bind fun extras measured => ?_
  refine (extra_sound (by omega)).bind fun _ _ => ?_
  refine ⟨inside.2, localExtra, fun fields extraLength commentLength => ⟨?_, rfl⟩⟩
  exact {
    signed := signed_read whole (by decide) signed
    nameLength := word_read whole (by omega) nameRead
    extraLength := word_read whole (by omega) extended
    named := found.2 named }

/-- What a run of the loop adds: the members it comes to. -/
structure Walked (content : Bytes) (span : Span) (walk walk' : Walk) (found : List Member) : Prop where
  chain : Chain content walk.position found walk'.position
  names : walk'.names = walk.names ++ found.map Member.name
  ranges : walk'.ranges = walk.ranges ++ found.map Member.range
  inflated : walk'.inflated = walk.inflated + (found.map Member.unpacked).sum
  fresh : walk.names.Nodup → walk'.names.Nodup
  before : ∀ m ∈ found, m.range.1 < m.range.2 ∧ m.range.2 ≤ span.start
  bounded : walk.inflated ≤ maxInflated → walk'.inflated ≤ maxInflated

theorem Chain.le {content : Bytes} {p stop : Nat} {found : List Member} (chain : Chain content p found stop) :
    p ≤ stop := by
  induction chain with
  | done p => exact Nat.le_refl p
  | record central header others ih => exact Nat.le_trans (Nat.le_add_right _ _) ih

theorem Chain.append {content : Bytes} {p middle stop : Nat} {found others : List Member}
    (first : Chain content p found middle) (rest : Chain content middle others stop) :
    Chain content p (found ++ others) stop := by
  induction first with
  | done p => exact rest
  | record central header _ ih => exact .record central header (ih rest)

theorem Walked.trans {content : Bytes} {walk walk' walk'' : Walk} {found others : List Member}
    (first : Walked content span walk walk' found) (rest : Walked content span walk' walk'' others) :
    Walked content span walk walk'' (found ++ others) where
  chain := first.chain.append rest.chain
  names := by rw [rest.names, first.names, List.map_append, List.append_assoc]
  ranges := by rw [rest.ranges, first.ranges, List.map_append, List.append_assoc]
  inflated := by rw [rest.inflated, first.inflated, List.map_append, List.sum_append, Nat.add_assoc]
  fresh := fun distinct => rest.fresh (first.fresh distinct)
  before := fun m member => (List.mem_append.mp member).elim (first.before m) (rest.before m)
  bounded := fun small => rest.bounded (first.bounded small)

theorem member_sound (after : span.start ≤ walk.position) (low : span.directoryEnd < 2 ^ 63)
    (ordered : span.start ≤ span.directoryEnd) (cut : segment file.content span.start size = some snapshot) :
    (member file span snapshot walk).Sound fun walk' => walk'.position ≤ span.directoryEnd ∧
      ∃ m, Walked file.content span walk walk' [m] := by
  refine (readHeader_sound after low cut).bind fun header read => ?_
  refine (readLocal_sound (by omega) read.filled read.short).bind fun dataEnd ⟨inside, localExtra, located⟩ => ?_
  obtain ⟨fields, extraLength, commentLength, central⟩ := read.central
  obtain ⟨record, next⟩ := central localExtra
  obtain ⟨headed, range⟩ := located fields extraLength commentLength
  have grown : header.localAt < dataEnd := by
    have ends := congrArg Prod.snd range
    simp only [Member.range, Header.member] at ends
    omega
  refine ⟨read.within, header.member fields extraLength commentLength localExtra, ?_⟩
  exact {
    chain := by
      refine .record record headed ?_
      rw [← next]
      exact .done _
    names := rfl
    ranges := by rw [List.map_singleton, range]
    inflated := rfl
    fresh := fun distinct => List.nodup_append.mpr ⟨distinct, List.pairwise_singleton _ _, fun other old name new same =>
      read.fresh (List.mem_singleton.mp new ▸ same ▸ old)⟩
    before := by
      intro m only
      obtain rfl := List.mem_singleton.mp only
      rw [range]
      exact ⟨grown, inside⟩
    bounded := fun _ => read.bounded }

theorem members_sound (low : span.directoryEnd < 2 ^ 63) (ordered : span.start ≤ span.directoryEnd)
    (cut : segment file.content span.start size = some snapshot) (left : Nat) (walk : Walk)
    (after : span.start ≤ walk.position) :
    (members file span snapshot left walk).Sound fun walk' =>
      ∃ found, found.length = left ∧ Walked file.content span walk walk' found := by
  induction left generalizing walk with
  | zero =>
    refine ⟨[], rfl, .done _, (List.append_nil _).symm, (List.append_nil _).symm, rfl, id, nofun, id⟩
  | succ left ih =>
    refine (member_sound after low ordered cut).bind fun walk' ⟨_, m, first⟩ => ?_
    refine (ih walk' (Nat.le_trans after first.chain.le)).mono fun walk'' ⟨found, counted, rest⟩ => ?_
    exact ⟨m :: found, congrArg (· + 1) counted, first.trans rest⟩

theorem apart_of_not_overlapping {ranges : List (Nat × Nat)} (filled : ∀ r ∈ ranges, r.1 < r.2)
    (none : overlapping ranges = false) : ranges.Pairwise Library.Apart := by
  refine pairwise_apart (List.mergeSort_perm ranges rangeLe) filled (isChain_of_zip_tail fun w member => ?_)
  have free := List.any_eq_false.mp none w member
  simpa using free

end walk

theorem validate_sound (file : File) (size : Nat) :
    (validate file size).Sound fun directory => ∃ span found, Preflighted file.content size directory span found := by
  refine (bytes_sound file _ _).bind fun tail ⟨long, cut⟩ => ?_
  have short : tail.length < 2 ^ 17 := by
    have most : u16Max = 65535 := rfl
    omega
  have whole : size - min size (22 + u16Max) + tail.length = size := by omega
  have tailCut (some : tail.length ≠ 0) : segment file.content (size - min size (22 + u16Max)) tail.length = .some tail := by
    rw [long] at some ⊢
    exact cut some
  refine (readSpan_sound short tailCut).bind fun span ends => ?_
  rw [whole] at ends
  obtain ⟨endBelow, order, room⟩ := ends.order
  have reach := inside_of_segment ends.signed
  have low := file.addressable
  refine Checked.Sound.ensure.bind fun _ _ => ?_
  refine Checked.Sound.ensure.bind fun _ _ => ?_
  refine Checked.Sound.ensure.bind fun _ spans => ?_
  refine (Checked.Sound.minus (by omega)).bind fun length same => ?_
  refine (bytes_sound file span.start length).bind fun snapshot both => ?_
  have held := both.2 (by omega)
  have inside := inside_of_segment held
  refine (suffix_sound (by omega)).bind fun left _ => ?_
  refine (suffix_sound (by omega)).bind fun right _ => ?_
  refine Checked.Sound.ensure.bind fun _ _ => ?_
  refine (unambiguous_sound (by omega) room).bind fun _ only => ?_
  refine (members_sound (by omega) (by omega) held span.count _ (Nat.le_refl _)).bind fun walk ⟨found, counted, walked⟩ => ?_
  refine Checked.Sound.ensure.bind fun _ ended => ?_
  refine Checked.Sound.ensure.bind fun _ disjoint => ?_
  have ranges : walk.ranges = found.map Member.range := walked.ranges
  have names : walk.names = found.map Member.name := walked.names
  have inflated : walk.inflated = (found.map Member.unpacked).sum := by
    rw [walked.inflated]
    exact Nat.zero_add _
  refine ⟨span, found, ?_⟩
  exact {
    ends := ends
    given := ⟨rfl, rfl⟩
    held := by
      show segment file.content span.start (size - span.start) = some snapshot
      rw [← same, Nat.add_sub_cancel]
      exact held
    only := only
    spans := spans.2
    counted := counted
    chain := ended ▸ walked.chain
    named := names ▸ walked.fresh List.nodup_nil
    before := walked.before
    apart := by
      rw [ranges] at disjoint
      refine apart_of_not_overlapping (fun r member => ?_) disjoint
      obtain ⟨m, own, rfl⟩ := List.mem_map.mp member
      exact (walked.before m own).1
    bounded := inflated ▸ walked.bounded (Nat.zero_le _) }

/-- The check of an archive's directory reads nothing out of bounds and overflows
nowhere, whatever the file holds, and accepts no directory but one whose records
form a chain from its start to the end record, under different names, with data
that is disjoint and lies before the directory. -/
theorem preflight_sound (file : File) (size : Nat) :
    validate file size ≠ .panics ∧ ∀ directory, validate file size = .returns directory →
      ∃ span found, Preflighted file.content size directory span found :=
  Checked.Sound.iff.mp (validate_sound file size)

end NixHomeServer.Browsertrix.ZipDirectory
