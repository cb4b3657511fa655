import NixHomeServer.Library.Bytes
import NixHomeServer.Library.Checked
import NixHomeServer.Library.Text

/-! The check of an archive's central directory before it is read as a ZIP file. -/
namespace NixHomeServer.Browsertrix.ZipDirectory

open NixHomeServer.Library

abbrev Bytes := List UInt8

/-- Offsets into a file are signed 64-bit numbers. -/
structure File where
  content : Bytes
  addressable : content.length < 2 ^ 63

structure Directory where
  count : Nat
  start : Nat
  data : Bytes

def maxInflated : Nat := 64 * 1024 * 1024 * 1024
def maxMetadata : Nat := 32 * 1024 * 1024
def maxMembers : Nat := 10000
def maxName : Nat := 1024

def u16Max : Nat := 2 ^ 16 - 1
def u32Max : Nat := 2 ^ 32 - 1

def endSignature : Bytes := [0x50, 0x4B, 0x05, 0x06]
def endSignature64 : Bytes := [0x50, 0x4B, 0x06, 0x06]
def locatorSignature : Bytes := [0x50, 0x4B, 0x06, 0x07]
def recordSignature : Bytes := [0x50, 0x4B, 0x01, 0x02]
def localSignature : Bytes := [0x50, 0x4B, 0x03, 0x04]

abbrev Result := Checked String

def u16le (b : Bytes) (p : Nat) : Result Nat := .unwrap (word 2 b p)
def u32le (b : Bytes) (p : Nat) : Result Nat := .unwrap (word 4 b p)
def u64le (b : Bytes) (p : Nat) : Result Nat := .unwrap (word 8 b p)

/-- Unsigned 64-bit arithmetic, for sizes in memory as well. -/
def u64 (n : Nat) : Result Unit := .fits (2 ^ 64) n

/-- The slice from an index to the end. -/
def suffix (b : Bytes) (p : Nat) : Result Bytes := if p ≤ b.length then .returns (b.drop p) else .panics

def bytes (file : File) (start length : Nat) : Result Bytes :=
  if length = 0 then .returns []
  else .ofOption "failed to fill whole buffer" (segment file.content start length)

def extraFrom (data name : Bytes) (p : Nat) (zip64 : Option Bytes) : Result (Option Bytes) :=
  if data.length ≤ p then .returns zip64
  else if data.length - p < 4 then .fails "Truncated ZIP extra field"
  else do
    let tag ← u16le data p
    let length ← u16le data (p + 2)
    u64 (p + 4 + length)
    let value ← .ofOption "Truncated ZIP extra field" (segment data (p + 4) length)
    .ensure (¬ (tag = 1 ∧ zip64.isSome)) "Duplicate ZIP64 extra field"
    .ensure (¬ (tag = 0x7075 ∧ (value.length < 5 ∨ value.drop 5 ≠ name))) "ZIP Unicode path override unsupported"
    extraFrom data name (p + 4 + length) (if tag = 1 then some value else zip64)
termination_by data.length - p

def extra (data name : Bytes) : Result (Option Bytes) := extraFrom data name 0 none

def take64 (data : Bytes) (p : Nat) : Result (Nat × Nat) := do
  u64 (p + 8)
  let value ← .ofOption "Missing ZIP64 size/offset" (segment data p 8)
  return (← u64le value 0, p + 8)

/-- A 32-bit field, taken from the ZIP64 extra field where it is all ones. -/
def widened (z : Bytes) (p field : Nat) : Result (Nat × Nat) :=
  if field = u32Max then take64 z p else .returns (field, p)

/-- The last end record of the first `p` positions of the tail. -/
def findEnd (tail : Bytes) : Nat → Result (Option Nat)
  | 0 => .returns none
  | p + 1 => do
    let rest ← suffix tail p
    if endSignature.isPrefixOf rest then do
      let comment ← u16le tail (p + 20)
      u64 (p + 22 + comment)
      if p + 22 + comment = tail.length then .returns (some p) else findEnd tail p
    else findEnd tail p

/-- Where the directory lies, by the end record and what it refers to. -/
structure Span where
  endAt : Nat
  count : Nat
  length : Nat
  start : Nat
  directoryEnd : Nat

def readEnd (tail : Bytes) (tailStart : Nat) : Result Span := do
  let eocd ← .bind (findEnd tail (tail.length - 21))
    (.ofOption "ZIP end directory missing or trailing bytes unsupported")
  let last ← suffix tail eocd
  let disk ← u16le last 4
  let directoryDisk ← u16le last 6
  let here ← u16le last 8
  let count ← u16le last 10
  .ensure (disk = 0 ∧ directoryDisk = 0 ∧ here = count) "Multi-disk ZIP unsupported"
  u64 (tailStart + eocd)
  let length ← u32le last 12
  let start ← u32le last 16
  return { endAt := tailStart + eocd, count, length, start, directoryEnd := tailStart + eocd }

def readEnd64 (file : File) (locator : Bytes) (span : Span) : Result Span := do
  let disk ← u32le locator 4
  let disks ← u32le locator 16
  .ensure (disk = 0 ∧ disks = 1) "Multi-disk ZIP64 unsupported"
  let «at» ← u64le locator 8
  let limit ← .minus span.endAt 20
  .ensure («at» + 56 < 2 ^ 64 ∧ «at» + 56 ≤ limit) "Invalid ZIP64 directory offset"
  let z ← bytes file «at» 56
  let size ← u64le z 4
  .ensure (endSignature64.isPrefixOf z ∧ size = 44 ∧ «at» + 56 = limit) "Unsupported ZIP64 end directory layout"
  let disk ← u32le z 16
  let directoryDisk ← u32le z 20
  let here ← u64le z 24
  let count ← u64le z 32
  .ensure (disk = 0 ∧ directoryDisk = 0 ∧ here = count) "Multi-disk ZIP64 unsupported"
  let length ← u64le z 40
  let start ← u64le z 48
  .ensure ((span.count = u16Max ∨ span.count = count) ∧ (span.length = u32Max ∨ span.length = length) ∧
    (span.start = u32Max ∨ span.start = start)) "ZIP and ZIP64 directory disagreement"
  return { span with count, length, start, directoryEnd := «at» }

def readLocator (file : File) (endAt : Nat) : Result Bytes :=
  if 20 ≤ endAt then bytes file (endAt - 20) 20 else .returns []

def readSpan (file : File) (tail : Bytes) (tailStart : Nat) : Result Span := do
  let span ← readEnd tail tailStart
  let locator ← readLocator file span.endAt
  if locatorSignature.isPrefixOf locator then readEnd64 file locator span
  else do
    .ensure (¬ (span.count = u16Max ∨ span.length = u32Max ∨ span.start = u32Max)) "ZIP64 end directory missing"
    return span

/-- A locator signature where no locator belongs. -/
def strayLocator (span : Span) (sig : Bytes) («at» : Nat) : Result Bool :=
  if sig ≠ locatorSignature then .returns false
  else if span.directoryEnd = span.endAt then .returns true
  else do
    let there ← .minus span.endAt 20
    return decide («at» ≠ there)

/-- No end record lies in the snapshot but those the span was read from. -/
def unambiguous (span : Span) (snapshot : Bytes) : Result Unit :=
  .each (fun p => do
    let sig := (snapshot.drop p).take 4
    u64 (span.start + p)
    let stray ← strayLocator span sig (span.start + p)
    .ensure (¬ (sig = endSignature ∧ span.start + p ≠ span.endAt ∨
      sig = endSignature64 ∧ span.start + p ≠ span.directoryEnd ∨ stray = true))
      "Ambiguous nested ZIP end directory signature unsupported")
    (List.range (snapshot.length - 3))

def metadata (span : Span) (snapshot : Bytes) («at» length : Nat) : Result Bytes := do
  let offset ← .minus «at» span.start
  u64 (offset + length)
  .ofOption "Truncated ZIP directory metadata" (segment snapshot offset length)

def isControl (c : Char) : Bool := c.toNat < 0x20 || 0x7F ≤ c.toNat && c.toNat < 0xA0

def unsafeName (flags : Nat) (text : List Char) : Bool :=
  flags &&& 0x800 = 0 && text.any (128 ≤ ·.toNat) ||
    text.any (fun c => c = '\\' || c = ':') ||
    text.any isControl ||
    ['/'].isPrefixOf text ||
    (splitAll '/' text).any (fun s => s = ['.'] || s = ['.', '.']) ||
    flags &&& 0x2041 ≠ 0

/-- The disk a member starts on. -/
def readDisk (h z : Bytes) (p : Nat) : Result Nat := do
  let short ← u16le h 34
  if short = u16Max then do
    u64 (p + 4)
    let value ← .ofOption "Missing ZIP64 disk" (segment z p 4)
    u32le value 0
  else return short

/-- The loop over the central records. -/
structure Walk where
  position : Nat
  names : List Bytes := []
  ranges : List (Nat × Nat) := []
  inflated : Nat := 0

/-- What a central record says of its member. -/
structure Header where
  name : Bytes
  flags : Nat
  method : Nat
  unpacked : Nat
  packed : Nat
  localAt : Nat
  next : Nat

def readHeader (span : Span) (snapshot : Bytes) (walk : Walk) : Result Header := do
  .ensure (walk.position + 46 < 2 ^ 64 ∧ walk.position + 46 ≤ span.directoryEnd) "Truncated ZIP central directory"
  let h ← metadata span snapshot walk.position 46
  .ensure (recordSignature.isPrefixOf h) "Invalid ZIP central directory record"
  let nameLen ← u16le h 28
  let extraLen ← u16le h 30
  let commentLen ← u16le h 32
  u64 (walk.position + 46 + (nameLen + extraLen + commentLen))
  let next := walk.position + 46 + (nameLen + extraLen + commentLen)
  .ensure (next ≤ span.directoryEnd ∧ nameLen ≠ 0 ∧ nameLen ≤ maxName) "ZIP member name/metadata bound exceeded"
  let name ← metadata span snapshot (walk.position + 46) nameLen
  let text ← .ofOption "Non-UTF8 ZIP names unsupported" (fromUtf8 name)
  let flags ← u16le h 8
  .ensure (unsafeName flags text = false) "Unsafe ZIP member name or encryption"
  .ensure (name ∉ walk.names) "Duplicate ZIP member"
  let extras ← metadata span snapshot (walk.position + 46 + nameLen) extraLen
  let z ← extra extras name
  let z := z.getD []
  let unpacked ← u32le h 24
  let packed ← u32le h 20
  let localAt ← u32le h 42
  let (unpacked, p) ← widened z 0 unpacked
  let (packed, p) ← widened z p packed
  let (localAt, p) ← widened z p localAt
  let disk ← readDisk h z p
  .ensure (disk = 0) "Multi-disk ZIP member unsupported"
  .ensure (walk.inflated + unpacked < 2 ^ 64 ∧ walk.inflated + unpacked ≤ maxInflated) "ZIP inflated byte limit exceeded"
  let method ← u16le h 10
  .ensure ((method = 0 ∨ method = 8) ∧ ¬ (method = 0 ∧ packed ≠ unpacked))
    "Unsupported ZIP compression or STORE size mismatch"
  return { name, flags, method, unpacked, packed, localAt, next }

/-- The end of the member's data, by its local header. -/
def readLocal (file : File) (span : Span) (header : Header) : Result Nat := do
  .ensure (header.localAt + 30 < 2 ^ 64 ∧ header.localAt + 30 ≤ span.start) "ZIP local header outside member area"
  let lh ← bytes file header.localAt 30
  let flags ← u16le lh 6
  let method ← u16le lh 8
  let nameLen ← u16le lh 26
  .ensure (localSignature.isPrefixOf lh ∧ flags = header.flags ∧ method = header.method ∧ nameLen = header.name.length)
    "ZIP local/central header mismatch"
  let localExtra ← u16le lh 28
  u64 (header.localAt + 30 + (header.name.length + localExtra))
  let data := header.localAt + 30 + (header.name.length + localExtra)
  .ensure (data + header.packed < 2 ^ 64 ∧ data + header.packed ≤ span.start) "ZIP member outside member area"
  let name ← bytes file (header.localAt + 30) header.name.length
  .ensure (name = header.name) "ZIP local/central name mismatch"
  let extras ← bytes file (header.localAt + 30 + header.name.length) localExtra
  let _ ← extra extras header.name
  return data + header.packed

def member (file : File) (span : Span) (snapshot : Bytes) (walk : Walk) : Result Walk := do
  let header ← readHeader span snapshot walk
  let dataEnd ← readLocal file span header
  return {
    position := header.next
    names := walk.names ++ [header.name]
    ranges := walk.ranges ++ [(header.localAt, dataEnd)]
    inflated := walk.inflated + header.unpacked }

def members (file : File) (span : Span) (snapshot : Bytes) : Nat → Walk → Result Walk
  | 0, walk => .returns walk
  | left + 1, walk => do
    let walk ← member file span snapshot walk
    members file span snapshot left walk

def rangeLe (a b : Nat × Nat) : Bool := a.1 < b.1 || a.1 = b.1 && a.2 ≤ b.2

def overlapping (ranges : List (Nat × Nat)) : Bool :=
  let sorted := ranges.mergeSort rangeLe
  (sorted.zip sorted.tail).any fun w => w.2.1 < w.1.2

def validate (file : File) (size : Nat) : Result Directory := do
  let tailLen := min size (22 + u16Max)
  let tailStart := size - tailLen
  let tail ← bytes file tailStart tailLen
  let span ← readSpan file tail tailStart
  .ensure (span.count ≤ maxMembers) "ZIP member count exceeds 10000"
  .ensure (span.length ≤ maxMetadata) "ZIP central directory exceeds 32 MiB"
  .ensure (span.start + span.length < 2 ^ 64 ∧ span.start + span.length = span.directoryEnd)
    "Invalid ZIP central directory span; prefixed ZIP unsupported"
  let length ← .minus size span.start
  let snapshot ← bytes file span.start length
  let overlap := max span.start tailStart
  let left ← suffix snapshot (overlap - span.start)
  let right ← suffix tail (overlap - tailStart)
  .ensure (left = right) "ZIP directory changed during preflight"
  unambiguous span snapshot
  let walk ← members file span snapshot span.count { position := span.start }
  .ensure (walk.position = span.directoryEnd) "ZIP raw member count differs from end directory"
  .ensure (overlapping walk.ranges = false) "Overlapping ZIP members"
  return { count := span.count, start := span.start, data := snapshot }

end NixHomeServer.Browsertrix.ZipDirectory
