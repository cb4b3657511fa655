import NixHomeServer.Browsertrix.Entity

/-! The scan of an archive's WARC files: gzip members of records, each a header, a
block and, for HTTP records, a header in the block. The decoder of gzip and SHA-256
are parameters. -/
namespace NixHomeServer.Browsertrix.Engine

open NixHomeServer.Library

def maxInflated : Nat := 64 * 1024 * 1024 * 1024
def maxMetadata : Nat := 32 * 1024 * 1024
def maxItems : Nat := 50000
def maxPerMember : Nat := 128

/-- Where a body lies in its file. -/
structure BodySource where
  file : Nat
  start : Nat
  compressedLength : Nat
  bodyOffset : Nat
  bodyLength : Nat
  httpLength : Nat
  blockDigest : Text

structure Record where
  headers : Headers
  block : Bytes := []
  payload : Bytes := []
  payloadDigest : Text
  status : Nat
  mime : Text
  member : Text
  offset : Nat
  length : Nat := 0
  stored : Nat := 0
  resolved : Bool
  httpHeaders : Bytes
  payloadLength : Nat
  bodyLength : Nat
  source : Option BodySource
  payloadSource : Option BodySource := none

def Headers.fieldOr (h : Headers) (key : String) : Text := (h.field key.toList).getD []

def Record.kind (record : Record) : Text := record.headers.fieldOr "warc-type"

section digests

def isHex (c : Char) : Bool := (digitOf 16 c).isSome

def base32Value (ch : UInt8) : Option Nat :=
  let n := ch.toNat
  if 65 ≤ n ∧ n ≤ 90 then some (n - 65)
  else if 97 ≤ n ∧ n ≤ 122 then some (n - 97)
  else if 50 ≤ n ∧ n ≤ 55 then some (n - 50 + 26)
  else none

/-- The bytes of a Base32 text, and the bits left over. -/
def base32From (acc bits : Nat) (bytes : List Nat) : Bytes → Option (List Nat × Nat)
  | [] => some (bytes, acc)
  | ch :: rest => do
    let value ← base32Value ch
    if bits + 5 ≥ 8 then
      base32From ((acc * 32 + value) % 2 ^ (bits - 3)) (bits - 3) (bytes ++ [(acc * 32 + value) / 2 ^ (bits - 3) % 256]) rest
    else base32From (acc * 32 + value) (bits + 5) bytes rest

def hexByte (b : Nat) : Text := [Nat.digitChar (b / 16), Nat.digitChar (b % 16)]

def sha256Prefix : Text := "sha256:".toList

def normalizeSha256 (value : Text) : Result Text := do
  let (algorithm, encoded) ← .ofOption "Unsupported digest algorithm" (cutAt ':' value)
  .ensure (toAsciiLowercase algorithm = "sha256".toList) "Unsupported digest algorithm"
  if (utf8 encoded).length = 64 ∧ encoded.all isHex then .returns (sha256Prefix ++ toAsciiLowercase encoded)
  else do
    let encoded := encoded.rdropWhile (· = '=')
    .ensure ((utf8 encoded).length = 52) "Invalid SHA-256 digest encoding"
    let (bytes, acc) ← .ofOption "Invalid SHA-256 Base32 digest" (base32From 0 0 [] (utf8 encoded))
    .ensure (bytes.length = 32 ∧ acc = 0) "Invalid SHA-256 Base32 padding"
    return sha256Prefix ++ bytes.flatMap hexByte

/-- A digest that a header gives, where it is a SHA-256, must be the one computed. -/
def checkDigest (expected : Option Text) (actual : Text) (error : String) : Result Unit :=
  match expected.filter fun digest => sha256Prefix.isPrefixOf digest with
  | none => .returns ()
  | some digest => do
    let normal ← normalizeSha256 digest
    .ensure (normal = actual) error

end digests

section records

/-- The parts of a text between white space. -/
def splitWhitespace : Text → List Text
  | [] => []
  | c :: rest =>
    if isWhitespace c then splitWhitespace rest
    else match rest with
      | [] => [[c]]
      | d :: _ => if isWhitespace d then [c] :: splitWhitespace rest else extendFirst c (splitWhitespace rest)

def contentLength (h : Headers) : Result Nat := do
  let text ← .ofOption "WARC Content-Length missing" (h.field "content-length".toList)
  let size ← .ofOption "Invalid WARC length" (parseUnsigned 10 (2 ^ 64) text)
  .ensure (size ≤ maxBody) "WARC record body exceeds 2 GiB + header allowance"
  return size

def mimeOf (h : Headers) : Text :=
  ((h.field "content-type".toList).map fun s => toAsciiLowercase (trim (firstPart ';' s))).getD []

/-- Where the scan stands in a gzip member. -/
structure Scan where
  raw : Stream
  records : List Record
  metadata : Nat

/-- The gzip member that is scanned. -/
structure Place where
  sha256 : Bytes → Text
  file : Nat
  member : Text
  start : Nat
  offset : Nat
  first : Nat
  total : Nat

/-- A record whose header is read. -/
structure Opened where
  headers : Headers
  size : Nat
  raw : Stream
  metadata : Nat

def Opened.kind (o : Opened) : Text := o.headers.fieldOr "warc-type"

def Opened.block (o : Opened) : Stream where
  bytes := o.raw.bytes.take o.size
  failure := if o.raw.bytes.length < o.size then o.raw.failure else none

def Opened.readsHttp (o : Opened) : Bool :=
  (o.kind = "response".toList || o.kind = "revisit".toList) && 0 < o.size

def openRecord (place : Place) (scan : Scan) : Result (Option Opened) := do
  let read ← readHeader true scan.raw
  match read with
  | none => return none
  | some (header, raw) => do
    .ensure (scan.records.length - place.first < maxPerMember) "More than128 records in one gzip WARC member"
    .ensure (scan.records.length < maxItems) "WARC record count limit exceeded"
    let text ← beforeEnd header
    let (version, h) ← headers text
    .ensure (version = "WARC/1.0".toList ∨ version = "WARC/1.1".toList) "Unsupported WARC version"
    .ensure (scan.metadata + header.length ≤ maxMetadata) "WARC header inventory exceeds 32 MiB"
    let size ← contentLength h
    return some { headers := h, size, raw, metadata := scan.metadata + header.length }

structure Body where
  httpHeaders : Bytes
  status : Nat
  mime : Text
  payloadDigest : Text
  payloadLength : Nat

def payloadHash (sha256 : Bytes → Text) (o : Opened) (s : Stream) (h : Headers) : Result Text :=
  if o.kind = "revisit".toList then
    match s.failure with
    | some e => .fails e
    | none => .returns []
  else entityHash sha256 s h

def readHttp (sha256 : Bytes → Text) (o : Opened) : Result Body := do
  let read ← readHeader false o.block
  let (http, rest) ← .ofOption "HTTP response header missing" read
  let text ← beforeEnd http
  let (line, h) ← headers text
  .ensure ("HTTP/".toList.isPrefixOf line) "Invalid HTTP response"
  let word ← .ofOption "Missing HTTP status" (splitWhitespace line)[1]?
  let status ← .ofOption "Invalid HTTP status" (parseUnsigned 10 (2 ^ 16) word)
  let payloadLength ← .minus o.size http.length
  let digest ← payloadHash sha256 o rest h
  return { httpHeaders := http, status, mime := mimeOf h, payloadDigest := digest, payloadLength }

def readBody (sha256 : Bytes → Text) (o : Opened) : Result Body :=
  if o.readsHttp then readHttp sha256 o
  else do
    let digest ← streamHash sha256 o.block o.size
    return {
      httpHeaders := []
      status := if o.kind = "resource".toList then 200 else 0
      mime := o.headers.fieldOr "content-type"
      payloadDigest := digest
      payloadLength := if o.kind = "resource".toList then o.size else 0 }

def closeRecord (place : Place) (scan : Scan) (o : Opened) (body : Body) : Result Scan := do
  .ensure (o.metadata + body.httpHeaders.length ≤ maxMetadata) "HTTP header inventory exceeds 32 MiB"
  .ensure (o.block.bytes.length = o.size) "Truncated WARC record body"
  let digest := place.sha256 o.block.bytes
  checkDigest (o.headers.field "warc-block-digest".toList) digest "WARC block SHA-256 mismatch"
  checkDigest (if o.kind = "response".toList ∨ o.kind = "resource".toList then
    o.headers.field "warc-payload-digest".toList else none) body.payloadDigest "WARC payload SHA-256 mismatch"
  let source : BodySource := {
    file := place.file
    start := place.start + place.offset
    compressedLength := 0
    bodyOffset := place.total - o.raw.bytes.length
    bodyLength := o.size
    httpLength := body.httpHeaders.length
    blockDigest := digest }
  let record : Record := {
    headers := o.headers
    payloadDigest := body.payloadDigest
    status := body.status
    mime := body.mime
    member := place.member
    offset := place.offset
    resolved := decide (o.kind ≠ "revisit".toList)
    httpHeaders := body.httpHeaders
    payloadLength := body.payloadLength
    bodyLength := o.size
    source := some source }
  return {
    raw := o.raw.skip o.size
    records := scan.records ++ [record]
    metadata := o.metadata + body.httpHeaders.length }

def scanRecord (place : Place) (scan : Scan) : Result (Option Scan) := do
  let opened ← openRecord place scan
  match opened with
  | none => return none
  | some o => do
    let body ← readBody place.sha256 o
    let next ← closeRecord place scan o body
    return some next

/-- The loop over the records of a member; the limit on their number bounds it. -/
def scanRecords (place : Place) : Nat → Scan → Result Scan
  | 0, _ => .fails "More than128 records in one gzip WARC member"
  | left + 1, scan => do
    let next ← scanRecord place scan
    match next with
    | none => return scan
    | some scan => scanRecords place left scan

end records

section members

/-- A gzip member as the decoder delivers it, read by read, and the length it takes up. -/
structure GzipMember where
  chunks : List Bytes
  failure : Option String := none
  span : Nat

/-- The reader that counts what is inflated. -/
def counted (limit count : Nat) (failure : Option String) : List Bytes → Stream
  | [] => { bytes := [], failure }
  | chunk :: rest =>
    if limit < count + chunk.length then { bytes := [], failure := some "Aggregate inflated byte limit exceeded" }
    else
      let later := counted limit (count + chunk.length) failure rest
      { later with bytes := chunk ++ later.bytes }

structure Progress where
  offset : Nat := 0
  inflated : Nat := 0
  metadata : Nat := 0
  records : List Record := []

/-- A WARC file of the archive. -/
structure Warc where
  name : Text
  start : Nat
  length : Nat
  members : List GzipMember
  failure : Option String := none

variable (sha256 : Bytes → Text) (file : Nat)

def memberStream (g : GzipMember) (left : Nat) : Stream :=
  counted (min left (maxBody + 2 * maxHeader)) 0 g.failure g.chunks

def placeOf (warc : Warc) (progress : Progress) (s : Stream) : Place where
  sha256 := sha256
  file := file
  member := warc.name
  start := warc.start
  offset := progress.offset
  first := progress.records.length
  total := s.bytes.length

def finishRecord (span count i : Nat) (record : Record) : Record :=
  { record with
    length := span
    stored := span / count + if i < span % count then 1 else 0
    source := record.source.map fun source => { source with compressedLength := span } }

def scanMember (warc : Warc) (g : GzipMember) (progress : Progress) : Result Progress := do
  let left ← .minus maxInflated progress.inflated
  let s := memberStream g left
  let scan ← scanRecords (placeOf sha256 file warc progress s) (maxPerMember + 1)
    { raw := s, records := progress.records, metadata := progress.metadata }
  .fits (2 ^ 64) (progress.inflated + s.bytes.length)
  .ensure (0 < g.span) "Invalid gzip span"
  let added := scan.records.drop progress.records.length
  .ensure (added.length ≠ 0) "Empty gzip WARC member"
  return {
    offset := progress.offset + g.span
    inflated := progress.inflated + s.bytes.length
    metadata := scan.metadata
    records := progress.records ++ added.mapIdx (finishRecord g.span added.length) }

def scanMembers (warc : Warc) : List GzipMember → Progress → Result Progress
  | [], progress =>
    match warc.failure with
    | some e => .fails e
    | none => .returns progress
  | g :: rest, progress => do
    let progress ← scanMember sha256 file warc g progress
    scanMembers warc rest progress

def scanWarc (warc : Warc) (progress : Progress) : Result Progress := do
  .ensure (warc.start + warc.length < 2 ^ 64) "Invalid WARC ZIP span"
  scanMembers sha256 file warc warc.members { progress with offset := 0 }

/-- All WARC files of the archive, one after the other. -/
def scanWarcs : List Warc → Progress → Result Progress
  | [], progress => .returns progress
  | warc :: rest, progress => do
    let progress ← scanWarc sha256 file warc progress
    scanWarcs rest progress

end members

end NixHomeServer.Browsertrix.Engine
