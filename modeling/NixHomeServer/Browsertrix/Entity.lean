import NixHomeServer.Browsertrix.Headers

/-! The body of an HTTP response as it is hashed while an archive is scanned, and
as it is decoded when its content is read. -/
namespace NixHomeServer.Browsertrix.Engine

open NixHomeServer.Library

def maxBody : Nat := 2 * 1024 * 1024 * 1024 + 64 * 1024
def maxRecord : Nat := 32 * 1024 * 1024
def maxChunks : Nat := 1000000

def transferEncoding : Text := "transfer-encoding".toList
def chunked : Text := "chunked".toList

/-- The end of the stream, unless it fails there. -/
def Stream.ended (s : Stream) : Result Bool :=
  if s.bytes ≠ [] then .returns false
  else match s.failure with
    | some e => .fails e
    | none => .returns true

/-- So many bytes, all of them or the error. -/
def Stream.exactly (s : Stream) (n : Nat) (error : String) : Result (Bytes × Stream) :=
  if n ≤ s.bytes.length then .returns (s.bytes.take n, s.skip n) else .fails (s.failure.getD error)

def streamHash (sha256 : Bytes → Text) (s : Stream) (limit : Nat) : Result Text :=
  if limit < s.bytes.length then .fails "Stream byte budget exceeded"
  else match s.failure with
    | some e => .fails e
    | none => .returns (sha256 s.bytes)

def chunkSize (line : Bytes) : Result Nat := do
  .ensure (line.length ≤ maxHeader ∧ crlf.isSuffixOf line) "Invalid HTTP chunk size line"
  let text ← .ofOption "Invalid chunk size" (fromUtf8 line)
  .ofOption "Invalid chunk size" (parseUnsigned 16 (2 ^ 64) (firstPart ';' (trim text)))

theorem ne_nil_of_chunkSize {line : Bytes} {size : Nat} (read : chunkSize line = .returns size) : line ≠ [] := by
  rintro rfl
  cases read

def trailersFrom (trailer : Nat) (s : Stream) : Result Stream :=
  match _read : readUntil (maxHeader + 1) s with
  | .fails e => .fails e
  | .panics => .panics
  | .returns (line, rest) =>
    if trailer + line.length > maxHeader ∨ ¬ crlf.isSuffixOf line then .fails "Invalid chunk trailer"
    else if line = crlf then .returns rest
    else trailersFrom (trailer + line.length) rest
termination_by s.bytes.length
decreasing_by
  refine readUntil_shrinks ‹_› ?_
  rintro rfl
  exact ‹¬(_ ∨ _)› (.inr (by decide))

def chunksFrom (chunks total : Nat) (hashed : Bytes) (s : Stream) : Result Bytes :=
  if chunks + 1 > maxChunks then .fails "HTTP chunk count limit exceeded"
  else match _read : readUntil (maxHeader + 1) s with
    | .fails e => .fails e
    | .panics => .panics
    | .returns (line, rest) =>
      match _sized : chunkSize line with
      | .fails e => .fails e
      | .panics => .panics
      | .returns size =>
        if size = 0 then do
          let rest ← trailersFrom 0 rest
          let ended ← rest.ended
          .ensure (ended = true) "Trailing bytes after chunked entity"
          return hashed
        else do
          .ensure (total + size < 2 ^ 64 ∧ total + size ≤ maxBody) "Chunked entity size limit exceeded"
          let (data, rest') ← rest.exactly size "Truncated HTTP chunk"
          let (delimiter, _) ← rest'.exactly 2 "failed to fill whole buffer"
          .ensure (delimiter = crlf) "Invalid HTTP chunk delimiter"
          chunksFrom (chunks + 1) (total + size) (hashed ++ data) (rest.skip (size + 2))
termination_by s.bytes.length
decreasing_by
  refine Nat.lt_of_le_of_lt ?_ (readUntil_shrinks ‹_› (ne_nil_of_chunkSize ‹_›))
  exact List.length_drop ▸ Nat.sub_le _ _

def entityHash (sha256 : Bytes → Text) (s : Stream) (h : Headers) : Result Text :=
  match h.field transferEncoding with
  | some encoding =>
    if toAsciiLowercase encoding ≠ chunked then .fails "Unsupported HTTP transfer encoding"
    else do
      let hashed ← chunksFrom 0 0 [] s
      return sha256 hashed
  | none => streamHash sha256 s maxBody

/-- The first position at which the pattern starts. -/
def positionOf (pattern : Bytes) : Bytes → Option Nat
  | [] => none
  | b :: rest => if pattern.isPrefixOf (b :: rest) then some 0 else (positionOf pattern rest).map (· + 1)

theorem positionOf_lt {pattern bytes : Bytes} {p : Nat} (found : positionOf pattern bytes = some p) : p < bytes.length := by
  induction bytes generalizing p with
  | nil => cases found
  | cons b rest ih =>
    rw [positionOf] at found
    split at found
    · cases found
      exact Nat.succ_pos _
    · obtain ⟨q, there, rfl⟩ := Option.map_eq_some_iff.mp found
      exact Nat.succ_lt_succ (ih there)

/-- The chunks from a position on: the rest of the payload. -/
def decodeFrom (decoded rest : Bytes) : Result Bytes :=
  match _found : positionOf crlf rest with
  | none => .fails "Invalid HTTP chunk"
  | some stop => do
    let line ← .ofOption "Invalid chunk size" (fromUtf8 (rest.take stop))
    let size ← .ofOption "Invalid chunk size" (parseUnsigned 16 (2 ^ 64) (firstPart ';' line))
    let tail := rest.drop (stop + 2)
    if size = 0 then
      if tail ≠ crlf ∧ (¬ (crlf ++ crlf).isSuffixOf tail ∨ tail.length > 65536) then .fails "Invalid chunk trailer"
      else .returns decoded
    else do
      .ensure (size ≤ tail.length ∧ size ≤ maxRecord - decoded.length) "HTTP chunk limit/truncation"
      .ensure ((tail.drop size).take 2 = crlf) "Invalid HTTP chunk delimiter"
      decodeFrom (decoded ++ tail.take size) (rest.drop (stop + 2 + (size + 2)))
termination_by rest.length
decreasing_by
  have inside := positionOf_lt ‹_›
  rw [List.length_drop]
  omega

def transferPayload (kind : Text) (block payload : Bytes) : Result Bytes :=
  if kind = "resource".toList then .returns payload
  else do
    let split ← .ofOption "HTTP header missing" (positionOf (crlf ++ crlf) block)
    let (_, h) ← headers (block.take split)
    match h.field transferEncoding with
    | some encoding =>
      if toAsciiLowercase encoding ≠ chunked then .fails "Unsupported HTTP transfer encoding"
      else decodeFrom [] payload
    | none => return payload

end NixHomeServer.Browsertrix.Engine
