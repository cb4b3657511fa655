import Mathlib.Data.List.Nodup
import NixHomeServer.Browsertrix.Scan

/-! Revisit records: how a target is looked up, how a loaded archive resolves its own
revisits, how the others are hydrated from dependencies, and what is written for them. -/
namespace NixHomeServer.Browsertrix.Engine

open NixHomeServer.Library

def Record.field (record : Record) (key : String) : Text := record.headers.fieldOr key

def Record.url (record : Record) : Text := record.field "warc-target-uri"

def Record.digest (record : Record) : Text := record.payloadDigest

def Record.transportKey (record : Record) : Result Text :=
  if record.httpHeaders = [] then .returns []
  else do
    let text ← beforeEnd record.httpHeaders
    match Engine.headers text with
    | .returns (_, h) => .returns (toAsciiLowercase (h.fieldOr "transfer-encoding"))
    | .fails _ => .returns []
    | .panics => .panics

def Record.location (record : Record) : Text :=
  record.member ++ ':' :: (Nat.toDigits 10 record.offset ++ ':' :: Nat.toDigits 10 record.length)

section matching

variable (record r : Record)

def sameTransport : Result Bool :=
  if record.httpHeaders = [] then .returns true
  else do
    let own ← record.transportKey
    let other ← r.transportKey
    return own = other

/-- The fields that name a target are those of the record. -/
def named : Bool :=
  let id := record.field "warc-refers-to"
  let url := record.field "warc-refers-to-target-uri"
  let date := record.field "warc-refers-to-date"
  let digest := record.field "warc-payload-digest"
  let location := record.field "warc-x-dependency-location"
  !(id = [] && (url = [] || date = [] || digest = [])) &&
  (id = [] || r.field "warc-record-id" = id) &&
  (url = [] || r.url = url) &&
  (date = [] || r.field "warc-date" = date) &&
  (location = [] || location = r.location)

def normalised : Result Text → Option Text
  | .returns digest => some digest
  | _ => none

def digestAgrees : Bool :=
  let digest := record.field "warc-payload-digest"
  digest = [] || r.field "warc-payload-digest" = digest || r.digest = digest ||
  (sha256Prefix.isPrefixOf digest &&
    match normalised (normalizeSha256 digest), normalised (normalizeSha256 r.digest) with
    | some expected, some actual => expected = actual
    | _, _ => false)

def revisitMatches : Result Bool :=
  if r.resolved then do
    let same ← sameTransport record r
    return same && named record r && digestAgrees record r
  else .returns false

end matching

section lookup

/-- The positions of records by their id, and by their URL and date. -/
structure RecordLookup where
  ids : List (Text × Nat)
  targets : List ((Text × Text) × Nat)

namespace RecordLookup

def new (records : List Record) : RecordLookup where
  ids := records.mapIdx fun i r => (r.field "warc-record-id", i)
  targets := records.mapIdx fun i r => ((r.url, r.field "warc-date"), i)

def indices (lookup : RecordLookup) (record : Record) : List Nat :=
  if record.field "warc-refers-to" = [] then
    (lookup.targets.filter fun entry =>
      entry.1 = (record.field "warc-refers-to-target-uri", record.field "warc-refers-to-date")).map Prod.snd
  else (lookup.ids.filter fun entry => entry.1 = record.field "warc-refers-to").map Prod.snd

/-- The only match; a second one ends the search without a target. -/
def onlyMatch (record : Record) (records : List Record) : Option Record → List Nat → Result (Option Record)
  | found, [] => .returns found
  | found, i :: rest => do
    let r ← .unwrap records[i]?
    let matched ← revisitMatches record r
    if matched then
      if found.isSome then .returns none else onlyMatch record records (some r) rest
    else onlyMatch record records found rest

def find (lookup : RecordLookup) (record : Record) (records : List Record) (work : Nat) :
    Result (Option Record × Nat) :=
  if lookup.indices record = [] then .returns (none, work)
  else do
    .ensure ((lookup.indices record).length ≤ work) "Revisit resolution work limit exceeded"
    let found ← onlyMatch record records none (lookup.indices record)
    return (found, work - (lookup.indices record).length)

end RecordLookup

end lookup

def revisitWork : Nat := 2000000

section resolution

/-- What a revisit takes from its target in its own archive. -/
def Record.takeLocal (record target : Record) : Record :=
  { record with
    resolved := true
    payload := target.payload
    payloadSource := target.payloadSource.or target.source
    payloadLength := target.payloadLength
    payloadDigest := target.payloadDigest
    mime := if record.mime = [] then target.mime else record.mime
    status := if record.status = 0 then target.status else record.status }

structure Resolving where
  records : List Record
  work : Nat
  pending : Bool

def resolveOne (lookup : RecordLookup) (s : Resolving) (i : Nat) : Result Resolving := do
  let record ← .unwrap s.records[i]?
  if record.kind ≠ "revisit".toList ∨ record.resolved = true ∨ record.field "warc-x-dependency-sha256" ≠ [] then
    return s
  else do
    let (target, work) ← lookup.find record s.records s.work
    match target with
    | some target =>
      if target.resolved then return { records := s.records.set i (record.takeLocal target), work, pending := true }
      else return { s with work }
    | none => return { s with work }

def resolveRound (lookup : RecordLookup) : List Nat → Resolving → Result Resolving
  | [], s => .returns s
  | i :: rest, s => do
    let s ← resolveOne lookup s i
    resolveRound lookup rest s

def resolveRounds (lookup : RecordLookup) : Nat → Resolving → Result Resolving
  | 0, s => .returns s
  | left + 1, s =>
    if s.pending then do
      let s ← resolveRound lookup (List.range s.records.length) { s with pending := false }
      resolveRounds lookup left s
    else .returns s

def resolveLocal (records : List Record) : Result (List Record) := do
  let s ← resolveRounds (.new records) 64 { records, work := revisitWork, pending := true }
  return s.records

end resolution

section hydration

structure Archive where
  records : List Record
  sha256 : Text

/-- What a revisit takes from its target in a dependency. -/
def Record.takeExternal (record target : Record) : Record :=
  { record with
    payload := target.payload
    payloadSource := target.payloadSource.or target.source
    payloadLength := target.payloadLength
    payloadDigest := target.payloadDigest
    resolved := true
    mime := if record.mime = [] then target.mime else record.mime
    status := if record.status = 0 then target.status else record.status
    httpHeaders := if record.httpHeaders = [] then target.httpHeaders else record.httpHeaders }

def revisitFields : List Text :=
  ["warc-profile".toList, "warc-refers-to".toList, "warc-refers-to-target-uri".toList, "warc-refers-to-date".toList,
    "warc-x-dependency-sha256".toList, "warc-x-dependency-id".toList, "warc-x-dependency-location".toList,
    "warc-truncated".toList]

local instance lawfulResponses : LawfulBEq (List Char) := inferInstance

def Record.asResponse (record : Record) : Record :=
  { record with
    headers := (Keyed.put record.headers ("warc-type".toList, "response".toList)).filter fun row => row.1 ∉ revisitFields }

def Record.segmented (record : Record) : Bool :=
  record.kind = "continuation".toList || record.headers.rows.any fun row => "warc-segment-".toList.isPrefixOf row.1

/-- The targets that the dependencies offer; `inputs` is in the order of their ids. -/
def candidates (record : Record) : List Archive → Nat → Result (List Record × Nat)
  | [], work => .returns ([], work)
  | input :: rest, work =>
    if record.field "warc-x-dependency-sha256" ≠ [] ∧ input.sha256 ≠ record.field "warc-x-dependency-sha256" then
      candidates record rest work
    else do
      let (target, work) ← (RecordLookup.new input.records).find record input.records work
      let (others, work) ← candidates record rest work
      return (target.toList ++ others, work)

variable (inputs : List Archive)

def hydrateRecord (record : Record) (work : Nat) : Result (Record × Nat) :=
  if record.segmented then .fails "Segmented WARC transformation unsupported"
  else if record.kind ≠ "revisit".toList then .returns (record, work)
  else if record.resolved then .returns (record.asResponse, work)
  else do
    let (targets, work) ← candidates record inputs work
    match targets with
    | [target] => .returns ((record.takeExternal target).asResponse, work)
    | _ => .fails ("Unresolvable/ambiguous external revisit: " ++ String.ofList record.url ++ " " ++
        String.ofList (record.field "warc-record-id"))

def hydrateRecords : List Record → Nat → Result (List Record)
  | [], _ => .returns []
  | record :: rest, work => do
    let (record, work) ← hydrateRecord inputs record work
    let rest ← hydrateRecords rest work
    return record :: rest

def hydrate (archive : Archive) : Result Archive := do
  let records ← hydrateRecords inputs archive.records revisitWork
  return { archive with records }

/-- An archive's records as they are read, made ready to be written with dependencies. -/
def materialize (records : List Record) (sha256 : Text) : Result Archive := do
  let records ← resolveLocal records
  hydrate inputs { records, sha256 }

end hydration

section output

/-- The reader of a source: its body, or the payload behind its HTTP header. -/
abbrev Reader := BodySource → Bool → Result Bytes

variable (reader : Reader)

def Record.bodyReader (record : Record) : Result Bytes :=
  match record.payloadSource with
  | some source => do
    let payload ← reader source true
    return record.httpHeaders ++ payload
  | none =>
    match record.source with
    | some source => reader source false
    | none => .returns record.block

def Record.outputLength (record : Record) : Nat :=
  if record.kind = "revisit".toList then record.httpHeaders.length
  else if record.payloadSource.isSome then record.httpHeaders.length + record.payloadLength
  else if record.source.isSome then record.bodyLength
  else record.block.length

def Record.outputReader (record : Record) : Result Bytes :=
  if record.kind = "revisit".toList then .returns record.httpHeaders else record.bodyReader reader

/-- A record of the archive that is written. -/
structure Written where
  headers : Headers
  block : Bytes

def safeText (text : Text) : Bool := text.all fun c => c ≠ '\r' && c ≠ '\n'

/-- Each field can be written on a line of its own. -/
def cleanHeaders (h : Headers) : Bool := h.rows.all fun row => safeText row.1 && safeText row.2

def encodedHeaders (record : Record) (blockDigest : Text) : Headers :=
  let sized := Keyed.put record.headers ("content-length".toList, Nat.toDigits 10 record.outputLength)
  let digested := Keyed.put sized ("warc-block-digest".toList, blockDigest)
  if record.kind = "response".toList ∨ record.kind = "resource".toList then
    Keyed.put digested ("warc-payload-digest".toList, record.digest)
  else digested

def encodeRecord (sha256 : Bytes → Text) (record : Record) : Result Written := do
  let block ← record.outputReader reader
  let digest ← streamHash sha256 { bytes := block } maxBody
  .ensure (record.outputLength = block.length) "Record output length mismatch"
  .ensure (cleanHeaders (encodedHeaders record digest)) "Unsafe WARC header"
  return { headers := encodedHeaders record digest, block }

end output

end NixHomeServer.Browsertrix.Engine
