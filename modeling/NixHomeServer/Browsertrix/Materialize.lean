import NixHomeServer.Browsertrix.Decoders
import NixHomeServer.Browsertrix.Resolution

/-! What is written for a revisit whose target lies in its own archive, and for one
whose target lies in a dependency. -/
namespace NixHomeServer.Browsertrix.Engine

open NixHomeServer.Library

section blocks

variable {http : Bytes}

/-- A block that reads as an HTTP message: its header, and the payload behind it. -/
def HttpBlock (block http payload : Bytes) : Prop :=
  readHeader false { bytes := block } = .returns (some (http, { bytes := payload })) ∧
    ∃ text line h, beforeEnd http = .returns text ∧ headers text = .returns (line, h) ∧
      "HTTP/".toList.isPrefixOf line = true

/-- An HTTP header as the scan keeps it. -/
def HttpHead (http : Bytes) : Prop :=
  (∃ s rest, readHeader false s = .returns (some (http, rest))) ∧
    ∃ text line h, beforeEnd http = .returns text ∧ headers text = .returns (line, h) ∧
      "HTTP/".toList.isPrefixOf line = true

/-- Such a header makes an HTTP message of every payload. -/
theorem HttpHead.block (head : HttpHead http) (payload : Bytes) : HttpBlock (http ++ payload) http payload := by
  obtain ⟨⟨s, rest, read⟩, reads⟩ := head
  obtain ⟨lines, block, rfl⟩ := readHeader_eq_some.mp read
  refine ⟨readHeader_eq_some.mpr ⟨lines, ⟨⟨0, ?_, fun _ => rfl⟩, rfl, block.whole, block.short, nofun⟩, rfl⟩, reads⟩
  simp only [List.replicate_zero, List.flatten_nil, List.nil_append, List.append_assoc]

theorem HttpHead.ne_nil (head : HttpHead http) : http ≠ [] := by
  obtain ⟨⟨s, rest, read⟩, -⟩ := head
  obtain ⟨lines, -, rfl⟩ := readHeader_eq_some.mp read
  exact List.append_ne_nil_of_right_ne_nil _ isLine_crlf.ne_nil

variable {sha256 : Bytes → Text} {o : Opened} {body : Body}

end blocks

section written

variable {reader : Reader} {sha256 : Bytes → Text} {record other : Record} {source source' : BodySource} {payload : Bytes}

end written

section agreement

variable {reader : Reader} {sha256 : Bytes → Text} {payload : Bytes} {v v' t t' mine theirs : Record}
  {records records' loaded loaded' : List Record} {i j k j' : Nat} {inputs before after : List Archive} {input : Archive}

/-- A response or resource that is read whole; its payload lies at a source. -/
structure Complete (reader : Reader) (payload : Bytes) (t : Record) : Prop where
  kind : (t.kind = "response".toList ∧ HttpHead t.httpHeaders) ∨ (t.kind = "resource".toList ∧ t.httpHeaders = [])
  own : t.payloadSource = none
  readable : ∃ source, t.source = some source ∧ reader source true = .returns payload
  sized : payload.length = t.payloadLength

/-- The same capture at another place. -/
structure Copy (r r' : Record) : Prop where
  headers : r'.headers = r.headers
  httpHeaders : r'.httpHeaders = r.httpHeaders
  status : r'.status = r.status
  mime : r'.mime = r.mime
  payloadDigest : r'.payloadDigest = r.payloadDigest
  payloadLength : r'.payloadLength = r.payloadLength
  resolved : r'.resolved = r.resolved

/-- What the export of a loaded archive makes of one of its records. -/
def Exports (inputs : List Archive) (loaded : List Record) (i : Nat) (exported : Record) : Prop :=
  ∃ sha256 out, hydrate inputs { records := loaded, sha256 } = .returns out ∧ out.records[i]? = some exported

/-- Two records are written alike, for a response as an HTTP message with the payload. -/
structure Agrees (reader : Reader) (sha256 : Bytes → Text) (payload : Bytes) (t mine theirs : Record) : Prop where
  httpHeaders : mine.httpHeaders = theirs.httpHeaders
  status : mine.status = theirs.status
  mime : mine.mime = theirs.mime
  payloadDigest : mine.payloadDigest = theirs.payloadDigest
  payloadLength : mine.payloadLength = theirs.payloadLength
  written : encodeRecord reader sha256 mine = encodeRecord reader sha256 theirs
  succeeds : (mine.httpHeaders ++ payload).length ≤ maxBody →
    cleanHeaders (encodedHeaders mine (sha256 (mine.httpHeaders ++ payload))) = true →
    ∃ record, encodeRecord reader sha256 mine = .returns record ∧ record.block = mine.httpHeaders ++ payload
  response : t.kind = "response".toList → ∀ record, encodeRecord reader sha256 mine = .returns record →
    HttpBlock record.block mine.httpHeaders payload

theorem Exports.record (exports : Exports inputs loaded i mine) (there : loaded[i]? = some v) :
    ∃ work left, hydrateRecord inputs v work = .returns (mine, left) := by
  obtain ⟨_, out, done, exported⟩ := exports
  obtain ⟨hydrated, stepped, same⟩ := Checked.bind_eq_returns.mp done
  cases same
  exact hydrateRecords_at stepped there exported

theorem Copy.isOpen (copy : Copy v v') (isOpen : Open v) : Open v' where
  revisit := (congrArg (Headers.fieldOr · "warc-type") copy.headers).trans isOpen.revisit
  unresolved := copy.resolved.trans isOpen.unresolved
  free := (congrArg (Headers.fieldOr · "warc-x-dependency-sha256") copy.headers).trans isOpen.free

end agreement

section samples

theorem Copy.refl (r : Record) : Copy r r := ⟨rfl, rfl, rfl, rfl, rfl, rfl, rfl⟩

section

variable {t : Record}

end

end samples

end NixHomeServer.Browsertrix.Engine
