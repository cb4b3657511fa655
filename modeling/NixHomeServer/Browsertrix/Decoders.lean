import NixHomeServer.Browsertrix.Chunks

/-! The two decoders of a chunked body agree on what both accept; they differ on
white space around a chunk size, and on a header that does not end in two line ends. -/
namespace NixHomeServer.Browsertrix.Engine

open NixHomeServer.Library

section fields

theorem extendFirst_ne_nil (c : Char) (parts : List Text) : extendFirst c parts ≠ [] := by
  cases parts <;> exact List.cons_ne_nil _ _

theorem splitCrlf_ne_nil (text : Text) : splitCrlf text ≠ [] := by
  induction text using splitCrlf.induct with
  | case1 => exact List.cons_ne_nil _ _
  | case2 rest ih => exact List.cons_ne_nil _ _
  | case3 c rest other ih =>
    rw [splitCrlf.eq_3 _ _ other]
    exact extendFirst_ne_nil c _

/-- More text extends the last line, or takes the end of it for a line end. -/
theorem splitCrlf_append (left right : Text) : ∃ parts last line tails, splitCrlf left = parts ++ [last] ∧
    splitCrlf (left ++ right) = parts ++ line :: tails ∧ (last <+: line ∨ last = line ++ ['\r']) := by
  induction left using splitCrlf.induct with
  | case1 =>
    obtain ⟨line, tails, same⟩ := List.exists_cons_of_ne_nil (splitCrlf_ne_nil right)
    exact ⟨[], [], line, tails, rfl, same, .inl List.nil_prefix⟩
  | case2 rest ih =>
    obtain ⟨parts, last, line, tails, own, whole, related⟩ := ih
    exact ⟨[] :: parts, last, line, tails, congrArg ([] :: ·) own, congrArg ([] :: ·) whole, related⟩
  | case3 c rest other ih =>
    obtain ⟨parts, last, line, tails, own, whole, related⟩ := ih
    rw [splitCrlf.eq_3 _ _ other, own]
    by_cases broken : ∃ after, c = '\r' ∧ rest ++ right = '\n' :: after
    · obtain ⟨after, rfl, split⟩ := broken
      have none : rest = [] := by
        cases rest with
        | nil => rfl
        | cons d rest =>
          obtain ⟨rfl, -⟩ := List.cons.inj split
          exact (other rest rfl rfl).elim
      subst none
      obtain ⟨rfl, rfl⟩ : parts = [] ∧ last = [] := by
        cases parts with
        | nil => exact ⟨rfl, (List.cons.inj own).1.symm⟩
        | cons part parts => exact absurd (List.cons.inj own).2.symm (List.append_ne_nil_of_right_ne_nil _ (List.cons_ne_nil _ _))
      refine ⟨[], ['\r'], [], splitCrlf after, rfl, ?_, .inr rfl⟩
      rw [List.cons_append, split]
      rfl
    · rw [List.cons_append, splitCrlf.eq_3 _ _ fun after same split => broken ⟨after, same, split⟩, whole]
      cases parts with
      | nil =>
        refine ⟨[], c :: last, c :: line, tails, rfl, rfl, related.imp ?_ (congrArg (c :: ·))⟩
        exact fun starts => (List.prefix_cons_inj c).mpr starts
      | cons part parts => exact ⟨(c :: part) :: parts, last, line, tails, rfl, rfl, related⟩

theorem headerLine_fields {out h : Headers} {line : Text} (read : headerLine out line = .returns h) (key : Text) :
    (h.field key).isSome ↔ (out.field key).isSome ∨
      ∃ name value, cutAt ':' line = some (name, value) ∧ toAsciiLowercase name = key := by
  unfold headerLine at read
  split at read
  · rename_i blank
    cases read
    subst blank
    exact ⟨.inl, fun either => either.elim id (by rintro ⟨_, _, ⟨⟩, _⟩)⟩
  · split at read
    · cases read
    · rename_i name value cut
      split at read
      · cases read
      · cases read
        rw [Headers.field, Headers.field, Keyed.get_put]
        dsimp only
        split
        · rename_i same
          exact ⟨fun _ => .inr ⟨name, value, cut, same⟩, fun _ => rfl⟩
        · rename_i differs
          refine ⟨.inl, fun either => either.elim id ?_⟩
          rintro ⟨name', value', cut', same⟩
          cases cut.symm.trans cut'
          exact absurd same differs

theorem headerLines_fields {out h : Headers} {lines : List Text} (read : headerLines out lines = .returns h) (key : Text) :
    (h.field key).isSome ↔ (out.field key).isSome ∨
      ∃ line ∈ lines, ∃ name value, cutAt ':' line = some (name, value) ∧ toAsciiLowercase name = key := by
  induction lines generalizing out with
  | nil =>
    cases read
    exact ⟨.inl, fun either => either.elim id nofun⟩
  | cons line lines ih =>
    obtain ⟨out', first, rest⟩ := Checked.bind_eq_returns.mp read
    rw [ih rest, headerLine_fields first, List.exists_mem_cons_iff, or_assoc]

/-- The fields of a header text, by the lines behind the first. -/
theorem headers_eq_returns {bytes : Bytes} {first : Text} {h : Headers} : headers bytes = .returns (first, h) ↔
    bytes.length ≤ maxHeader ∧ ∃ text lines, utf8 text = bytes ∧ splitCrlf text = first :: lines ∧
      headerLines .empty lines = .returns h := by
  unfold headers
  rw [Checked.bind_eq_returns]
  constructor
  · rintro ⟨_, short, read⟩
    obtain ⟨text, decoded, read⟩ := Checked.bind_eq_returns.mp read
    refine ⟨Checked.ensure_eq_returns.mp short, text, ?_⟩
    cases lines : splitCrlf text with
    | nil => exact absurd lines (splitCrlf_ne_nil text)
    | cons line lines =>
      rw [lines] at read
      obtain ⟨out, parsed, same⟩ := Checked.bind_eq_returns.mp read
      cases same
      exact ⟨_, fromUtf8_eq_some.mp (Checked.ofOption_eq_returns.mp decoded), rfl, parsed⟩
  · rintro ⟨short, text, lines, encoded, split, parsed⟩
    refine ⟨(), Checked.ensure_eq_returns.mpr short, ?_⟩
    rw [fromUtf8_eq_some.mpr encoded, Checked.ofOption_some, Checked.returns_bind, split]
    dsimp only
    rw [parsed]
    rfl

theorem cutAt_of_prefix {line longer name value : Text} (starts : line <+: longer) (cut : cutAt ':' line = some (name, value)) :
    ∃ value', cutAt ':' longer = some (name, value') := by
  obtain ⟨more, rfl⟩ := starts
  obtain ⟨rfl, absent⟩ := cutAt_eq_some cut
  refine ⟨value ++ more, ?_⟩
  rw [List.append_assoc, List.cons_append, cutAt_append ':' _ absent]

theorem cutAt_of_broken {line name value : Text} (cut : cutAt ':' (line ++ ['\r']) = some (name, value)) :
    ∃ value', cutAt ':' line = some (name, value') := by
  obtain ⟨split, absent⟩ := cutAt_eq_some cut
  cases List.eq_nil_or_concat value with
  | inl none =>
    subst none
    exact absurd (List.append_inj_right' split rfl) (by decide)
  | inr last =>
    obtain ⟨value', c, rfl⟩ := last
    rw [List.concat_eq_append, ← List.cons_append, ← List.append_assoc] at split
    exact ⟨value', by rw [List.append_inj_left' split rfl, cutAt_append ':' _ absent]⟩

/-- A field of a header text is one of every longer text that reads as a header. -/
theorem field_of_prefix {left right : Bytes} {first first' : Text} {h h' : Headers} {key : Text}
    (short : headers left = .returns (first, h)) (long : headers (left ++ right) = .returns (first', h'))
    (there : (h.field key).isSome) : (h'.field key).isSome := by
  obtain ⟨-, text, lines, encoded, split, parsed⟩ := headers_eq_returns.mp short
  obtain ⟨-, text', lines', encoded', split', parsed'⟩ := headers_eq_returns.mp long
  obtain ⟨more, rfl, -⟩ := split_of_prefix (encoded'.trans (congrArg (· ++ right) encoded.symm))
  obtain ⟨parts, last, line, tails, own, whole, related⟩ := splitCrlf_append text more
  rw [own] at split
  rw [whole] at split'
  cases parts with
  | nil =>
    obtain ⟨-, rfl⟩ := List.cons.inj split
    cases parsed
    cases there
  | cons part parts =>
    obtain ⟨-, rfl⟩ := List.cons.inj split
    obtain ⟨-, rfl⟩ := List.cons.inj split'
    refine (headerLines_fields parsed' key).mpr (.inr ?_)
    obtain empty | ⟨found, member, name, value, cut, same⟩ := (headerLines_fields parsed key).mp there
    · cases empty
    obtain within | only := List.mem_append.mp member
    · exact ⟨found, List.mem_append_left _ within, name, value, cut, same⟩
    · obtain rfl := List.mem_singleton.mp only
      refine ⟨line, List.mem_append_right _ List.mem_cons_self, name, ?_⟩
      obtain starts | ends := related
      · obtain ⟨value', cut'⟩ := cutAt_of_prefix starts cut
        exact ⟨value', cut', same⟩
      · subst ends
        obtain ⟨value', cut'⟩ := cutAt_of_broken cut
        exact ⟨value', cut', same⟩

end fields

section blocks

theorem positionOf_spec {pattern bytes : Bytes} {p : Nat} (found : positionOf pattern bytes = some p) :
    ∃ before after, bytes = before ++ (pattern ++ after) ∧ before.length = p := by
  induction bytes generalizing p with
  | nil => cases found
  | cons b rest ih =>
    rw [positionOf] at found
    split at found
    · rename_i starts
      cases found
      obtain ⟨after, same⟩ := List.isPrefixOf_iff_prefix.mp starts
      exact ⟨[], after, same.symm, rfl⟩
    · obtain ⟨q, there, rfl⟩ := Option.map_eq_some_iff.mp found
      obtain ⟨before, after, rfl, rfl⟩ := ih there
      exact ⟨b :: before, after, rfl, rfl⟩

/-- Two line ends in a row do not end before the header does. -/
theorem end_of_header {lines : List Bytes} (whole : ∀ line ∈ lines, IsLine lf line ∧ line ≠ crlf)
    {rest before after : Bytes} (same : lines.flatten ++ (crlf ++ rest) = before ++ (crlf ++ crlf ++ after)) :
    lines.flatten.length + 2 ≤ before.length + 4 := by
  induction lines generalizing before with
  | nil =>
    rw [List.flatten_nil, List.length_nil]
    omega
  | cons line lines ih =>
    obtain ⟨first, others⟩ := List.forall_mem_cons.mp whole
    rw [List.flatten_cons, List.append_assoc] at same
    rw [List.flatten_cons, List.length_append]
    obtain ⟨before', rfl, rest'⟩ | ⟨last, split, rest'⟩ := List.append_eq_append_iff.mp same
    · have shorter := ih others rest'
      rw [List.length_append]
      omega
    · cases List.eq_nil_or_concat last with
      | inl none =>
        subst none
        rw [List.append_nil] at split
        have shorter : lines.flatten.length + 2 ≤ ([] : Bytes).length + 4 := ih others rest'.symm
        rw [List.length_nil] at shorter
        rw [split]
        omega
      | inr ends =>
        obtain ⟨init, c, rfl⟩ := ends
        rw [List.concat_eq_append] at split rest'
        obtain ⟨body, absent, marked⟩ := first.1
        rw [marked, ← List.append_assoc] at split
        obtain rfl := List.append_inj_left' split rfl
        obtain rfl : lf = c := (List.cons.inj (List.append_inj_right' split rfl)).1
        have whole : IsLine lf (init ++ [lf]) := ⟨init, fun member => absent (List.mem_append_right _ member), rfl⟩
        rw [List.append_assoc] at rest'
        obtain ⟨marks, tail⟩ := isLine_append_inj isLine_crlf whole rest'
        cases lines with
        | nil =>
          have two := congrArg List.length marks
          rw [marked, List.flatten_nil, List.length_nil, List.append_assoc, List.length_append, ← two]
          exact Nat.le_refl _
        | cons other lines =>
          rw [List.flatten_cons, List.append_assoc] at tail
          obtain ⟨blank, -⟩ := isLine_append_inj isLine_crlf (others other List.mem_cons_self).1 tail
          exact absurd blank.symm (others other List.mem_cons_self).2

/-- A response block as the scan cuts it: its header with the fields read of it, and the payload. -/
structure Scanned (block http : Bytes) (h : Headers) (payload : Bytes) : Prop where
  read : readHeader false { bytes := block } = .returns (some (http, { bytes := payload }))
  fields : ∃ text first, beforeEnd http = .returns text ∧ headers text = .returns (first, h)

/-- Up to the first two line ends in a row, the block still reads as a header of a chunked body. -/
def StillChunked (block : Bytes) : Prop :=
  ∃ split first h encoding, positionOf (crlf ++ crlf) block = some split ∧
    headers (block.take split) = .returns (first, h) ∧ h.field transferEncoding = some encoding ∧
    toAsciiLowercase encoding = chunked

/-- No size line of the payload is padded. -/
def Unpadded (payload : Bytes) : Prop := ∀ lines data, Chunks payload lines data → ∀ line ∈ lines, ¬ Padded line

variable {block http payload : Bytes} {h : Headers}

theorem beforeEnd_eq_returns {header text : Bytes} (cut : beforeEnd header = .returns text) :
    4 ≤ header.length ∧ text = header.take (header.length - 4) := by
  unfold beforeEnd at cut
  split at cut
  · cases cut
    exact ⟨‹_›, rfl⟩
  · cases cut

/-- The fields of the scan are among those of the longer header. -/
theorem field_kept (scanned : Scanned block http h payload) {split : Nat} {first : Text} {h' : Headers}
    (found : positionOf (crlf ++ crlf) block = some split) (read : headers (block.take split) = .returns (first, h'))
    {key : Text} (there : (h.field key).isSome) : (h'.field key).isSome := by
  obtain ⟨lines, framed, rfl⟩ := readHeader_eq_some.mp scanned.read
  obtain ⟨text, first', cut, short⟩ := scanned.fields
  obtain ⟨enough, rfl⟩ := beforeEnd_eq_returns cut
  obtain ⟨blanks, parts, none⟩ := framed.split
  obtain rfl := none rfl
  obtain parts : block = lines.flatten ++ (crlf ++ payload) := parts
  obtain ⟨before, after, same, rfl⟩ := positionOf_spec found
  have behind := end_of_header framed.whole (parts.symm.trans same)
  have length : (lines.flatten ++ crlf).length = lines.flatten.length + 2 := List.length_append
  have starts : block.take ((lines.flatten ++ crlf).length - 4) =
      (lines.flatten ++ crlf).take ((lines.flatten ++ crlf).length - 4) := by
    rw [parts, ← List.append_assoc, List.take_append_of_le_length (by omega)]
  obtain ⟨more, count⟩ := Nat.exists_eq_add_of_le (show (lines.flatten ++ crlf).length - 4 ≤ before.length by omega)
  rw [count, List.take_add, starts] at read
  exact field_of_prefix short read there

/-- A chunked body within the bound that the scan accepts decodes to the bytes that
were hashed exactly if its block still reads as chunked and no size line is padded. -/
theorem decoders_agree_iff (sha256 : Bytes → Text) {digest : Text} (scanned : Scanned block http h payload)
    (encoded : (h.field transferEncoding).map toAsciiLowercase = some chunked) (bounded : payload.length ≤ maxRecord)
    (accepted : entityHash sha256 { bytes := payload } h = .returns digest) :
    (∃ bytes, transferPayload "response".toList block payload = .returns bytes ∧ sha256 bytes = digest) ↔
      StillChunked block ∧ Unpadded payload := by
  obtain ⟨encoding, named, same⟩ := Option.map_eq_some_iff.mp encoded
  rw [entityHash, named] at accepted
  dsimp only at accepted
  rw [if_neg (not_not.mpr same)] at accepted
  obtain ⟨hashed, read, hash⟩ := Checked.bind_eq_returns.mp accepted
  have sound := chunksFrom_sound 0 0 [] { bytes := payload }
  rw [read] at sound
  obtain ⟨lines, _, chunks, rfl⟩ := sound
  have small := chunks.length_le
  have response : "response".toList ≠ "resource".toList := by decide
  constructor
  · rintro ⟨bytes, decoded, -⟩
    rw [transferPayload, if_neg response] at decoded
    obtain ⟨split, found, decoded⟩ := Checked.bind_eq_returns.mp decoded
    obtain ⟨⟨first, h'⟩, parsed, decoded⟩ := Checked.bind_eq_returns.mp decoded
    have found := Checked.ofOption_eq_returns.mp found
    dsimp only at decoded
    split at decoded
    · rename_i encoding' named'
      split at decoded
      · cases decoded
      · rename_i same'
        refine ⟨⟨split, first, h', encoding', found, parsed, named', not_not.mp same'⟩, ?_⟩
        intro lines' data' chunks' line member padded
        obtain ⟨e, failed⟩ := decodeFrom_of_padded chunks' ⟨line, member, padded⟩
        cases decoded.symm.trans failed
    · rename_i absent
      have kept := field_kept scanned found parsed (Option.isSome_iff_exists.mpr ⟨encoding, named⟩)
      rw [absent] at kept
      cases kept
  · rintro ⟨⟨split, first, h', encoding', found, parsed, named', same'⟩, unpadded⟩
    refine ⟨hashed, ?_, Checked.returns.inj hash⟩
    rw [transferPayload, if_neg response, found, Checked.ofOption_some, Checked.returns_bind, parsed, Checked.returns_bind]
    dsimp only
    rw [named']
    dsimp only
    rw [if_neg (not_not.mpr same'), decodeFrom_of_unpadded chunks (unpadded lines hashed chunks)]
    · rfl
    · rw [List.length_nil, Nat.zero_add]
      exact Nat.le_trans small bounded

end blocks

section samples

def statusLine : Text := "HTTP/1.1 200 OK".toList

def chunkedLine : Text := "Transfer-Encoding: chunked".toList

def lineEnd : Text := ['\r', '\n']

def chunkedHeader : Text := statusLine ++ lineEnd ++ (chunkedLine ++ lineEnd) ++ lineEnd

def chunkedFields : Headers := Keyed.put .empty (transferEncoding, chunked)

theorem line_of_text {text : Text} (plain : lf ∉ utf8 text) (some : text ≠ []) :
    IsLine lf (utf8 (text ++ lineEnd)) ∧ utf8 (text ++ lineEnd) ≠ crlf := by
  have ends : utf8 lineEnd = crlf := by decide
  rw [utf8_append, ends]
  refine ⟨⟨utf8 text ++ [cr], fun member => ?_, by rw [List.append_assoc]; rfl⟩, fun same => ?_⟩
  · exact (List.mem_append.mp member).elim plain (by decide)
  · have none : utf8 text = [] := List.append_left_eq_self.mp same
    exact some (utf8_injective none)

theorem headers_sample : headers (utf8 (statusLine ++ lineEnd ++ chunkedLine)) = .returns (statusLine, chunkedFields) :=
  headers_eq_returns.mpr ⟨by decide, _, [chunkedLine], rfl, by decide, rfl⟩

theorem scanned_sample (payload : Bytes) :
    Scanned (utf8 chunkedHeader ++ payload) (utf8 chunkedHeader) chunkedFields payload where
  read := by
    refine readHeader_eq_some.mpr ⟨[utf8 (statusLine ++ lineEnd), utf8 (chunkedLine ++ lineEnd)], ?_, by decide⟩
    refine ⟨⟨0, rfl, fun _ => rfl⟩, rfl, ?_, by decide, nofun⟩
    simp only [List.forall_mem_cons, List.not_mem_nil, false_imp_iff, implies_true, and_true]
    exact ⟨line_of_text (by decide) (by decide), line_of_text (by decide) (by decide)⟩
  fields := ⟨_, statusLine, rfl, headers_sample⟩

/-- The only chunk is the last one; its size line is the text. -/
def lastChunk (line : Text) : Bytes := utf8 line ++ (crlf ++ crlf)

theorem chunks_lastChunk {line : Text} (plain : lf ∉ utf8 line) (sized : chunkSize (utf8 line ++ crlf) = .returns 0) :
    Chunks (lastChunk line) [line] [] :=
  @Chunks.last line [] plain sized nofun (by decide)

theorem chunkSize_of_line {line : Text} {size : Nat} (short : (utf8 line ++ crlf).length ≤ maxHeader)
    (read : parseUnsigned 16 (2 ^ 64) (firstPart ';' (trim line)) = some size) :
    chunkSize (utf8 line ++ crlf) = .returns size := by
  have whole : utf8 line ++ crlf = utf8 (line ++ ['\r', '\n']) := by rw [utf8_append, utf8_crlf]
  rw [chunkSize, Checked.ensure, if_pos ⟨short, suffix_iff.mpr ⟨_, rfl⟩⟩, Checked.returns_bind, whole, fromUtf8_eq_some.mpr rfl,
    Checked.ofOption_some, Checked.returns_bind, trim_crlf, read]
  rfl

theorem accepted_lastChunk (sha256 : Bytes → Text) {line : Text} (plain : lf ∉ utf8 line)
    (sized : chunkSize (utf8 line ++ crlf) = .returns 0) :
    entityHash sha256 { bytes := lastChunk line } chunkedFields = .returns (sha256 []) := by
  have read := chunksFrom_of_chunks (chunks_lastChunk plain sized) 0 0 [] (by rw [List.length_singleton]; decide) (by decide)
  have named : chunkedFields.field transferEncoding = some chunked := by decide
  rw [entityHash, named]
  dsimp only
  rw [if_neg (by decide), read]
  rfl

theorem unpadded_lastChunk {line : Text} (plain : lf ∉ utf8 line) (sized : chunkSize (utf8 line ++ crlf) = .returns 0)
    (tight : ¬ Padded line) : Unpadded (lastChunk line) := by
  intro lines data chunks other member padded
  obtain ⟨e, failed⟩ := @decodeFrom_of_padded [] _ _ _ chunks ⟨other, member, padded⟩
  have decoded := @decodeFrom_of_unpadded [] _ _ _ (chunks_lastChunk plain sized)
    (fun own only => List.mem_singleton.mp only ▸ tight) (by decide)
  cases failed.symm.trans decoded

/-- The digest of no bytes. -/
def emptyDigest : Text := "sha256:e3b0c44298fc1c149afbf4c8996fb92427ae41e4649b934ca495991b7852b855".toList

theorem plain_chunk_is_decoded : ∃ bytes, transferPayload "response".toList (utf8 chunkedHeader ++ lastChunk ['0'])
    (lastChunk ['0']) = .returns bytes ∧ (fun _ => emptyDigest) bytes = emptyDigest := by
  have sized : chunkSize (utf8 ['0'] ++ crlf) = .returns 0 := chunkSize_of_line (by decide) (by decide)
  refine (decoders_agree_iff (fun _ => emptyDigest) (scanned_sample (lastChunk ['0'])) (by decide) (by decide)
    (accepted_lastChunk _ (by decide) sized)).mpr ⟨?_, unpadded_lastChunk (by decide) sized (by decide)⟩
  exact ⟨43, statusLine, chunkedFields, chunked, by decide, headers_sample, by decide, by decide⟩

/-- A chunk size behind white space is accepted by the scan and by no decoder of the content. -/
theorem padded_size_is_not_decoded : ¬ ∀ (sha256 : Bytes → Text) (block http payload : Bytes) (h : Headers) (digest : Text),
    Scanned block http h payload → (h.field transferEncoding).map toAsciiLowercase = some chunked →
    payload.length ≤ maxRecord → entityHash sha256 { bytes := payload } h = .returns digest →
    ∃ bytes, transferPayload "response".toList block payload = .returns bytes ∧ sha256 bytes = digest := by
  intro agree
  have sized : chunkSize (utf8 " 0".toList ++ crlf) = .returns 0 := chunkSize_of_line (by decide) (by decide)
  obtain ⟨bytes, decoded, -⟩ := agree (fun _ => emptyDigest) _ _ _ _ _ (scanned_sample (lastChunk " 0".toList)) (by decide) (by decide)
    (accepted_lastChunk _ (by decide) sized)
  have found : positionOf (crlf ++ crlf) (utf8 chunkedHeader ++ lastChunk " 0".toList) = some 43 := by decide
  have text : (utf8 chunkedHeader ++ lastChunk " 0".toList).take 43 = utf8 (statusLine ++ lineEnd ++ chunkedLine) := by decide
  have named : chunkedFields.field transferEncoding = some chunked := by decide
  rw [transferPayload, if_neg (by decide), found, Checked.ofOption_some, Checked.returns_bind, text, headers_sample,
    Checked.returns_bind] at decoded
  dsimp only at decoded
  rw [named] at decoded
  dsimp only at decoded
  rw [if_neg (by decide), lastChunk, decodeFrom_padded (by decide) (by decide)] at decoded
  cases decoded

end samples

end NixHomeServer.Browsertrix.Engine
