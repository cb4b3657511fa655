import NixHomeServer.Browsertrix.Decoders
import NixHomeServer.Browsertrix.Scan

/-! The header that is cut out of a stream and the text that its reader is handed. -/
namespace NixHomeServer.Browsertrix.Engine

open NixHomeServer.Library

section headers

/-- The text of a header: its lines without the end of the last one and the blank line. -/
inductive TextOf : Bytes → Bytes → Prop
  | lines (text : Bytes) : TextOf (text ++ (crlf ++ crlf)) text
  | bare (text : Bytes) (ends : text.getLast? ≠ some cr) : TextOf (text ++ (lf :: crlf)) text
  | nothing : TextOf crlf []

/-- The length of the block by a header text. -/
def lengthIn (text : Bytes) : Result Nat := do
  let (_, h) ← headers text
  contentLength h

/-- Headers cut at a stream end in two line ends, and all of their text is handed on. -/
structure HandsExact (skipEmpty : Bool) (s : Stream) : Prop where
  ends : ∀ header rest, readHeader skipEmpty s = .returns (some (header, rest)) → crlf ++ crlf <:+ header
  text : ∀ header rest text, readHeader skipEmpty s = .returns (some (header, rest)) → TextOf header text →
    beforeEnd header = .returns text
  length : ∀ header rest text, readHeader skipEmpty s = .returns (some (header, rest)) → TextOf header text →
    (beforeEnd header >>= lengthIn) = lengthIn text

/-- The last line of every header block at the stream ends with CR LF, and there is one. -/
def Tight (skipEmpty : Bool) (s : Stream) : Prop :=
  ∀ lines rest, Block skipEmpty s lines rest → ∃ line, lines.getLast? = some line ∧ crlf <:+ line

variable {skipEmpty : Bool} {s : Stream}

theorem TextOf.unique {header text text' : Bytes} (told : TextOf header text) (told' : TextOf header text') : text = text' := by
  have apart {text text' : Bytes} (ends : text'.getLast? ≠ some cr) : text ++ (crlf ++ crlf) ≠ text' ++ (lf :: crlf) := by
    intro same
    rw [show text ++ (crlf ++ crlf) = (text ++ [cr]) ++ (lf :: crlf) by rw [List.append_assoc]; rfl] at same
    exact ends (List.append_cancel_right same ▸ List.getLast?_concat)
  have long {text tail : Bytes} (three : 2 < tail.length) : text ++ tail ≠ crlf := by
    intro same
    have count := congrArg List.length same
    have two : crlf.length = 2 := rfl
    rw [List.length_append] at count
    omega
  generalize named : header = other at told'
  cases told with
  | lines =>
    cases told' with
    | lines => exact List.append_cancel_right named
    | bare _ ends => exact absurd named (apart ends)
    | nothing => exact absurd named (long (by decide))
  | bare _ ends =>
    cases told' with
    | lines => exact absurd named.symm (apart ends)
    | bare => exact List.append_cancel_right named
    | nothing => exact absurd named (long (by decide))
  | nothing =>
    cases told' with
    | lines => exact absurd named.symm (long (by decide))
    | bare => exact absurd named.symm (long (by decide))
    | nothing => rfl

theorem not_cr_of_lines {lines : List Bytes} (whole : ∀ line ∈ lines, IsLine lf line) (before : Bytes) :
    before ++ [cr] ≠ lines.flatten := by
  intro same
  cases List.eq_nil_or_concat lines with
  | inl none =>
    subst none
    exact List.append_ne_nil_of_right_ne_nil before (List.cons_ne_nil _ _) same
  | inr ends =>
    obtain ⟨init, last, rfl⟩ := ends
    rw [List.concat_eq_append] at whole same
    obtain ⟨body, -, rfl⟩ := whole last (List.mem_append_right _ List.mem_cons_self)
    rw [List.flatten_append, List.flatten_singleton, ← List.append_assoc] at same
    exact absurd (List.append_inj_right' same rfl) (by decide)

theorem suffix_flatten_iff {lines : List Bytes} (whole : ∀ line ∈ lines, IsLine lf line ∧ line ≠ crlf) :
    crlf ++ crlf <:+ lines.flatten ++ crlf ↔ ∃ line, lines.getLast? = some line ∧ crlf <:+ line := by
  cases List.eq_nil_or_concat lines with
  | inl none =>
    subst none
    refine ⟨fun both => absurd both.length_le (by decide), ?_⟩
    rintro ⟨line, last, -⟩
    cases last
  | inr ends =>
    obtain ⟨init, last, rfl⟩ := ends
    rw [List.concat_eq_append] at whole ⊢
    rw [List.getLast?_concat, List.flatten_append, List.flatten_singleton]
    constructor
    · rintro ⟨before, same⟩
      rw [← List.append_assoc] at same
      have joined := List.append_cancel_right same
      obtain ⟨⟨body, absent, rfl⟩, -⟩ := whole last (List.mem_append_right _ List.mem_cons_self)
      refine ⟨_, rfl, ?_⟩
      have tails : before ++ [cr] = init.flatten ++ body := by
        refine List.append_cancel_right (Eq.trans ?_ (joined.trans (List.append_assoc _ _ _).symm))
        rw [List.append_assoc]
        rfl
      cases List.eq_nil_or_concat body with
      | inl none =>
        subst none
        rw [List.append_nil] at tails
        exact absurd tails (not_cr_of_lines (fun line member => (whole line (List.mem_append_left _ member)).1) before)
      | inr split =>
        obtain ⟨body', c, rfl⟩ := split
        rw [List.concat_eq_append, ← List.append_assoc] at tails
        obtain rfl : cr = c := (List.cons.inj (List.append_inj_right' tails rfl)).1
        exact ⟨body', by rw [List.concat_eq_append, List.append_assoc]; rfl⟩
    · rintro ⟨line, same, tail⟩
      obtain rfl := Option.some.inj same
      obtain ⟨before, rfl⟩ := tail
      exact ⟨init.flatten ++ before, by simp only [List.append_assoc]⟩

theorem handsExact_iff : HandsExact skipEmpty s ↔ Tight skipEmpty s := by
  constructor
  · intro handed lines rest block
    exact (suffix_flatten_iff block.whole).mp (handed.ends _ _ (readHeader_eq_some.mpr ⟨lines, block, rfl⟩))
  · intro tight
    have ends : ∀ header rest, readHeader skipEmpty s = .returns (some (header, rest)) → crlf ++ crlf <:+ header := by
      intro header rest read
      obtain ⟨lines, block, rfl⟩ := readHeader_eq_some.mp read
      exact (suffix_flatten_iff block.whole).mpr (tight lines rest block)
    have text : ∀ header rest text, readHeader skipEmpty s = .returns (some (header, rest)) → TextOf header text →
        beforeEnd header = .returns text := by
      intro header rest text read told
      obtain ⟨own, rfl⟩ := ends header rest read
      obtain rfl := told.unique (.lines own)
      have four : (text ++ (crlf ++ crlf)).length = text.length + 4 := List.length_append
      rw [beforeEnd, if_pos (by omega), four, Nat.add_sub_cancel, List.take_left]
    refine ⟨ends, text, fun header rest own read told => ?_⟩
    rw [text header rest own read told, Checked.returns_bind]

end headers

section along

variable (P : Bool → Stream → Prop) (sha256 : Bytes → Text) (file : Nat)

/-- The property holds of every stream at which the scan of a gzip member reads a header. -/
def RecordsAlong (place : Place) : Nat → Scan → Prop
  | 0, _ => True
  | left + 1, scan =>
    P true scan.raw ∧
    (∀ o, openRecord place scan = .returns (some o) → o.readsHttp = true → P false o.block) ∧
    ∀ next, scanRecord place scan = .returns (some next) → RecordsAlong place left next

def MemberAlong (warc : Warc) (g : GzipMember) (progress : Progress) : Prop :=
  ∀ left, progress.inflated + left = maxInflated →
    RecordsAlong P (placeOf sha256 file warc progress (memberStream g left)) (maxPerMember + 1)
      { raw := memberStream g left, records := progress.records, metadata := progress.metadata }

def MembersAlong (warc : Warc) : List GzipMember → Progress → Prop
  | [], _ => True
  | g :: rest, progress =>
    MemberAlong P sha256 file warc g progress ∧
    ∀ next, scanMember sha256 file warc g progress = .returns next → MembersAlong warc rest next

def WarcsAlong : List Warc → Progress → Prop
  | [], _ => True
  | warc :: rest, progress =>
    MembersAlong P sha256 file warc warc.members { progress with offset := 0 } ∧
    ∀ next, scanWarc sha256 file warc progress = .returns next → WarcsAlong rest next

end along

section safety

variable {skipEmpty : Bool} {s : Stream} {place : Place} {scan : Scan} {sha256 : Bytes → Text} {file : Nat}

theorem readHeaderFrom_ne_panics (bytes : Bytes) (s : Stream) : readHeaderFrom skipEmpty bytes s ≠ .panics := by
  induction bytes, s using readHeaderFrom.induct skipEmpty with
  | case1 bytes s e failed =>
    rw [readHeaderFrom, failed]
    simp
  | case2 bytes s lost => exact absurd lost (readUntil_ne_panics _ s)
  | case3 s rest ended =>
    rw [readHeaderFrom, ended]
    simp
  | case4 bytes s rest some ended =>
    rw [readHeaderFrom, ended]
    dsimp only
    rw [if_pos rfl, if_neg some]
    simp
  | case5 bytes s line rest got filled blank ih =>
    rw [readHeaderFrom, got]
    dsimp only
    rwa [if_neg filled, if_pos blank]
  | case6 bytes s line rest got filled kept long =>
    rw [readHeaderFrom, got]
    dsimp only
    rw [if_neg filled, if_neg kept, if_pos long]
    simp
  | case7 bytes s rest got filled kept short =>
    rw [readHeaderFrom, got]
    dsimp only
    rw [if_neg filled, if_neg kept, if_neg short, if_pos rfl]
    simp
  | case8 bytes s line rest got filled kept short other ih =>
    rw [readHeaderFrom, got]
    dsimp only
    rwa [if_neg filled, if_neg kept, if_neg short, if_neg other]

theorem headerLines_ne_panics (out : Headers) (lines : List Text) : headerLines out lines ≠ .panics := by
  induction lines generalizing out with
  | nil => nofun
  | cons line lines ih =>
    intro lost
    obtain first | ⟨next, -, rest⟩ := Checked.bind_eq_panics.mp lost
    · unfold headerLine at first
      split at first
      · cases first
      · split at first
        · cases first
        · split at first <;> cases first
    · exact ih next rest

theorem headers_sound (bytes : Bytes) : (headers bytes).Sound fun _ => True := by
  refine Checked.Sound.ensure.bind fun _ _ => ?_
  refine Checked.Sound.ofOption.bind fun text _ => ?_
  split
  · exact trivial
  · exact (Checked.Sound.trivially (headerLines_ne_panics _ _)).bind fun _ _ => trivial

theorem contentLength_sound (h : Headers) : (contentLength h).Sound fun _ => True := by
  refine Checked.Sound.ofOption.bind fun text _ => ?_
  refine Checked.Sound.ofOption.bind fun size _ => ?_
  exact Checked.Sound.ensure.bind fun _ _ => trivial

theorem normalizeSha256_sound (value : Text) : (normalizeSha256 value).Sound fun _ => True := by
  refine Checked.Sound.ofOption.bind fun ⟨algorithm, encoded⟩ _ => ?_
  refine Checked.Sound.ensure.bind fun _ _ => ?_
  split
  · exact trivial
  · refine Checked.Sound.ensure.bind fun _ _ => ?_
    refine Checked.Sound.ofOption.bind fun ⟨bytes, acc⟩ _ => ?_
    exact Checked.Sound.ensure.bind fun _ _ => trivial

theorem checkDigest_sound (expected : Option Text) (actual : Text) (error : String) :
    (checkDigest expected actual error).Sound fun _ => True := by
  unfold checkDigest
  split
  · exact trivial
  · exact (normalizeSha256_sound _).bind fun _ _ => Checked.Sound.ensure.mono fun _ _ => trivial

theorem streamHash_sound (s : Stream) (limit : Nat) : (streamHash sha256 s limit).Sound fun _ => True := by
  unfold streamHash
  split
  · exact trivial
  · split <;> exact trivial

theorem entityHash_sound (s : Stream) (h : Headers) : (entityHash sha256 s h).Sound fun _ => True := by
  unfold entityHash
  split
  · split
    · exact trivial
    · exact (chunksFrom_sound 0 0 [] s).bind fun _ _ => trivial
  · exact streamHash_sound s maxBody

/-- A header that is tight is handed over without a panic. -/
theorem beforeEnd_sound (tight : Tight skipEmpty s) {header : Bytes} {rest : Stream}
    (read : readHeader skipEmpty s = .returns (some (header, rest))) : (beforeEnd header).Sound fun _ => True := by
  have ends := (handsExact_iff.mpr tight).ends header rest read
  have long := ends.length_le
  have four : (crlf ++ crlf).length = 4 := rfl
  rw [beforeEnd, if_pos (by omega)]
  exact trivial

theorem readHeader_sound : (readHeader skipEmpty s).Sound fun read => readHeader skipEmpty s = .returns read :=
  .self (readHeaderFrom_ne_panics [] s)

theorem openRecord_sound (tight : Tight true scan.raw) : (openRecord place scan).Sound fun _ => True := by
  refine readHeader_sound.bind fun read same => ?_
  split
  · exact trivial
  · rename_i header raw
    refine Checked.Sound.ensure.bind fun _ _ => ?_
    refine Checked.Sound.ensure.bind fun _ _ => ?_
    refine (beforeEnd_sound tight same).bind fun text _ => ?_
    refine (headers_sound text).bind fun ⟨version, h⟩ _ => ?_
    refine Checked.Sound.ensure.bind fun _ _ => ?_
    refine Checked.Sound.ensure.bind fun _ _ => ?_
    exact (contentLength_sound h).bind fun _ _ => trivial

theorem length_of_header {header : Bytes} {rest : Stream} (read : readHeader skipEmpty s = .returns (some (header, rest))) :
    header.length ≤ s.bytes.length := by
  obtain ⟨lines, block, rfl⟩ := readHeader_eq_some.mp read
  obtain ⟨blanks, split, -⟩ := block.split
  rw [split]
  simp only [List.length_append]
  omega

theorem readHttp_sound {o : Opened} (tight : Tight false o.block) : (readHttp sha256 o).Sound fun _ => True := by
  refine readHeader_sound.bind fun read same => ?_
  refine Checked.Sound.ofOption.bind fun ⟨http, rest⟩ found => ?_
  rw [found] at same
  refine (beforeEnd_sound tight same).bind fun text _ => ?_
  refine (headers_sound text).bind fun ⟨line, h⟩ _ => ?_
  refine Checked.Sound.ensure.bind fun _ _ => ?_
  refine Checked.Sound.ofOption.bind fun word _ => ?_
  refine Checked.Sound.ofOption.bind fun status _ => ?_
  have short : http.length ≤ o.size := by
    refine Nat.le_trans (length_of_header same) ?_
    exact List.length_take_le _ _
  refine (Checked.Sound.minus short).bind fun payloadLength _ => ?_
  have hashed : (payloadHash sha256 o rest h).Sound fun _ => True := by
    unfold payloadHash
    split
    · split <;> exact trivial
    · exact entityHash_sound rest h
  exact hashed.bind fun _ _ => trivial

theorem readBody_sound {o : Opened} (tight : o.readsHttp = true → Tight false o.block) :
    (readBody sha256 o).Sound fun _ => True := by
  unfold readBody
  split
  · rename_i reads
    exact readHttp_sound (tight reads)
  · exact (streamHash_sound _ _).bind fun _ _ => trivial

theorem closeRecord_sound (o : Opened) (body : Body) : (closeRecord place scan o body).Sound fun _ => True := by
  refine Checked.Sound.ensure.bind fun _ _ => ?_
  refine Checked.Sound.ensure.bind fun _ _ => ?_
  refine (checkDigest_sound _ _ _).bind fun _ _ => ?_
  exact (checkDigest_sound _ _ _).bind fun _ _ => trivial

theorem scanRecord_sound (tight : Tight true scan.raw)
    (block : ∀ o, openRecord place scan = .returns (some o) → o.readsHttp = true → Tight false o.block) :
    (scanRecord place scan).Sound fun _ => True := by
  have safe : (openRecord place scan).Sound fun _ => True := openRecord_sound tight
  have opened := Checked.Sound.self (Checked.Sound.iff.mp safe).1
  refine opened.bind fun read same => ?_
  split
  · exact trivial
  · rename_i o
    exact (readBody_sound (block o same)).bind fun body _ => (closeRecord_sound o body).bind fun _ _ => trivial

theorem scanRecords_sound (left : Nat) (along : RecordsAlong Tight place left scan) :
    (scanRecords place left scan).Sound fun _ => True := by
  induction left generalizing scan with
  | zero => exact trivial
  | succ left ih =>
    obtain ⟨tight, block, later⟩ := along
    have stepped := Checked.Sound.self (Checked.Sound.iff.mp (scanRecord_sound tight block)).1
    refine stepped.bind fun next same => ?_
    split
    · exact trivial
    · rename_i next
      exact ih (later next same)

theorem counted_length (limit count : Nat) (failure : Option String) (chunks : List Bytes) (small : count ≤ limit) :
    count + (counted limit count failure chunks).bytes.length ≤ limit := by
  induction chunks generalizing count with
  | nil => exact small
  | cons chunk rest ih =>
    rw [counted]
    split
    · exact small
    · rename_i fits
      have later := ih (count + chunk.length) (Nat.not_lt.mp fits)
      dsimp only
      rw [List.length_append]
      omega

theorem scanMember_sound {warc : Warc} {g : GzipMember} {progress : Progress} (small : progress.inflated ≤ maxInflated)
    (along : MemberAlong Tight sha256 file warc g progress) :
    (scanMember sha256 file warc g progress).Sound fun next => next.inflated ≤ maxInflated := by
  refine (Checked.Sound.minus small).bind fun left same => ?_
  refine (scanRecords_sound _ (along left (by omega))).bind fun scan _ => ?_
  have bound := counted_length (min left (maxBody + 2 * maxHeader)) 0 g.failure g.chunks (Nat.zero_le _)
  have whole : progress.inflated + (memberStream g left).bytes.length ≤ maxInflated := by
    rw [memberStream]
    omega
  have limit : maxInflated = 68719476736 := rfl
  refine (Checked.Sound.fits (by omega)).bind fun _ _ => ?_
  refine Checked.Sound.ensure.bind fun _ _ => ?_
  exact Checked.Sound.ensure.bind fun _ _ => whole

theorem scanMembers_sound {warc : Warc} (members : List GzipMember) {progress : Progress}
    (small : progress.inflated ≤ maxInflated) (along : MembersAlong Tight sha256 file warc members progress) :
    (scanMembers sha256 file warc members progress).Sound fun next => next.inflated ≤ maxInflated := by
  induction members generalizing progress with
  | nil =>
    unfold scanMembers
    split
    · exact trivial
    · exact small
  | cons g rest ih =>
    obtain ⟨first, later⟩ := along
    have sound := Checked.Sound.iff.mp (scanMember_sound small first)
    exact (Checked.Sound.self sound.1).bind fun next same => ih (sound.2 next same) (later next same)

theorem scanWarcs_sound (warcs : List Warc) {progress : Progress} (small : progress.inflated ≤ maxInflated)
    (along : WarcsAlong Tight sha256 file warcs progress) :
    (scanWarcs sha256 file warcs progress).Sound fun _ => True := by
  induction warcs generalizing progress with
  | nil => exact trivial
  | cons warc rest ih =>
    obtain ⟨first, later⟩ := along
    have scanned : (scanWarc sha256 file warc progress).Sound fun next => next.inflated ≤ maxInflated :=
      Checked.Sound.ensure.bind fun _ _ => scanMembers_sound _ small first
    have sound := Checked.Sound.iff.mp scanned
    exact (Checked.Sound.self sound.1).bind fun next same => ih (sound.2 next same) (later next same)

end safety

/-- A header that is read ends in two line ends, and its whole text is handed on with
the length it gives, exactly if its last line ends with CR LF; and the scan of an
archive never panics and is handed the whole text of every header, exactly if every
header that it comes to is of that kind. -/
theorem framing_exact_iff (sha256 : Bytes → Text) (file : Nat) (warcs : List Warc) :
    (∀ skipEmpty s, HandsExact skipEmpty s ↔ Tight skipEmpty s) ∧
      ((scanWarcs sha256 file warcs {} ≠ .panics ∧ WarcsAlong HandsExact sha256 file warcs {}) ↔
        WarcsAlong Tight sha256 file warcs {}) := by
  refine ⟨fun _ _ => handsExact_iff, ?_⟩
  have same : HandsExact = Tight := funext fun _ => funext fun _ => propext handsExact_iff
  rw [same]
  refine ⟨And.right, fun along => ⟨?_, along⟩⟩
  exact (Checked.Sound.iff.mp (scanWarcs_sound warcs (Nat.zero_le _) along)).1

section samples

def versionLine : Text := "WARC/1.0".toList
def typeLine : Text := "WARC-Type: response".toList
def lengthLine (length : String) : Text := "Content-Length: ".toList ++ length.toList

/-- A response record whose block is a blank line. -/
def blankRecord : Bytes := utf8 (versionLine ++ lineEnd ++ (typeLine ++ lineEnd) ++ (lengthLine "2" ++ lineEnd) ++ lineEnd)

def blankWarc : Warc where
  name := "archive/data.warc.gz".toList
  start := 0
  length := 80
  members := [{ chunks := [blankRecord ++ crlf], span := 80 }]

def blankFields : Headers := Keyed.put (Keyed.put .empty ("warc-type".toList, "response".toList)) ("content-length".toList, ['2'])

def blankOpened : Opened := { headers := blankFields, size := 2, raw := { bytes := crlf }, metadata := blankRecord.length }

theorem readHeader_blankRecord : readHeader true { bytes := blankRecord ++ crlf } = .returns (some (blankRecord, { bytes := crlf })) := by
  refine readHeader_eq_some.mpr ⟨[utf8 (versionLine ++ lineEnd), utf8 (typeLine ++ lineEnd), utf8 (lengthLine "2" ++ lineEnd)],
    ⟨⟨0, rfl, fun _ => rfl⟩, rfl, ?_, by decide, fun _ => List.cons_ne_nil _ _⟩, by decide⟩
  simp only [List.forall_mem_cons, List.not_mem_nil, false_imp_iff, implies_true, and_true]
  exact ⟨line_of_text (by decide) (by decide), line_of_text (by decide) (by decide), line_of_text (by decide) (by decide)⟩

theorem headers_blankRecord : headers (blankRecord.take (blankRecord.length - 4)) = .returns (versionLine, blankFields) :=
  headers_eq_returns.mpr ⟨by decide, versionLine ++ lineEnd ++ (typeLine ++ lineEnd) ++ lengthLine "2",
    [typeLine, lengthLine "2"], by decide, by decide, rfl⟩

theorem readHeader_blank : readHeader false { bytes := crlf } = .returns (some (crlf, { bytes := [] })) :=
  readHeader_eq_some.mpr ⟨[], ⟨⟨0, rfl, fun _ => rfl⟩, rfl, nofun, by decide, nofun⟩, rfl⟩

theorem readHttp_blank (sha256 : Bytes → Text) : readHttp sha256 blankOpened = .panics := by
  have block : blankOpened.block = { bytes := crlf } := rfl
  rw [readHttp, block, readHeader_blank]
  rfl

theorem openRecord_blank (place : Place) :
    openRecord place { raw := { bytes := blankRecord ++ crlf }, records := [], metadata := 0 } = .returns (some blankOpened) := by
  have cut : beforeEnd blankRecord = .returns (blankRecord.take (blankRecord.length - 4)) := rfl
  rw [openRecord, readHeader_blankRecord, Checked.returns_bind]
  dsimp only
  rw [Checked.ensure, if_pos (by rw [List.length_nil, Nat.zero_sub]; decide), Checked.returns_bind, Checked.ensure,
    if_pos (by decide), Checked.returns_bind, cut, Checked.returns_bind, headers_blankRecord]
  rfl

/-- A header whose length line ends in LF alone. -/
def bareText : Bytes := utf8 (versionLine ++ lineEnd ++ lengthLine "12")

def bareHeader : Bytes := bareText ++ (lf :: crlf)

theorem readHeader_bare : readHeader true { bytes := bareHeader } = .returns (some (bareHeader, { bytes := [] })) := by
  refine readHeader_eq_some.mpr ⟨[utf8 (versionLine ++ lineEnd), utf8 (lengthLine "12" ++ ['\n'])],
    ⟨⟨0, by decide, fun _ => rfl⟩, rfl, ?_, by decide, fun _ => List.cons_ne_nil _ _⟩, by decide⟩
  simp only [List.forall_mem_cons, List.not_mem_nil, false_imp_iff, implies_true, and_true]
  exact ⟨line_of_text (by decide) (by decide), ⟨utf8 (lengthLine "12"), by decide, by decide⟩, by decide⟩

theorem headers_length {length : String} (plain : splitCrlf (versionLine ++ lineEnd ++ lengthLine length) = [versionLine, lengthLine length])
    (short : (utf8 (versionLine ++ lineEnd ++ lengthLine length)).length ≤ maxHeader) {h : Headers}
    (read : headerLines .empty [lengthLine length] = .returns h) :
    headers (utf8 (versionLine ++ lineEnd ++ lengthLine length)) = .returns (versionLine, h) :=
  headers_eq_returns.mpr ⟨short, _, [lengthLine length], rfl, plain, read⟩

theorem lengthIn_of_headers {text : Bytes} {version : Text} {h : Headers} (read : headers text = .returns (version, h)) :
    lengthIn text = contentLength h := by
  rw [lengthIn, read]
  rfl

/-- An HTTP header that starts with a blank line is a panic, and a length line that ends
in LF alone loses its last digit. -/
theorem loose_headers_are_cut : scanWarcs (fun _ => emptyDigest) 0 [blankWarc] {} = .panics ∧
    ∃ header rest text, readHeader true { bytes := bareHeader } = .returns (some (header, rest)) ∧ TextOf header text ∧
      lengthIn text = .returns 12 ∧ (beforeEnd header >>= lengthIn) = .returns 1 := by
  have scanned (place : Place) : scanRecords place (maxPerMember + 1)
      { raw := { bytes := blankRecord ++ crlf }, records := [], metadata := 0 } = .panics := by
    rw [scanRecords, scanRecord, openRecord_blank place, Checked.returns_bind]
    dsimp only
    have reads : blankOpened.readsHttp = true := by decide
    rw [readBody, if_pos reads, readHttp_blank]
    rfl
  constructor
  · have stream : memberStream { chunks := [blankRecord ++ crlf], span := 80 } maxInflated = { bytes := blankRecord ++ crlf } := rfl
    have member : scanMember (fun _ => emptyDigest) 0 blankWarc { chunks := [blankRecord ++ crlf], span := 80 } {} = .panics := by
      have left : (Checked.minus maxInflated 0 : Result Nat) = .returns maxInflated := rfl
      rw [scanMember, left, Checked.returns_bind, stream]
      dsimp only
      rw [scanned]
      rfl
    have spanned : (Checked.ensure (blankWarc.start + blankWarc.length < 2 ^ 64) "Invalid WARC ZIP span" : Result Unit) =
        .returns () := rfl
    rw [scanWarcs, scanWarc, spanned, Checked.returns_bind]
    show (scanMembers _ 0 blankWarc [{ chunks := [blankRecord ++ crlf], span := 80 }] {} >>= _) = _
    rw [scanMembers, member]
    rfl
  · refine ⟨bareHeader, { bytes := [] }, bareText, readHeader_bare, .bare bareText (by decide), ?_, ?_⟩
    · have read := @headers_length "12" (by decide) (by decide) _ rfl
      exact (lengthIn_of_headers read).trans rfl
    · have read := @headers_length "1" (by decide) (by decide) _ rfl
      have cut : beforeEnd bareHeader = .returns (utf8 (versionLine ++ lineEnd ++ lengthLine "1")) := rfl
      rw [cut, Checked.returns_bind]
      exact (lengthIn_of_headers read).trans rfl

end samples

end NixHomeServer.Browsertrix.Engine
