import NixHomeServer.Browsertrix.Entity

/-! The chunks of a body, as one decoder accepts them and the other reads them. -/
namespace NixHomeServer.Browsertrix.Engine

open NixHomeServer.Library

section sizes

/-- A chunk-size line that white space precedes, or follows where no extension does. -/
def Padded (line : Text) : Prop :=
  line.head?.any isWhitespace = true ∨ ';' ∉ line ∧ line.getLast?.any isWhitespace = true

instance (line : Text) : Decidable (Padded line) := inferInstanceAs (Decidable (_ ∨ _))

variable {line : Text} {size bound : Nat}

theorem solid_of_parse {text : Text} (read : parseUnsigned 16 bound text = some size) {c : Char} (member : c ∈ text) :
    isWhitespace c = false := by
  obtain rfl | ⟨d, digit⟩ := (chars_of_parseUnsigned read).2 c member
  · decide
  · have range := alphanumeric_of_digitOf digit
    simp only [isWhitespace, Bool.or_eq_false_iff, Bool.and_eq_false_iff, decide_eq_false_iff_not, beq_eq_false_iff_ne]
    omega

theorem trim_crlf (line : Text) : trim (line ++ ['\r', '\n']) = trim line :=
  trimBy_append_blank line (forall_of_all (by decide))

theorem dropWhile_of_head (solid : line.head?.any isWhitespace = false) : line.dropWhile isWhitespace = line := by
  cases line with
  | nil => rfl
  | cons c rest =>
    rw [List.head?_cons, Option.any_some] at solid
    rw [List.dropWhile_cons_of_neg (by simp only [solid, Bool.false_eq_true, not_false_eq_true])]

theorem rdropWhile_of_last (solid : line.getLast?.any isWhitespace = false) : line.rdropWhile isWhitespace = line := by
  rw [List.rdropWhile, dropWhile_of_head (by rwa [List.head?_reverse]), List.reverse_reverse]

theorem firstPart_trim (unpadded : ¬ Padded line) : firstPart ';' (trim line) = firstPart ';' line := by
  rw [Padded, not_or, Bool.not_eq_true, not_and, Bool.not_eq_true] at unpadded
  obtain ⟨head, last⟩ := unpadded
  by_cases extended : ';' ∈ line
  · obtain ⟨left, right, rfl, absent⟩ := List.eq_append_cons_of_mem extended
    have kept : left.dropWhile isWhitespace = left := by
      cases left with
      | nil => rfl
      | cons c rest => exact dropWhile_of_head head
    rw [trim, trimBy_append_solid left right (by decide), kept, firstPart_append ';' _ absent, firstPart_append ';' _ absent]
  · rw [trim, trimBy, dropWhile_of_head head, rdropWhile_of_last (last extended)]

/-- A padded size is none to the decoder that does not trim. -/
theorem parse_padded (padded : Padded line) : parseUnsigned 16 bound (firstPart ';' line) = none := by
  refine Option.eq_none_iff_forall_ne_some.mpr fun size read => ?_
  obtain head | ⟨single, last⟩ := padded
  · cases line with
    | nil => cases head
    | cons c rest =>
      have blank : isWhitespace c = true := head
      have other : c ≠ ';' := by
        rintro rfl
        exact absurd blank (by decide)
      have first : c ∈ firstPart ';' (c :: rest) := by
        rw [firstPart_eq, List.takeWhile_cons, if_pos (decide_eq_true other)]
        exact List.mem_cons_self
      exact absurd blank (by rw [solid_of_parse read first]; exact Bool.false_ne_true)
  · rw [firstPart_of_not_mem single] at read
    obtain ⟨c, same, blank⟩ := (Option.any_eq_true isWhitespace _).mp last
    have solid := solid_of_parse read (List.mem_of_getLast? same)
    exact absurd blank (by rw [solid]; exact Bool.false_ne_true)

end sizes

section grammar

/-- A payload of chunks: their size lines without the line ends, and the data they hold. -/
inductive Chunks : Bytes → List Text → Bytes → Prop
  | last {line : Text} {trailers : List Bytes} (plain : lf ∉ utf8 line) (sized : chunkSize (utf8 line ++ crlf) = .returns 0)
      (whole : ∀ trailer ∈ trailers, IsLine lf trailer ∧ crlf.isSuffixOf trailer = true ∧ trailer ≠ crlf)
      (short : trailers.flatten.length + 2 ≤ maxHeader) :
      Chunks (utf8 line ++ (crlf ++ (trailers.flatten ++ crlf))) [line] []
  | chunk {line : Text} {data rest : Bytes} {lines : List Text} {others : Bytes} (plain : lf ∉ utf8 line)
      (sized : chunkSize (utf8 line ++ crlf) = .returns data.length) (some : data ≠ [])
      (next : Chunks rest lines others) :
      Chunks (utf8 line ++ (crlf ++ (data ++ (crlf ++ rest)))) (line :: lines) (data ++ others)

variable {payload data : Bytes} {lines : List Text}

theorem Chunks.length_le (chunks : Chunks payload lines data) : data.length ≤ payload.length := by
  induction chunks with
  | last => exact Nat.zero_le _
  | chunk plain sized some next ih =>
    simp only [List.length_append]
    omega

theorem suffix_iff {line mark : Bytes} : mark.isSuffixOf line = true ↔ ∃ body, line = body ++ mark := by
  rw [List.isSuffixOf_iff_suffix]
  exact ⟨fun ⟨body, same⟩ => ⟨body, same.symm⟩, fun ⟨body, same⟩ => ⟨body, same.symm⟩⟩

theorem utf8_crlf : crlf = utf8 ['\r', '\n'] := by decide

/-- A size line, by the text before its end. -/
theorem chunkSize_sound (line : Bytes) : (chunkSize line).Sound fun size =>
    line.length ≤ maxHeader ∧ ∃ text, line = utf8 text ++ crlf ∧
      parseUnsigned 16 (2 ^ 64) (firstPart ';' (trim text)) = some size := by
  refine Checked.Sound.ensure.bind fun _ ⟨short, ends⟩ => ?_
  refine Checked.Sound.ofOption.bind fun text decoded => ?_
  refine Checked.Sound.ofOption.mono fun size read => ⟨short, ?_⟩
  obtain ⟨body, rfl⟩ := suffix_iff.mp ends
  have encoded := fromUtf8_eq_some.mp decoded
  obtain ⟨left, rfl, rfl⟩ := split_of_ascii (by decide) (encoded.trans (congrArg (body ++ ·) utf8_crlf))
  rw [trim_crlf] at read
  exact ⟨left, rfl, read⟩

theorem readUntil_whole {limit : Nat} {s rest : Stream} {line : Bytes} (read : readUntil limit s = .returns (line, rest))
    (marked : lf ∈ line) : IsLine lf line ∧ s.bytes = line ++ rest.bytes ∧ rest.failure = s.failure := by
  obtain ⟨own, rfl⟩ := readUntil_eq_returns read
  have joined := lineOf_append_drop lf limit s.bytes
  rw [← own] at joined
  obtain whole | ⟨absent, -⟩ := lineOf_cases lf limit s.bytes
  · rw [← own] at whole
    exact ⟨whole, joined.symm, rfl⟩
  · exact absurd (own ▸ marked) absent

theorem trailersFrom_sound (trailer : Nat) (s : Stream) : (trailersFrom trailer s).Sound fun rest =>
    ∃ trailers : List Bytes, (∀ t ∈ trailers, IsLine lf t ∧ crlf.isSuffixOf t = true ∧ t ≠ crlf) ∧ rest.failure = s.failure ∧
      s.bytes = trailers.flatten ++ (crlf ++ rest.bytes) ∧ trailer + trailers.flatten.length + 2 ≤ maxHeader := by
  induction trailer, s using trailersFrom.induct with
  | case1 trailer s e failed =>
    rw [trailersFrom, failed]
    exact trivial
  | case2 trailer s lost => exact absurd lost (readUntil_ne_panics _ s)
  | case3 trailer s line rest got wrong =>
    rw [trailersFrom, got]
    dsimp only
    rw [if_pos wrong]
    exact trivial
  | case4 trailer s rest got right =>
    rw [trailersFrom, got]
    dsimp only
    rw [if_neg right, if_pos rfl]
    obtain ⟨-, split, same⟩ := readUntil_whole got (by decide)
    have room : ¬trailer + 2 > maxHeader := fun long => right (.inl long)
    exact ⟨[], nofun, same, split, Nat.not_lt.mp room⟩
  | case5 trailer s line rest got right other ih =>
    rw [trailersFrom, got]
    dsimp only
    rw [if_neg right, if_neg other]
    obtain ⟨-, ends⟩ := not_or.mp right
    have ends := not_not.mp ends
    obtain ⟨body, tail⟩ := suffix_iff.mp ends
    have marked : lf ∈ line := by
      rw [tail]
      exact List.mem_append_right body (by decide)
    obtain ⟨whole, split, same⟩ := readUntil_whole got marked
    refine ih.mono fun last ⟨trailers, each, failure, joined, room⟩ => ?_
    refine ⟨line :: trailers, List.forall_mem_cons.mpr ⟨⟨whole, ends, other⟩, each⟩, failure.trans same, ?_, ?_⟩
    · rw [split, joined, List.flatten_cons, List.append_assoc]
    · rw [List.flatten_cons, List.length_append]
      omega

theorem ended_sound (s : Stream) : s.ended.Sound fun ended => ended = true → s.bytes = [] := by
  unfold Stream.ended
  split
  · exact nofun
  · rename_i empty
    split
    · exact trivial
    · exact fun _ => not_not.mp empty

theorem exactly_sound (s : Stream) (n : Nat) (error : String) :
    (s.exactly n error).Sound fun got => n ≤ s.bytes.length ∧ got = (s.bytes.take n, s.skip n) := by
  unfold Stream.exactly
  split
  · rename_i enough
    exact ⟨enough, rfl⟩
  · exact trivial

/-- A size line that was read, by the text before its end. -/
theorem size_line {s rest : Stream} {line : Bytes} {size : Nat} (got : readUntil (maxHeader + 1) s = .returns (line, rest))
    (sized : chunkSize line = .returns size) : ∃ text, line = utf8 text ++ crlf ∧ lf ∉ utf8 text ∧
      s.bytes = utf8 text ++ (crlf ++ rest.bytes) := by
  have sound := chunkSize_sound line
  rw [sized] at sound
  obtain ⟨-, text, rfl, -⟩ := sound
  obtain ⟨⟨body, absent, ends⟩, split, -⟩ := readUntil_whole got (List.mem_append_right _ (by decide))
  rw [List.append_assoc] at split
  obtain rfl : utf8 text ++ [cr] = body := by
    refine List.append_cancel_right (Eq.trans ?_ ends)
    rw [List.append_assoc]
    rfl
  exact ⟨text, rfl, fun member => absent (List.mem_append_left _ member), split⟩

theorem chunksFrom_sound (chunks total : Nat) (hashed : Bytes) (s : Stream) :
    (chunksFrom chunks total hashed s).Sound fun out =>
      ∃ lines data, Chunks s.bytes lines data ∧ out = hashed ++ data := by
  induction chunks, total, hashed, s using chunksFrom.induct with
  | case1 chunks total hashed s many =>
    rw [chunksFrom, if_pos many]
    exact trivial
  | case2 chunks total hashed s few e failed =>
    rw [chunksFrom, if_neg few, failed]
    exact trivial
  | case3 chunks total hashed s few lost => exact absurd lost (readUntil_ne_panics _ s)
  | case4 chunks total hashed s few line rest got e failed =>
    rw [chunksFrom, if_neg few, got]
    dsimp only
    rw [failed]
    exact trivial
  | case5 chunks total hashed s few line rest got lost =>
    have sound := chunkSize_sound line
    rw [lost] at sound
    exact sound.elim
  | case6 chunks total hashed s few line rest got sized =>
    rw [chunksFrom, if_neg few, got]
    dsimp only
    rw [sized]
    dsimp only
    rw [if_pos rfl]
    refine (trailersFrom_sound 0 rest).bind fun last ⟨trailers, whole, _, joined, short⟩ => ?_
    refine (ended_sound last).bind fun ended empty => ?_
    refine Checked.Sound.ensure.bind fun _ done => ?_
    obtain ⟨text, rfl, plain, split⟩ := size_line got sized
    rw [empty done, List.append_nil] at joined
    rw [Nat.zero_add] at short
    refine ⟨[text], [], ?_, (List.append_nil hashed).symm⟩
    rw [split, joined]
    exact .last plain sized whole short
  | case7 chunks total hashed s few line rest got size sized some ih =>
    rw [chunksFrom, if_neg few, got]
    dsimp only
    rw [sized]
    dsimp only
    rw [if_neg some]
    refine Checked.Sound.ensure.bind fun _ _ => ?_
    refine (exactly_sound rest size _).bind fun ⟨data, rest'⟩ ⟨enough, same⟩ => ?_
    cases same
    refine (exactly_sound (rest.skip size) 2 _).bind fun ⟨delimiter, _⟩ ⟨_, same⟩ => ?_
    cases same
    refine Checked.Sound.ensure.bind fun _ delimited => ?_
    obtain ⟨text, rfl, plain, split⟩ := size_line got sized
    refine (ih (rest.bytes.take size)).mono fun out ⟨lines, others, next, joined⟩ => ?_
    have measured : (rest.bytes.take size).length = size := by
      rw [List.length_take, Nat.min_eq_left enough]
    have marked : crlf ++ rest.bytes.drop (size + 2) = rest.bytes.drop size := by
      rw [← List.drop_drop, ← delimited]
      exact List.take_append_drop 2 _
    have parts : s.bytes =
        utf8 text ++ (crlf ++ (rest.bytes.take size ++ (crlf ++ rest.bytes.drop (size + 2)))) := by
      rw [marked, List.take_append_drop]
      exact split
    refine ⟨text :: lines, rest.bytes.take size ++ others, ?_, by rw [joined, List.append_assoc]⟩
    rw [parts]
    refine .chunk plain (by rw [measured]; exact sized) (fun none => some ?_) next
    rw [← measured, none, List.length_nil]

theorem exactly_append (data rest : Bytes) (error : String) :
    Stream.exactly { bytes := data ++ rest } data.length error = .returns (data, { bytes := rest }) := by
  rw [Stream.exactly, if_pos (by rw [List.length_append]; exact Nat.le_add_right _ _), Stream.skip, List.take_left,
    List.drop_left]

/-- Trailers within the limit are read up to the blank line. -/
theorem trailersFrom_of_lines {trailers : List Bytes} (whole : ∀ t ∈ trailers, IsLine lf t ∧ crlf.isSuffixOf t = true ∧ t ≠ crlf)
    (trailer : Nat) (short : trailer + trailers.flatten.length + 2 ≤ maxHeader) (rest : Bytes) :
    trailersFrom trailer { bytes := trailers.flatten ++ (crlf ++ rest) } = .returns { bytes := rest } := by
  induction trailers generalizing trailer with
  | nil =>
    have room : ¬ (trailer + crlf.length > maxHeader ∨ ¬ crlf.isSuffixOf crlf = true) := by
      rintro (long | odd)
      · exact absurd short (Nat.not_le.mpr long)
      · exact odd (by decide)
    rw [trailersFrom, readUntil_line isLine_crlf (by decide) rfl]
    dsimp only
    rw [if_neg room, if_pos rfl]
  | cons line trailers ih =>
    obtain ⟨⟨own, ends, other⟩, others⟩ := List.forall_mem_cons.mp whole
    rw [List.flatten_cons, List.length_append] at short
    have room : ¬ (trailer + line.length > maxHeader ∨ ¬ crlf.isSuffixOf line = true) := by
      rintro (long | odd)
      · omega
      · exact odd ends
    rw [List.flatten_cons, List.append_assoc, trailersFrom, readUntil_line own (by omega) rfl]
    dsimp only
    rw [if_neg room, if_neg other]
    exact ih others _ (by omega)

/-- A payload of chunks is accepted, within the limits. -/
theorem chunksFrom_of_chunks (made : Chunks payload lines data) (chunks total : Nat) (hashed : Bytes)
    (few : chunks + lines.length ≤ maxChunks) (small : total + data.length ≤ maxBody) :
    chunksFrom chunks total hashed { bytes := payload } = .returns (hashed ++ data) := by
  have read {line tail : Bytes} {size : Nat} (plain : lf ∉ line) (sized : chunkSize (line ++ crlf) = .returns size) :
      readUntil (maxHeader + 1) { bytes := line ++ (crlf ++ tail) } = .returns (line ++ crlf, { bytes := tail }) := by
    have sound := chunkSize_sound (line ++ crlf)
    rw [sized] at sound
    have short := sound.1
    refine readUntil_line ⟨line ++ [cr], fun member => ?_, ?_⟩ (by omega) (List.append_assoc ..).symm
    · exact (List.mem_append.mp member).elim plain (by decide)
    · rw [List.append_assoc]
      rfl
  induction made generalizing chunks total hashed with
  | last plain sized whole short =>
    rw [List.length_singleton] at few
    rw [chunksFrom, if_neg (Nat.not_lt.mpr few), read plain sized]
    dsimp only
    rw [sized]
    dsimp only
    have trailers := trailersFrom_of_lines whole 0 (by omega) []
    rw [List.append_nil] at trailers
    rw [if_pos rfl, trailers, List.append_nil]
    rfl
  | @chunk line data rest lines others plain sized some next ih =>
    rw [List.length_cons] at few
    rw [List.length_append] at small
    have positive := List.length_pos_of_ne_nil some
    have limit : maxBody = 2147549184 := rfl
    rw [chunksFrom, if_neg (by omega), read plain sized]
    dsimp only
    rw [sized]
    dsimp only
    rw [if_neg (by omega), Checked.ensure, if_pos (by omega), Checked.returns_bind, exactly_append, Checked.returns_bind]
    have delimiter : Stream.exactly { bytes := crlf ++ rest } 2 "failed to fill whole buffer" =
        .returns (crlf, { bytes := rest }) := exactly_append crlf rest _
    dsimp only
    rw [delimiter, Checked.returns_bind]
    dsimp only
    rw [Checked.ensure, if_pos rfl, Checked.returns_bind]
    have skipped : Stream.skip { bytes := data ++ (crlf ++ rest) } (data.length + 2) = { bytes := rest } := by
      rw [Stream.skip, ← List.drop_drop, List.drop_left]
      rfl
    rw [skipped, ih _ _ _ (by omega) (by omega), List.append_assoc]

end grammar

section decoding

variable {decoded tail : Bytes} {line : Text}

theorem positionOf_crlf {body : Bytes} (plain : lf ∉ body) (rest : Bytes) :
    positionOf crlf (body ++ (crlf ++ rest)) = some body.length := by
  induction body with
  | nil => rfl
  | cons b body ih =>
    rw [List.mem_cons, not_or] at plain
    have other : crlf.isPrefixOf (b :: (body ++ (crlf ++ rest))) = false := by
      refine Bool.eq_false_iff.mpr fun starts => ?_
      obtain ⟨after, same⟩ := List.isPrefixOf_iff_prefix.mp starts
      have second := (List.cons.inj same).2
      cases body with
      | nil => exact absurd (List.cons.inj second).1 (by decide)
      | cons c body => exact plain.2 ((List.cons.inj second).1 ▸ List.mem_cons_self)
    rw [List.cons_append, positionOf, other, ih plain.2]
    rfl

/-- The decoder at a size line, by what it reads the size as. -/
theorem decodeFrom_line (plain : lf ∉ utf8 line) :
    decodeFrom decoded (utf8 line ++ (crlf ++ tail)) =
      match parseUnsigned 16 (2 ^ 64) (firstPart ';' line) with
      | none => .fails "Invalid chunk size"
      | some size =>
        if size = 0 then
          if tail ≠ crlf ∧ (¬ (crlf ++ crlf).isSuffixOf tail ∨ tail.length > 65536) then .fails "Invalid chunk trailer"
          else .returns decoded
        else (do
          .ensure (size ≤ tail.length ∧ size ≤ maxRecord - decoded.length) "HTTP chunk limit/truncation"
          .ensure ((tail.drop size).take 2 = crlf) "Invalid HTTP chunk delimiter"
          decodeFrom (decoded ++ tail.take size) (tail.drop (size + 2))) := by
  have dropped (n : Nat) : (utf8 line ++ (crlf ++ tail)).drop ((utf8 line).length + 2 + n) = tail.drop n := by
    rw [Nat.add_assoc, ← List.drop_drop, List.drop_left, ← List.drop_drop]
    rfl
  have first := dropped 0
  rw [Nat.add_zero, List.drop_zero] at first
  rw [decodeFrom, positionOf_crlf plain]
  dsimp only
  rw [List.take_left, fromUtf8_eq_some.mpr rfl, first]
  simp only [dropped, Checked.ofOption_some, Checked.returns_bind]
  cases parseUnsigned 16 (2 ^ 64) (firstPart ';' line) <;> rfl

theorem decodeFrom_padded (plain : lf ∉ utf8 line) (padded : Padded line) :
    decodeFrom decoded (utf8 line ++ (crlf ++ tail)) = .fails "Invalid chunk size" := by
  rw [decodeFrom_line plain, parse_padded padded]

/-- The trailers of the last chunk are accepted whatever they say. -/
theorem trailer_accepted {trailers : List Bytes}
    (whole : ∀ t ∈ trailers, IsLine lf t ∧ crlf.isSuffixOf t = true ∧ t ≠ crlf)
    (short : trailers.flatten.length + 2 ≤ maxHeader) :
    ¬ (trailers.flatten ++ crlf ≠ crlf ∧
      (¬ (crlf ++ crlf).isSuffixOf (trailers.flatten ++ crlf) ∨ (trailers.flatten ++ crlf).length > 65536)) := by
  rintro ⟨some, wrong⟩
  obtain ⟨init, last, rfl⟩ : ∃ init last, trailers = init ++ [last] := by
    cases List.eq_nil_or_concat trailers with
    | inl none => exact absurd (by rw [none]; rfl) some
    | inr split =>
      obtain ⟨init, last, same⟩ := split
      exact ⟨init, last, same.trans (List.concat_eq_append ..)⟩
  obtain ⟨body, rfl⟩ := suffix_iff.mp (whole last (List.mem_append_right init List.mem_cons_self)).2.1
  obtain odd | long := wrong
  · refine odd (suffix_iff.mpr ⟨init.flatten ++ body, ?_⟩)
    simp only [List.flatten_append, List.flatten_cons, List.flatten_nil, List.append_nil, List.append_assoc]
  · rw [List.length_append] at long
    have two : crlf.length = 2 := rfl
    have limit : maxHeader = 65536 := rfl
    omega

theorem parse_of_chunkSize {size : Nat} (sized : chunkSize (utf8 line ++ crlf) = .returns size) :
    parseUnsigned 16 (2 ^ 64) (firstPart ';' (trim line)) = some size := by
  have sound := chunkSize_sound (utf8 line ++ crlf)
  rw [sized] at sound
  obtain ⟨-, text, same, read⟩ := sound
  rwa [utf8_injective (List.append_cancel_right same)]

theorem decodeFrom_of_unpadded {payload data : Bytes} {lines : List Text} (chunks : Chunks payload lines data)
    (unpadded : ∀ line ∈ lines, ¬ Padded line) (small : decoded.length + data.length ≤ maxRecord) :
    decodeFrom decoded payload = .returns (decoded ++ data) := by
  induction chunks generalizing decoded with
  | last plain sized whole short =>
    have read := parse_of_chunkSize sized
    rw [firstPart_trim (unpadded _ List.mem_cons_self)] at read
    rw [decodeFrom_line plain, read]
    dsimp only
    rw [if_pos rfl, if_neg (trailer_accepted whole short), List.append_nil]
  | @chunk line data rest lines others plain sized some next ih =>
    obtain ⟨first, later⟩ := List.forall_mem_cons.mp unpadded
    have read := parse_of_chunkSize sized
    rw [firstPart_trim first] at read
    rw [List.length_append] at small
    have positive := List.length_pos_of_ne_nil some
    rw [decodeFrom_line plain, read]
    dsimp only
    rw [if_neg (by omega), Checked.ensure, if_pos ⟨by rw [List.length_append]; omega, by omega⟩, Checked.returns_bind,
      List.drop_left, List.take_left, Checked.ensure, if_pos (by rfl), Checked.returns_bind, ← List.drop_drop, List.drop_left]
    show decodeFrom (decoded ++ data) rest = _
    rw [ih later (by rw [List.length_append]; omega), List.append_assoc]

theorem decodeFrom_of_padded {payload data : Bytes} {lines : List Text} (chunks : Chunks payload lines data)
    (padded : ∃ line ∈ lines, Padded line) : ∃ e, decodeFrom decoded payload = .fails e := by
  induction chunks generalizing decoded with
  | last plain sized whole short =>
    obtain ⟨line, only, blank⟩ := padded
    obtain rfl := List.mem_singleton.mp only
    exact ⟨_, decodeFrom_padded plain blank⟩
  | @chunk line data rest lines others plain sized some next ih =>
    by_cases first : Padded line
    · exact ⟨_, decodeFrom_padded plain first⟩
    have later : ∃ line ∈ lines, Padded line := by
      obtain ⟨other, member, blank⟩ := padded
      obtain rfl | member := List.mem_cons.mp member
      · exact absurd blank first
      · exact ⟨other, member, blank⟩
    have read := parse_of_chunkSize sized
    rw [firstPart_trim first] at read
    have positive := List.length_pos_of_ne_nil some
    rw [decodeFrom_line plain, read]
    dsimp only
    rw [if_neg (by omega), Checked.ensure]
    split
    · rw [Checked.returns_bind, List.drop_left, List.take_left, Checked.ensure, if_pos (by rfl), Checked.returns_bind,
        ← List.drop_drop, List.drop_left]
      exact ih later
    · exact ⟨_, rfl⟩

end decoding

end NixHomeServer.Browsertrix.Engine
