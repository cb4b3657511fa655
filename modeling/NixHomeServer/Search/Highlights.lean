import NixHomeServer.Search.Snippets

/-! What the marked text says: which pieces of the window are marked, and when that goes well. -/
namespace NixHomeServer.Search

open NixHomeServer.Library

variable {ε : Type} {lower : Char → Text} {alphanumeric : Char → Bool} {terms : List Term}

section Cutting

theorem sliceFrom_append (left right : Text) : (sliceFrom (left ++ right) (byteLength left) : Checked ε Text) = .returns right := by
  rw [sliceFrom, splitAtByte_append]
  rfl

theorem sliceBetween_eq_returns {text part : Text} {start stop : Nat} :
    (sliceBetween text start stop : Checked ε Text) = .returns part ↔
      ∃ left right, text = left ++ part ++ right ∧ byteLength left = start ∧ byteLength (left ++ part) = stop := by
  simp only [sliceBetween, sliceTo, sliceFrom, Checked.bind_eq_returns, Checked.unwrap_eq_returns, Option.map_eq_some_iff]
  constructor
  · rintro ⟨upTo, ⟨⟨_, right⟩, split, rfl⟩, ⟨left, _⟩, split', rfl⟩
    obtain ⟨rfl, size⟩ := splitAtByte_eq_some split
    obtain ⟨rfl, size'⟩ := splitAtByte_eq_some split'
    exact ⟨left, right, rfl, size', size⟩
  · rintro ⟨left, right, rfl, rfl, rfl⟩
    exact ⟨left ++ part, ⟨(left ++ part, right), splitAtByte_append _ _, rfl⟩, (left, part), splitAtByte_append _ _, rfl⟩

variable (lower terms) in
/-- A window is cut at its matches into pieces that are not marked and pieces that are, and a rest. -/
inductive Cuts : Text → List (Text × Text) → Text → Prop
  | last {hay : Text} (none : nextMatch lower hay 0 terms = none) : Cuts hay [] hay
  | step {plain piece hay rest : Text} {pieces : List (Text × Text)}
      (found : nextMatch lower (plain ++ piece ++ hay) 0 terms = some (byteLength plain, byteLength (plain ++ piece)))
      (later : Cuts hay pieces rest) : Cuts (plain ++ piece ++ hay) ((plain, piece) :: pieces) rest

theorem Cuts.whole {hay rest : Text} {pieces : List (Text × Text)} (cuts : Cuts lower terms hay pieces rest) :
    (pieces.flatMap fun p => p.1 ++ p.2) ++ rest = hay := by
  induction cuts with
  | last none => rfl
  | step found later ih => rw [List.flatMap_cons, List.append_assoc, ih]

/-- A window that is cut is cut between characters. -/
theorem Cuts.boundary {hay rest : Text} {pieces : List (Text × Text)} {low high : Nat} (cuts : Cuts lower terms hay pieces rest)
    (found : nextMatch lower hay 0 terms = some (low, high)) : isCharBoundary hay low = true := by
  cases cuts with
  | last none => cases none.symm.trans found
  | @step plain piece after _ _ matched later =>
    cases matched.symm.trans found
    exact isCharBoundary_iff.mpr ⟨plain, ⟨piece ++ after, by rw [List.append_assoc]⟩, rfl⟩

/-- The text with its marks. -/
def render (pieces : List (Text × Text)) (rest : Text) : Text :=
  (pieces.flatMap fun p => escapeHtml p.1 ++ "<em>".toList ++ escapeHtml p.2 ++ "</em>".toList) ++ escapeHtml rest

end Cutting

section Escapes

/-- A text at whose front no character can be read as an escaped one. -/
def Opens (text : Text) : Prop := text = [] ∨ ∃ rest, text = '<' :: rest

end Escapes

section Shown

variable {text query : Text}

variable (text) in
/-- A window shows a piece of the first bytes of the text. -/
structure Shows (window : Text) : Prop where
  short : window.length ≤ snippetChars
  inside : ∃ before after, text = before ++ window ++ after ∧ byteLength (before ++ window) ≤ snippetScanLimit

theorem shows_of_part {part window : Text} (longest : LongestWithin snippetScanLimit text part) (inside : window <:+: part)
    (short : window.length ≤ snippetChars) : Shows text window := by
  obtain ⟨before, after, rfl⟩ := inside
  obtain ⟨rest, rfl⟩ := longest.starts
  have bounded := longest.bounded
  refine ⟨short, before, after ++ rest, by simp only [List.append_assoc], ?_⟩
  simp only [byteLength, utf8_append, List.length_append] at bounded ⊢
  omega

/-- The bounds of a window cut the text between characters, around at most as many as are shown. -/
theorem snippetWindowBounds_cut {body : Text} (filled : body ≠ []) (matchStart : Nat) :
    ∃ start stop cut, (snippetWindowBounds body matchStart : Checked ε (Nat × Nat)) = .returns (start, stop) ∧
      (sliceBetween body start stop : Checked ε Text) = .returns cut ∧ cut <:+: body ∧ cut.length ≤ snippetChars := by
  obtain ⟨before, returned, starts, -⟩ := sliceTo_of_boundary (ε := ε) (isCharBoundary_floorBoundary body (min matchStart (utf8 body).length))
  have first : before.length - snippetLead < body.length := by
    have bound := starts.length_le
    have positive := List.length_pos_iff.mpr filled
    have lead : 0 < snippetLead := by decide
    omega
  have parts := List.take_append_drop snippetChars (body.drop (before.length - snippetLead))
  have whole := List.take_append_drop (before.length - snippetLead) body
  refine ⟨byteAt body (before.length - snippetLead), byteAt body (before.length - snippetLead + snippetChars),
    (body.drop (before.length - snippetLead)).take snippetChars, ?_, ?_, ?_, List.length_take_le _ _⟩
  · rw [snippetWindowBounds, snapToBoundary, returned]
    simp only [Checked.returns_bind, Checked.pure_eq, if_pos first]
  · refine sliceBetween_eq_returns.mpr ⟨body.take (before.length - snippetLead),
      (body.drop (before.length - snippetLead)).drop snippetChars, ?_, rfl, ?_⟩
    · rw [List.append_assoc, parts, whole]
    · rw [byteAt, List.take_add]
  · exact (List.take_prefix _ _).isInfix.trans (List.drop_suffix _ _).isInfix

/-- The window of a snippet is found without a panic. -/
theorem snippetWindow_returns (lower : Char → Text) (alphanumeric : Char → Bool) (text query : Text) :
    ∃ window, (snippetWindow lower alphanumeric text query : Checked Empty (Option (Text × List Term))) = .returns window ∧
      ∀ shown marked, window = some (shown, marked) → Shows text shown ∧ ∀ term ∈ marked, term ∈ queryTerms lower alphanumeric query := by
  obtain ⟨part, returned, longest⟩ := boundedPrefix_bounds text snippetScanLimit
  rw [snippetWindow]
  split
  · exact ⟨none, rfl, nofun⟩
  · simp only [returned, Checked.returns_bind]
    split
    · exact ⟨none, rfl, nofun⟩
    · rename_i filled
      cases firstPresentTermSpan lower (trimBy isWhitespace part) (queryTerms lower alphanumeric query) with
      | none => exact ⟨none, rfl, nofun⟩
      | some span =>
        obtain ⟨term, matchStart, matchEnd⟩ := span
        obtain ⟨start, stop, cut, bounds, sliced, inside, short⟩ :=
          snippetWindowBounds_cut (ε := Empty) (show trimBy isWhitespace part ≠ [] by simpa using filled) matchStart
        simp only [bounds, sliced, Checked.returns_bind]
        split
        · exact ⟨none, rfl, nofun⟩
        · refine ⟨_, rfl, fun shown marked same => ?_⟩
          cases same
          have trimmed := isInfix_trimBy isWhitespace cut
          refine ⟨shows_of_part longest (trimmed.trans (inside.trans (isInfix_trimBy isWhitespace part)))
            (trimmed.length_le.trans short), fun term own => ?_⟩
          split at own
          · exact List.mem_of_mem_filter own
          · exact own

theorem excerpt_returns (lower : Char → Text) (alphanumeric : Char → Bool) (text query : Text) :
    ∃ shown, (excerpt lower alphanumeric text query : Checked Empty (Option Text)) = .returns shown ∧
      ∀ window, shown = some window → Shows text window := by
  obtain ⟨part, returned, longest⟩ := boundedPrefix_bounds text snippetScanLimit
  rw [excerpt]
  split
  · exact ⟨none, rfl, nofun⟩
  · simp only [returned, Checked.returns_bind]
    refine ⟨_, rfl, fun window same => ?_⟩
    split at same
    · cases same
    · cases same
      exact shows_of_part longest ((List.take_prefix _ _).isInfix.trans (isInfix_trimBy isWhitespace part)) (List.length_take_le _ _)

variable (lower alphanumeric) in
/-- The window of a result, with the terms to mark in it. -/
def shownWindow (text query : Text) : Checked ε (Option (Text × List Term)) := do
  match ← snippetWindow lower alphanumeric text query with
  | some window => return some window
  | none => do
    let shown ← excerpt lower alphanumeric text query
    return shown.map fun window => (window, [])

theorem shownWindow_returns (lower : Char → Text) (alphanumeric : Char → Bool) (text query : Text) :
    ∃ window, (shownWindow lower alphanumeric text query : Checked Empty (Option (Text × List Term))) = .returns window ∧
      ∀ shown marked, window = some (shown, marked) → Shows text shown ∧ ∀ term ∈ marked, term ∈ queryTerms lower alphanumeric query := by
  obtain ⟨window, returned, shows⟩ := snippetWindow_returns lower alphanumeric text query
  rw [shownWindow, returned, Checked.returns_bind]
  cases window with
  | some window => exact ⟨some window, rfl, shows⟩
  | none =>
    obtain ⟨shown, returned, shows⟩ := excerpt_returns lower alphanumeric text query
    rw [returned, Checked.returns_bind]
    refine ⟨_, rfl, fun window marked same => ?_⟩
    obtain ⟨_, own, same⟩ := Option.map_eq_some_iff.mp same
    cases same
    exact ⟨shows _ own, fun _ member => nomatch member⟩

end Shown

section Faithful

variable {text query : Text}

variable (lower alphanumeric query) in
/-- Each marked piece is a term of the query up to case. -/
def Marks (pieces : List (Text × Text)) : Prop :=
  ∀ p ∈ pieces, ∃ term ∈ queryTerms lower alphanumeric query, toLowercase lower p.2 = toLowercase lower term.chars

variable (lower alphanumeric text query) in
/-- Without its marks and escapes, a snippet is a piece of the start of the text, and its marks are terms of the query. -/
def Faithful (snippet : Text) : Prop :=
  ∃ pieces rest, snippet = render pieces rest ∧ Shows text ((pieces.flatMap fun p => p.1 ++ p.2) ++ rest) ∧
    Marks lower alphanumeric query pieces

variable (lower alphanumeric query) in
/-- Wherever a term is found next in the lowercase form of what is left of a window, the bytes of that place are whole characters
of the window itself, and their lowercase form is a term. -/
def MatchesLand (window : Text) (marked : List Term) : Prop :=
  ∃ pieces rest, Cuts lower marked window pieces rest ∧ Marks lower alphanumeric query pieces

variable (lower) in
/-- A character whose lowercase form is one character of as many bytes. -/
def Steady (c : Char) : Prop := ∃ d, lower c = [d] ∧ d.utf8Size = c.utf8Size

/-- A split of a lowercase form is one of the text. -/
theorem split_of_steady {hay x y : Text} (steady : ∀ c ∈ hay, Steady lower c) (split : toLowercase lower hay = x ++ y) :
    ∃ p q, hay = p ++ q ∧ toLowercase lower p = x ∧ toLowercase lower q = y ∧ byteLength p = byteLength x := by
  induction x generalizing hay with
  | nil => exact ⟨[], hay, rfl, rfl, split, rfl⟩
  | cons d x ih =>
    cases hay with
    | nil => cases split
    | cons c hay =>
      obtain ⟨own, later⟩ := List.forall_mem_cons.mp steady
      obtain ⟨d', form, size⟩ := own
      rw [toLowercase, List.flatMap_cons, form, List.singleton_append, List.cons_append, List.cons.injEq] at split
      obtain ⟨rfl, split⟩ := split
      obtain ⟨p, q, rfl, rfl, rfl, same⟩ := ih later split
      refine ⟨c :: p, q, rfl, ?_, rfl, ?_⟩
      · rw [toLowercase, List.flatMap_cons, form]
        rfl
      · simp only [byteLength, utf8_cons, List.length_append, String.length_utf8EncodeChar] at same ⊢
        omega

theorem nextMatch_of_steady {hay : Text} {low high : Nat} (steady : ∀ c ∈ hay, Steady lower c)
    (found : nextMatch lower hay 0 terms = some (low, high)) :
    ∃ plain piece after, hay = plain ++ piece ++ after ∧ byteLength plain = low ∧ byteLength (plain ++ piece) = high ∧
      ∃ term ∈ terms, toLowercase lower piece = toLowercase lower term.chars := by
  obtain ⟨term, own, matched⟩ := List.mem_filterMap.mp (earliest_mem found)
  have start : splitAtByte hay 0 = some ([], hay) := splitAtByte_append [] hay
  obtain ⟨⟨before, hay'⟩, split, rest⟩ := Option.bind_eq_some_iff.mp matched
  cases start.symm.trans split
  obtain ⟨⟨low', high'⟩, inside, same⟩ := Option.bind_eq_some_iff.mp rest
  cases same
  simp only [findInsensitive] at inside
  split at inside
  · cases inside
  · obtain ⟨offset, located, same⟩ := Option.map_eq_some_iff.mp inside
    cases same
    obtain ⟨⟨x, y⟩, cut, rfl⟩ := Option.map_eq_some_iff.mp located
    have whole := cutAtText_eq_some cut
    rw [List.append_assoc] at whole
    obtain ⟨plain, tail, rfl, -, form, size⟩ := split_of_steady steady whole
    obtain ⟨piece, after, rfl, same, -, size'⟩ :=
      split_of_steady (fun c member => steady c (List.mem_append_right _ member)) form
    refine ⟨plain, piece, after, by rw [List.append_assoc], ?_, ?_, term, own, same⟩
    · rw [Nat.zero_add]
      exact size
    · rw [Nat.zero_add, byteLength_append, size, size']

/-- Matches land in a window of steady characters. -/
theorem lands_of_steady {window : Text} {marked : List Term} (steady : ∀ c ∈ window, Steady lower c)
    (known : ∀ term ∈ marked, term ∈ queryTerms lower alphanumeric query) :
    MatchesLand lower alphanumeric query window marked := by
  induction size : byteLength window using Nat.strong_induction_on generalizing window with
  | _ n ih =>
    cases found : nextMatch lower window 0 marked with
    | none => exact ⟨[], window, .last found, nofun⟩
    | some span =>
      obtain ⟨low, high⟩ := span
      have advances := nextMatch_advances found
      obtain ⟨plain, piece, after, rfl, rfl, rfl, term, own, same⟩ := nextMatch_of_steady steady found
      have less : byteLength after < n := by
        rw [byteLength_append] at size
        omega
      obtain ⟨pieces, rest, cuts, marks⟩ := ih _ less (fun c member => steady c (List.mem_append_right _ member)) rfl
      exact ⟨_, rest, .step found cuts, List.forall_mem_cons.mpr ⟨⟨term, known term own, same⟩, marks⟩⟩

/-- Where every character of a text keeps its bytes as one character, the snippet is faithful. -/
theorem snippet_of_steady (steady : ∀ c ∈ text, Steady lower c) {window : Text} {marked : List Term}
    (shown : (shownWindow lower alphanumeric text query : Checked Empty (Option (Text × List Term))) = .returns (some (window, marked))) :
    MatchesLand lower alphanumeric query window marked := by
  obtain ⟨other, returned, shows⟩ := shownWindow_returns lower alphanumeric text query
  cases returned.symm.trans shown
  obtain ⟨⟨-, before, after, whole, -⟩, known⟩ := shows window marked rfl
  refine lands_of_steady (fun c member => steady c ?_) known
  rw [whole]
  exact List.mem_append_left _ (List.mem_append_right _ member)

end Faithful

end NixHomeServer.Search
