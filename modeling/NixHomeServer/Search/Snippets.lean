import NixHomeServer.Library.Patterns
import NixHomeServer.Search.Bounds

/-! The snippet of a result: the part of its text that is shown, and the terms that are marked in it. -/
namespace NixHomeServer.Search

open NixHomeServer.Library

def snippetScanLimit : Nat := 400000
def snippetChars : Nat := 260
def snippetLead : Nat := 60

abbrev byteLength (text : Text) : Nat := (utf8 text).length

/-- A term of a query has a character. -/
structure Term where
  chars : Text
  filled : chars ≠ []
  deriving DecidableEq

variable {ε : Type}

section Slices

/-- `&text[start..]`. -/
def sliceFrom (text : Text) (start : Nat) : Checked ε Text := Checked.unwrap ((splitAtByte text start).map Prod.snd)

/-- `&text[start..end]`. -/
def sliceBetween (text : Text) (start stop : Nat) : Checked ε Text := do
  let upTo ← sliceTo text stop
  sliceFrom upTo start

end Slices

section Finding

-- The lowercase form of each character, and the characters that words are made of.
variable (lower : Char → Text) (alphanumeric : Char → Bool)

def toLowercase (text : Text) : Text := text.flatMap lower

def pushTerm (terms : List Term) (chars : Text) : List Term :=
  if filled : chars ≠ [] then
    let term : Term := ⟨chars, filled⟩
    if term ∈ terms then terms else terms ++ [term]
  else terms

def queryTerms (query : Text) : List Term :=
  ((query.splitOnP isWhitespace).filter (· ≠ [])).foldl (fun terms word =>
    pushTerm terms (toLowercase lower (trimBy (fun c => !alphanumeric c) word))) []

/-- The byte offset of the first place of a text in another. -/
def findIn (needle hay : Text) : Option Nat := (cutAtText needle hay).map fun parts => byteLength parts.1

/-- What is looked for in the rest of a text, as offsets of the rest. -/
def findInsensitive (hay : Text) (needle : Text) : Option (Nat × Nat) :=
  let hayLower := toLowercase lower hay
  let needleLower := toLowercase lower needle
  if byteLength hayLower ≠ byteLength hay ∨ byteLength needleLower ≠ byteLength needle then none
  else (findIn needleLower hayLower).map fun offset => (offset, offset + byteLength needleLower)

def findCaseInsensitiveFrom (haystack : Text) (start : Nat) (needle : Text) : Option (Nat × Nat) := do
  let (_, hay) ← splitAtByte haystack start
  let (low, high) ← findInsensitive lower hay needle
  return (start + low, start + high)

def firstPresentTermSpan (body : Text) (terms : List Term) : Option (Term × Nat × Nat) :=
  let lowered := toLowercase lower body
  let aligned := byteLength lowered == byteLength body
  terms.findSome? fun term =>
    if aligned then (findIn term.chars lowered).map fun offset => (term, offset, offset + byteLength term.chars)
    else (findCaseInsensitiveFrom lower body 0 term.chars).map fun span => (term, span)

end Finding

section Windows

/-- The byte offset of a character, or the length where there is none. -/
def byteAt (text : Text) (index : Nat) : Nat := byteLength (text.take index)

def snippetWindowBounds (text : Text) (matchStart : Nat) : Checked ε (Nat × Nat) := do
  let before ← sliceTo text (snapToBoundary text matchStart)
  let first := before.length - snippetLead
  return (if first < text.length then byteAt text first else 0, byteAt text (first + snippetChars))

end Windows

section Highlighting

def escapeChar (c : Char) : Text :=
  if c = '&' then "&amp;".toList
  else if c = '<' then "&lt;".toList
  else if c = '>' then "&gt;".toList
  else if c = '"' then "&quot;".toList
  else if c = Char.ofNat 39 then "&#39;".toList
  else [c]

def escapeHtml (text : Text) : Text := text.flatMap escapeChar

/-- The first of the spans that start earliest. -/
def earliest : List (Nat × Nat) → Option (Nat × Nat)
  | [] => none
  | span :: rest =>
    match earliest rest with
    | some other => if other.1 < span.1 then some other else some span
    | none => some span

theorem earliest_mem {spans : List (Nat × Nat)} {span : Nat × Nat} (found : earliest spans = some span) : span ∈ spans := by
  induction spans generalizing span with
  | nil => cases found
  | cons head rest ih =>
    rw [earliest] at found
    split at found
    · rename_i other later
      split at found
      · cases found
        exact List.mem_cons_of_mem _ (ih later)
      · cases found
        exact List.mem_cons_self
    · cases found
      exact List.mem_cons_self

variable (lower : Char → Text)

def nextMatch (text : Text) (cursor : Nat) (terms : List Term) : Option (Nat × Nat) :=
  earliest (terms.filterMap fun term => findCaseInsensitiveFrom lower text cursor term.chars)

theorem byteLength_append (left right : Text) : byteLength (left ++ right) = byteLength left + byteLength right := by
  simp only [byteLength, utf8_append, List.length_append]

theorem byteLength_pos {text : Text} (filled : text ≠ []) : 0 < byteLength text :=
  Nat.lt_of_lt_of_le (List.length_pos_iff.mpr filled) (length_le_utf8 text)

theorem findIn_le {needle hay : Text} {offset : Nat} (found : findIn needle hay = some offset) :
    offset + byteLength needle ≤ byteLength hay := by
  obtain ⟨⟨before, after⟩, cut, rfl⟩ := Option.map_eq_some_iff.mp found
  rw [cutAtText_eq_some cut, byteLength_append, byteLength_append]
  exact Nat.le_add_right _ _

variable {lower} in
theorem findInsensitive_bounds {hay needle : Text} {low high : Nat} (found : findInsensitive lower hay needle = some (low, high))
    (filled : needle ≠ []) : low < high ∧ high ≤ byteLength hay := by
  have positive := byteLength_pos filled
  simp only [findInsensitive] at found
  split at found
  · cases found
  · rename_i even
    obtain ⟨offset, inside, same⟩ := Option.map_eq_some_iff.mp found
    cases same
    have bound := findIn_le inside
    omega

variable {lower} in
/-- A match ends after the place where the search starts and within the text. -/
theorem nextMatch_advances {text : Text} {cursor start stop : Nat} {terms : List Term}
    (found : nextMatch lower text cursor terms = some (start, stop)) : cursor < stop ∧ stop ≤ byteLength text := by
  obtain ⟨term, -, matched⟩ := List.mem_filterMap.mp (earliest_mem found)
  obtain ⟨⟨before, hay⟩, split, rest⟩ := Option.bind_eq_some_iff.mp matched
  obtain ⟨⟨low, high⟩, inside, same⟩ := Option.bind_eq_some_iff.mp rest
  cases same
  obtain ⟨rfl, rfl⟩ := splitAtByte_eq_some split
  have bounds := findInsensitive_bounds inside term.filled
  simp only [byteLength, utf8_append, List.length_append] at bounds ⊢
  omega

end Highlighting

section Snippets

variable (lower : Char → Text) (alphanumeric : Char → Bool)

/-- The part of the text that is shown around the first term in it, and the terms to mark there. -/
def snippetWindow (text query : Text) : Checked ε (Option (Text × List Term)) := do
  let terms := queryTerms lower alphanumeric query
  if terms.isEmpty then return none
  let part ← boundedPrefix text snippetScanLimit
  let body := trimBy isWhitespace part
  if body.isEmpty then return none
  match firstPresentTermSpan lower body terms with
  | none => return none
  | some (term, matchStart, matchEnd) =>
    let matchEnd := snapToBoundary body matchEnd
    let (start, stop) ← snippetWindowBounds body matchStart
    let cut ← sliceBetween body start stop
    let window := trimBy isWhitespace cut
    if window.isEmpty then return none
    -- a term that is longer than the window is not marked
    return some (window, if stop < matchEnd then terms.filter fun candidate => candidate.chars ≠ term.chars else terms)

/-- What is shown without a term in the text. -/
def excerpt (text query : Text) : Checked ε (Option Text) := do
  if (queryTerms lower alphanumeric query).isEmpty then return none
  let part ← boundedPrefix text snippetScanLimit
  let excerpt := (trimBy isWhitespace part).take snippetChars
  return if excerpt.isEmpty then none else some excerpt

end Snippets

end NixHomeServer.Search
