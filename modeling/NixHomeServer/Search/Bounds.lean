import NixHomeServer.Library.Checked
import NixHomeServer.Library.Utf8
import NixHomeServer.Search.Records

/-! The helpers that bound a text by bytes: three of them cut between characters, the one of the
ZIM extractor cuts where the limit falls. -/
namespace NixHomeServer.Search

open NixHomeServer.Library

abbrev Text := List Char

variable {ε : Type}

/-- `&text[..index]`, which panics where the index falls into a character. -/
def sliceTo (text : Text) (index : Nat) : Checked ε Text :=
  Checked.unwrap ((splitAtByte text index).map Prod.fst)

section Helpers

variable {text : Text} {limit : Nat}

theorem sliceTo_of_boundary {index : Nat} (boundary : isCharBoundary text index = true) :
    ∃ part, (sliceTo text index : Checked ε Text) = .returns part ∧ part <+: text ∧ (utf8 part).length = index := by
  obtain ⟨⟨left, right⟩, split⟩ := Option.isSome_iff_exists.mp boundary
  obtain ⟨whole, size⟩ := splitAtByte_eq_some split
  exact ⟨left, by simp [sliceTo, split], ⟨right, whole.symm⟩, size⟩

theorem sliceTo_of_inside {index : Nat} (inside : isCharBoundary text index = false) :
    (sliceTo text index : Checked ε Text) = .panics := by
  rw [isCharBoundary, Option.isSome_eq_false_iff, Option.isNone_iff_eq_none] at inside
  simp [sliceTo, inside]

/-- `str::floor_char_boundary`. -/
def floorCharBoundary (text : Text) (index : Nat) : Nat :=
  if (utf8 text).length ≤ index then (utf8 text).length else floorBoundary text index

def truncateText (text : Text) (limit : Nat) : Checked ε Text :=
  sliceTo text (floorCharBoundary text (min limit (utf8 text).length))

def snapToBoundary (value : Text) (byte : Nat) : Nat := floorBoundary value (min byte (utf8 value).length)

def boundedPrefix (text : Text) (limit : Nat) : Checked ε Text := sliceTo text (snapToBoundary text limit)

/-- How `build_body` bounds what it has joined. -/
def boundBody (limit : Nat) (body : Text) : Checked ε Text :=
  if limit < (utf8 body).length then sliceTo body (floorBoundary body limit) else .returns body

namespace Kiwix

def fulltextBodyLimit : Nat := 1000000

def popToBoundary (text : Text) : Text :=
  if isCharBoundary text (utf8 text).length then text else popToBoundary text.dropLast
termination_by text.length
decreasing_by
  rename_i off
  exact absurd (isCharBoundary_length text) off

def truncate (value : Text) (limit : Nat) : Checked ε Text :=
  if (utf8 value).length ≤ limit then .returns value
  else do
    let truncated ← sliceTo value limit
    return popToBoundary truncated

end Kiwix

/-- The helper returns the longest part of the text that it may. -/
def BoundsText (helper : Text → Nat → Checked Empty Text) (text : Text) (limit : Nat) : Prop :=
  ∃ part, helper text limit = .returns part ∧ LongestWithin limit text part

theorem boundary_le_length {boundary : Nat} (found : isCharBoundary text boundary = true) :
    boundary ≤ (utf8 text).length := by
  obtain ⟨left, ⟨right, rfl⟩, rfl⟩ := isCharBoundary_iff.mp found
  rw [utf8_append, List.length_append]
  omega

/-- A cut at the last boundary within the limit. -/
theorem sliceTo_floorBoundary (text : Text) {index : Nat} (exact_index : index = min limit (utf8 text).length) :
    ∃ part, (sliceTo text (floorBoundary text index) : Checked ε Text) = .returns part ∧ LongestWithin limit text part := by
  obtain ⟨part, cut, starts, size⟩ := sliceTo_of_boundary (isCharBoundary_floorBoundary text index)
  have below := floorBoundary_le text index
  refine ⟨part, cut, LongestWithin.of_last starts (by omega) fun boundary found small => ?_⟩
  have inside := boundary_le_length found
  rw [size]
  exact le_floorBoundary found (by omega)

theorem floorCharBoundary_eq (text : Text) {index : Nat} (small : index ≤ (utf8 text).length) :
    floorCharBoundary text index = floorBoundary text index := by
  unfold floorCharBoundary
  split
  · rename_i whole
    obtain rfl : index = (utf8 text).length := by omega
    have reach := le_floorBoundary (isCharBoundary_length text) (Nat.le_refl _)
    have below := floorBoundary_le text (utf8 text).length
    omega
  · rfl

theorem truncateText_longest (text : Text) (limit : Nat) :
    ∃ part, (truncateText text limit : Checked ε Text) = .returns part ∧ LongestWithin limit text part := by
  unfold truncateText
  rw [floorCharBoundary_eq text (Nat.min_le_right _ _)]
  exact sliceTo_floorBoundary text rfl

theorem truncateText_bounds (text : Text) (limit : Nat) : BoundsText truncateText text limit :=
  truncateText_longest text limit

theorem truncateText_sound (text : Text) (limit : Nat) :
    (truncateText text limit : Checked ε Text).Sound fun part => (utf8 part).length ≤ limit := by
  obtain ⟨part, cut, longest⟩ := truncateText_longest (ε := ε) text limit
  rw [cut]
  exact longest.bounded

theorem boundedPrefix_bounds (text : Text) (limit : Nat) : BoundsText boundedPrefix text limit :=
  sliceTo_floorBoundary text rfl

theorem boundBody_bounds (text : Text) (limit : Nat) : BoundsText (fun text limit => boundBody limit text) text limit := by
  simp only [BoundsText, boundBody]
  split
  · rename_i large
    exact sliceTo_floorBoundary text (by omega)
  · rename_i small
    exact ⟨text, rfl, LongestWithin.self (Nat.not_lt.mp small)⟩

@[simp] theorem Kiwix.popToBoundary_eq (text : Text) : popToBoundary text = text := by
  rw [popToBoundary, if_pos (isCharBoundary_length text)]

/-- The ZIM extractor's helper returns at all only where the limit falls between two characters. -/
theorem Kiwix.truncate_returns_iff :
    (∃ part, (truncate text limit : Checked ε Text) = .returns part) ↔
      (utf8 text).length ≤ limit ∨ isCharBoundary text limit = true := by
  unfold truncate
  split
  · rename_i small
    exact ⟨fun _ => .inl small, fun _ => ⟨text, rfl⟩⟩
  · rename_i large
    cases found : isCharBoundary text limit with
    | true =>
      obtain ⟨part, cut, -⟩ := sliceTo_of_boundary (ε := ε) found
      exact ⟨fun _ => .inr rfl, fun _ => ⟨part, by simp [cut]⟩⟩
    | false =>
      rw [sliceTo_of_inside found]
      constructor
      · rintro ⟨_, returned⟩
        cases returned
      · exact fun either => either.elim (absurd · large) nofun

theorem Kiwix.longest_of_truncate {part : Text} (returned : (truncate text limit : Checked ε Text) = .returns part) :
    LongestWithin limit text part := by
  unfold truncate at returned
  split at returned
  · rename_i small
    cases returned
    exact LongestWithin.self small
  · obtain ⟨cut, slice, same⟩ := Checked.bind_eq_returns.mp returned
    cases same
    rw [popToBoundary_eq]
    cases found : isCharBoundary text limit with
    | true =>
      obtain ⟨part, cut', starts, size⟩ := sliceTo_of_boundary found
      rw [slice] at cut'
      cases cut'
      exact LongestWithin.of_last starts (Nat.le_of_eq size) fun boundary _ small => by omega
    | false =>
      rw [sliceTo_of_inside found] at slice
      cases slice

theorem Kiwix.truncate_bounds_iff :
    BoundsText truncate text limit ↔ (utf8 text).length ≤ limit ∨ isCharBoundary text limit = true :=
  ⟨fun ⟨part, returned, _⟩ => truncate_returns_iff.mp ⟨part, returned⟩,
    fun either => by
      obtain ⟨part, returned⟩ := truncate_returns_iff.mpr either
      exact ⟨part, returned, longest_of_truncate returned⟩⟩

end Helpers

section MediaSnapshot

def stringField (entry : Json) (key : String) : Option String :=
  (((entry.get key).bind Json.asStr).map trim).filter fun value => value ≠ ""

def numberField (entry : Json) (key : String) : Option Int :=
  match entry.get key with
  | some (.number number) => asI64 number
  | some (.string text) => parseI64 (trim text)
  | _ => none

/-- The text of one item of a list field. -/
def listItem : Json → Option String
  | .string text => some (trim text)
  | item@(.object _) => some ((((item.get "name").bind Json.asStr).map trim).getD "")
  | _ => none

def pushValue (values : List String) (item : Json) : List String :=
  match listItem item with
  | some value => if value ≠ "" ∧ value ∉ values then values ++ [value] else values
  | none => values

def stringList (entry : Json) (key : String) : List String :=
  match entry.get key with
  | some (.array items) => items.foldl pushValue []
  | _ => []

def seriesName (entry : Json) : Option String :=
  (stringField entry "series").or ((stringField entry "seriesName").or (stringList entry "series").head?)

def bodyLimit : Nat := 2000000

/-- The descriptive fields of an entry, in the order of the body. -/
def bodyParts (entry : Json) : List String :=
  let series := match seriesName entry with
    | some series => match stringField entry "volumeNumber" with
      | some volume => [series ++ " " ++ volume]
      | none => [series]
    | none => []
  series ++ ["authors", "narrators", "writers", "genres", "tags"].map (fun key => ", ".intercalate (stringList entry key)) ++
    [(stringField entry "publisher").getD "", ((numberField entry "year").map toString).getD ""] ++
    ["language", "officialRating", "publicationStatus", "subtitle", "description"].map
      fun key => (stringField entry key).getD ""

def joinedParts (entry : Json) : String :=
  "\n".intercalate ((bodyParts entry).filter fun part => trim part ≠ "")

def buildBody (entry : Json) : Checked ε Text := boundBody bodyLimit (joinedParts entry).toList

end MediaSnapshot

end NixHomeServer.Search
