import NixHomeServer.Library.Text
import NixHomeServer.Library.Utf8

/-! The path of an HTTP URL, as the URL standard's parser takes it apart: dot segments
are removed, and what a path may not hold is percent-encoded. -/
namespace NixHomeServer.Library

section UrlPaths

local instance lawfulDots : LawfulBEq (List Char) := inferInstance

def isDoubleDot (segment : List Char) : Bool :=
  segment.map Char.toLower ∈ ["..".toList, ".%2e".toList, "%2e.".toList, "%2e%2e".toList]

def isSingleDot (segment : List Char) : Bool := segment.map Char.toLower ∈ [".".toList, "%2e".toList]

def percentEncode (b : UInt8) : List Char :=
  ['%', (Nat.digitChar (b.toNat / 16)).toUpper, (Nat.digitChar (b.toNat % 16)).toUpper]

/-- A character of a path, encoded if the path may not hold it. -/
def pathCode (c : Char) : List Char :=
  if c.toNat ≤ 0x1F ∨ 0x7E < c.toNat ∨ c.toNat ∈ [0x20, 0x22, 0x23, 0x3C, 0x3E, 0x3F, 0x5E, 0x60, 0x7B, 0x7D] then
    (String.utf8EncodeChar c).flatMap percentEncode
  else [c]

def isSlash (c : Char) : Bool := c == '/' || c == '\\'

def endsPath (c : Char) : Bool := c == '?' || c == '#'

/-- The end of a segment, at a slash or at the end of the path. -/
def closeSegment (segments : List (List Char)) (buffer : List Char) (slash : Bool) : List (List Char) :=
  if isDoubleDot buffer then (if slash then segments.dropLast else segments.dropLast ++ [[]])
  else if isSingleDot buffer then (if slash then segments else segments ++ [[]])
  else segments ++ [buffer]

def readPath (segments : List (List Char)) (buffer : List Char) : List Char → List (List Char)
  | [] => closeSegment segments buffer false
  | c :: rest =>
    if isSlash c then readPath (closeSegment segments buffer true) [] rest
    else if endsPath c then closeSegment segments buffer false
    else readPath segments (buffer ++ pathCode c) rest

/-- The slash at the start of a path is passed. -/
def pathSegments : List Char → List (List Char)
  | [] => readPath [] [] []
  | c :: rest => if isSlash c then readPath [] [] rest else readPath [] [] (c :: rest)

def isC0OrSpace (c : Char) : Bool := c.toNat ≤ 0x20

/-- The authority and the path of an `http` URL. -/
def httpUrl (url : List Char) : Option (List Char × List (List Char)) := do
  let cleaned := (trimBy isC0OrSpace url).filter fun c => !(c == '\t' || c == '\n' || c == '\r')
  let rest ← cleaned.dropPrefix? "http://".toList
  return (rest.takeWhile fun c => !(isSlash c || endsPath c),
    pathSegments (rest.dropWhile fun c => !(isSlash c || endsPath c)))

/-- A character that a path holds as it is, within a segment. -/
def Kept (c : Char) : Prop := pathCode c = [c] ∧ isSlash c = false ∧ endsPath c = false

variable {segments : List (List Char)} {buffer segment rest : List Char}

theorem readPath_kept (kept : ∀ c ∈ segment, Kept c) :
    readPath segments buffer (segment ++ rest) = readPath segments (buffer ++ segment) rest := by
  induction segment generalizing buffer with
  | nil => simp
  | cons c segment ih =>
    obtain ⟨⟨same, noslash, inside⟩, others⟩ := List.forall_mem_cons.mp kept
    simp [readPath, same, noslash, inside, ih others]

theorem readPath_segment (kept : ∀ c ∈ segment, Kept c) :
    readPath segments [] (segment ++ '/' :: rest) = readPath (closeSegment segments segment true) [] rest := by
  rw [readPath_kept kept, List.nil_append]
  rfl

/-- A segment that is no dot segment stays. -/
theorem closeSegment_plain {slash : Bool} (single : isSingleDot segment = false) (double : isDoubleDot segment = false) :
    closeSegment segments segment slash = segments ++ [segment] := by
  simp [closeSegment, single, double]

theorem httpUrl_append {authority path : List Char}
    (plain : ∀ c ∈ authority, 0x20 < c.toNat ∧ isSlash c = false ∧ endsPath c = false)
    (visible : ∀ c ∈ path, 0x20 < c.toNat) :
    httpUrl ("http://".toList ++ authority ++ '/' :: path) = some (authority, readPath [] [] path) := by
  have solid : ∀ c ∈ "http://".toList ++ authority ++ '/' :: path, 0x20 < c.toNat := by
    intro c member
    rcases List.mem_append.mp member with front | back
    · rcases List.mem_append.mp front with scheme | host
      · exact (show ∀ c ∈ "http://".toList, 0x20 < c.toNat from forall_of_all (by decide)) c scheme
      · exact (plain c host).1
    · rcases List.mem_cons.mp back with rfl | later
      · decide
      · exact visible c later
  have whole : trimBy isC0OrSpace ("http://".toList ++ authority ++ '/' :: path) = "http://".toList ++ authority ++ '/' :: path :=
    trimBy_of_solid fun c member => decide_eq_false (Nat.not_le.mpr (solid c member))
  have kept : ("http://".toList ++ authority ++ '/' :: path).filter (fun c => !(c == '\t' || c == '\n' || c == '\r')) =
      "http://".toList ++ authority ++ '/' :: path := by
    rw [List.filter_eq_self]
    intro c member
    have high := solid c member
    have other : ∀ d : Char, d.toNat ≤ 0x20 → (c == d) = false := by
      intro d low
      refine beq_eq_false_iff_ne.mpr ?_
      rintro rfl
      omega
    rw [other '\t' (by decide), other '\n' (by decide), other '\r' (by decide)]
    rfl
  have opened : ("http://".toList ++ (authority ++ '/' :: path)).dropPrefix? "http://".toList = some (authority ++ '/' :: path) :=
    List.dropPrefix?_eq_some_iff.mpr ⟨"http://".toList, rfl, beq_self_eq_true _⟩
  have inside : ∀ c ∈ authority, (!(isSlash c || endsPath c)) = true := by
    intro c member
    rw [(plain c member).2.1, (plain c member).2.2]
    rfl
  rw [httpUrl, whole, kept, List.append_assoc, opened, Option.bind_eq_bind, Option.bind_some,
    List.takeWhile_append_of_pos inside, List.dropWhile_append_of_pos inside]
  simp [isSlash, pathSegments]

end UrlPaths

end NixHomeServer.Library
