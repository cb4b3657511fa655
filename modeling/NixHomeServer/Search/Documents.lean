import NixHomeServer.Library.Numerals
import NixHomeServer.Library.Text
import NixHomeServer.Search.Bounds

/-! The loops of the extractors that gather the text of a document from its nodes, members or
parts and stop at `TEXT_LIMIT` bytes. -/
namespace NixHomeServer.Search

open NixHomeServer.Library

variable {ε : Type}

def textLimit : Nat := 2000000
def xmlLimit : Nat := 8000000

section Reading

structure Attribute where
  space : Option String
  name : String
  value : Text

/-- A parsed XML document by its nodes. -/
inductive Node
  | root (children : List Node)
  | element (name : String) (attributes : List Attribute) (children : List Node)
  | text (content : Text)
  | comment (content : Text)
  | instruction

namespace Node

def children : Node → List Node
  | root children => children
  | element _ _ children => children
  | _ => []

def isElement : Node → Bool
  | element .. => true
  | _ => false

def isText : Node → Bool
  | text _ => true
  | _ => false

def tagName : Node → String
  | element name _ _ => name
  | _ => ""

def attributes : Node → List Attribute
  | element _ attributes _ => attributes
  | _ => []

/-- The attribute of a name outside every namespace. -/
def attributeOf (node : Node) (name : String) : Option Text :=
  (node.attributes.find? fun own => own.space.isNone && own.name == name).map Attribute.value

/-- The text of a node: an element has that of a text that comes first in it. -/
def content : Node → Option Text
  | text content => some content
  | comment content => some content
  | element _ _ (text content :: _) => some content
  | _ => none

def named (node : Node) (name : String) : Bool := node.isElement && node.tagName == name

mutual

/-- The nodes at and below a node in document order, each with its ancestors behind it. -/
def paths (above : List Node) : Node → List (List Node)
  | root children => (root children :: above) :: pathsAll (root children :: above) children
  | element name attributes children =>
    (element name attributes children :: above) :: pathsAll (element name attributes children :: above) children
  | text content => [text content :: above]
  | comment content => [comment content :: above]
  | instruction => [instruction :: above]

def pathsAll (above : List Node) : List Node → List (List Node)
  | [] => []
  | node :: rest => paths above node ++ pathsAll above rest

end

def descendants (node : Node) : List Node := (paths [] node).filterMap List.head?

end Node

structure Entry where
  size : Nat
  /-- What reading so many bytes of the expanded member gives. -/
  read : Nat → Option (List UInt8)

structure Archive where
  fileNames : List Text
  byName : Text → Option Entry

structure Mail where
  mimetype : String
  /-- `filename` of the disposition and `name` of the content type. -/
  fileName : Option Text
  typeName : Option Text
  rawLength : Nat
  bodyRaw : Option (List UInt8)
  body : Option Text
  subparts : List Mail

/-- The libraries and programs that read the formats. -/
structure Readers where
  parseXml : Text → Option Node
  unzip : List UInt8 → Option Archive
  parseMail : List UInt8 → Option Mail
  pdfText : List UInt8 → Option Text
  html2text : Text → Option Text
  utf8Lossy : List UInt8 → Text
  utf16Lossy : List UInt16 → Text

end Reading

section PlainText

variable (readers : Readers)

def littleEndian : List UInt8 → List UInt16
  | low :: high :: rest => (low.toUInt16 + 256 * high.toUInt16) :: littleEndian rest
  | _ => []

def bigEndian : List UInt8 → List UInt16
  | high :: low :: rest => (low.toUInt16 + 256 * high.toUInt16) :: bigEndian rest
  | _ => []

def decodeDocumentText (bytes : List UInt8) : Text :=
  let text := match bytes with
    | 0xff :: 0xfe :: units => readers.utf16Lossy (littleEndian units)
    | 0xfe :: 0xff :: units => readers.utf16Lossy (bigEndian units)
    | 0xef :: 0xbb :: 0xbf :: rest => readers.utf8Lossy rest
    | bytes => readers.utf8Lossy bytes
  text.filter (· ≠ '\x00')

/-- What follows the first occurrence of a text, after it. -/
def afterFirst (pattern : Text) : Text → Option Text
  | [] => none
  | c :: rest => if pattern <+: c :: rest then some ((c :: rest).drop pattern.length) else afterFirst pattern rest

theorem afterFirst_shorter {pattern text rest : Text} (found : afterFirst pattern text = some rest) :
    rest.length ≤ text.length - pattern.length ∧ text ≠ [] := by
  induction text with
  | nil => cases found
  | cons c tail ih =>
    refine ⟨?_, List.cons_ne_nil c tail⟩
    rw [afterFirst] at found
    split at found
    · cases found
      rw [List.length_drop]
    · have shorter := (ih found).1
      rw [List.length_cons]
      omega

/-- Where `strip_tags` stands. -/
inductive Place
  | outside
  | tag
  | comment
  deriving DecidableEq

def stripFrom (place : Place) (rest : Text) : Text :=
  match rest, place with
  | [], _ => []
  | c :: tail, .comment => match _found : afterFirst "-->".toList (c :: tail) with
    | some rest => stripFrom .outside rest
    | none => []
  | c :: tail, .tag =>
    if "<!--".toList <+: c :: tail then stripFrom .comment ((c :: tail).drop 4)
    else match _found : afterFirst ['>'] (c :: tail) with
      | some rest => stripFrom .outside rest
      | none => []
  | c :: tail, .outside =>
    let before := (c :: tail).takeWhile (· ≠ '<')
    match _found : (c :: tail).dropWhile (· ≠ '<') with
    | [] => before
    | d :: after =>
      if "<!--".toList <+: d :: after then before ++ stripFrom .comment ((d :: after).drop 4)
      else before ++ stripFrom .tag after
termination_by rest.length
decreasing_by
  · have shorter := (afterFirst_shorter _found).1
    rw [show "-->".toList.length = 3 from rfl, List.length_cons] at shorter
    rw [List.length_cons]
    omega
  · simp only [List.drop_succ_cons, List.length_drop, List.length_cons]
    omega
  · have shorter := (afterFirst_shorter _found).1
    simp only [List.length_cons, List.length_nil] at shorter ⊢
    omega
  · have shorter := (List.dropWhile_suffix (l := c :: tail) (· ≠ '<')).length_le
    rw [_found] at shorter
    simp only [List.drop_succ_cons, List.length_drop, List.length_cons] at shorter ⊢
    omega
  · have shorter := (List.dropWhile_suffix (l := c :: tail) (· ≠ '<')).length_le
    rw [_found] at shorter
    simp only [List.length_cons] at shorter ⊢
    omega

def stripTags (html : Text) : Text := stripFrom .outside html

def replacement (entity : Text) : Option Char :=
  match String.ofList entity with
  | "amp" => some '&'
  | "lt" => some '<'
  | "gt" => some '>'
  | "quot" => some '"'
  | "apos" => some (Char.ofNat 39)
  | "nbsp" => some ' '
  | _ => none

def decodeEntities (input : Text) : Text :=
  let before := input.takeWhile (· ≠ '&')
  match _found : input.dropWhile (· ≠ '&') with
  | [] => before
  | _ :: tail =>
    match replacement (tail.takeWhile (· ≠ ';')), _later : tail.dropWhile (· ≠ ';') with
    | some c, _ :: rest => before ++ c :: decodeEntities rest
    | _, _ => before ++ '&' :: decodeEntities tail
termination_by input.length
decreasing_by
  all_goals
    have shorter := (List.dropWhile_suffix (l := input) (· ≠ '&')).length_le
    rw [_found, List.length_cons] at shorter
  · have shorter' := (List.dropWhile_suffix (l := tail) (· ≠ ';')).length_le
    rw [_later, List.length_cons] at shorter'
    omega
  · omega

def blank (text : Text) : Bool := (Library.trim text).isEmpty

def htmlToText (html : Text) : Text :=
  match readers.html2text html with
  | some converted => if blank converted then decodeEntities (stripTags html) else converted
  | none => decodeEntities (stripTags html)

end PlainText

section Accumulation

/-- `body.push_str(&truncate_text(text, TEXT_LIMIT - body.len()))`. -/
def pushBounded (body text : Text) : Checked ε Text := do
  let room ← Checked.minus textLimit (utf8 body).length
  let part ← truncateText text room
  return body ++ part

/-- One more piece of text on lines of its own, where the limit leaves room for it. -/
def pushPiece (body text : Text) : Checked ε (Checked.Flow Text) := do
  let body ← pushBounded body text
  if textLimit ≤ (utf8 body).length then return .stop body else return .onward (body ++ ['\n'])

def unlessBlank (body : Text) : Option Text := if blank body then none else some body

variable (readers : Readers)

def parseXml (raw : Text) : Option Node := if xmlLimit < (utf8 raw).length then none else readers.parseXml raw

/-- Images of FB2 and OpenDocument stand in the text as base64. -/
def embedded (ancestor : Node) : Bool := ancestor.named "binary" || ancestor.named "binary-data"

def lineTags : List String := ["p", "h", "title", "subtitle", "br", "tab", "table-row"]

def cellValues : List String := ["value", "string-value", "date-value", "time-value", "boolean-value"]

/-- The value of an attribute, and a line end where there is room. -/
def pushAttribute (body : Text) : Option Attribute → Checked ε Text
  | none => .returns body
  | some own => do
    let body ← pushBounded body own.value
    if (utf8 body).length < textLimit then return body ++ ['\n'] else return body

def pushNode (body : Text) (node : Node) : Checked ε Text :=
  if node.isText then pushBounded body (node.content.getD [])
  else if node.isElement && lineTags.contains node.tagName then .returns (body ++ ['\n'])
  else if node.named "table" then pushAttribute body (node.attributes.find? fun own => own.name == "name")
  else if node.named "table-cell" && !(node.descendants.any fun child =>
      child.isText && child.content.any fun text => !blank text) then
    pushAttribute body (node.attributes.find? fun own => cellValues.contains own.name)
  else .returns body

/-- The pass of `xml_text` for a node, with its ancestors behind it. -/
def xmlPass (body : Text) : List Node → Checked ε (Checked.Flow Text)
  | [] => .returns (.onward body)
  | node :: above =>
    if (node :: above).any embedded then .returns (.onward body)
    else do
      let body ← pushNode body node
      if textLimit ≤ (utf8 body).length then return .stop body else return .onward body

def xmlText (raw : Text) : Checked ε (Option Text) :=
  match parseXml readers raw with
  | none => .returns none
  | some document => do
    let body ← Checked.scan xmlPass (document.paths []) []
    return unlessBlank body

def cachedValue (node : Node) : Text :=
  ((node.children.find? fun child => child.named "v").bind Node.content).getD []

/-- The texts of the `t` elements of a string. -/
def runsOf (node : Node) : Text := ((node.descendants.filter fun child => child.named "t").filterMap Node.content).flatten

/-- The value of an element of a sheet or of the workbook, if it has one. -/
def cellText (shared : List Text) (workbook : Bool) (node : Node) : Option Text :=
  if node.tagName = "sheet" ∧ workbook then some ((node.attributeOf "name").getD [])
  else if node.tagName = "c" ∧ !workbook then
    match (node.attributeOf "t").map String.ofList with
    | some "s" => some (((parseUnsigned 10 (2 ^ 64) (cachedValue node)).bind fun index => shared[index]?).getD [])
    | some "inlineStr" => some (runsOf node)
    | _ => some (cachedValue node)
  else none

def spreadsheetPass (shared : List Text) (workbook : Bool) (body : Text) (node : Node) : Checked ε (Checked.Flow Text) :=
  match cellText shared workbook node with
  | none => .returns (.onward body)
  | some value => if value.isEmpty then .returns (.onward body) else pushPiece body value

def spreadsheetText (raw : Text) (shared : List Text) (workbook : Bool) : Checked ε (Option Text) :=
  match parseXml readers raw with
  | none => .returns none
  | some document => do
    let body ← Checked.scan (spreadsheetPass shared workbook) (document.descendants.filter Node.isElement) []
    return unlessBlank body

end Accumulation

section Members

variable (readers : Readers)

def lowercase (name : Text) : Text := name.map Char.toLower

def begins (start : String) (name : Text) : Bool := start.toList.isPrefixOf name
def ends (tail : String) (name : Text) : Bool := tail.toList.isSuffixOf name

/-- What comes after the last separator. -/
def lastPart (separator : Char) (name : Text) : Text := (name.reverse.takeWhile (· ≠ separator)).reverse

/-- The members of an archive that hold its text. -/
def holdsText (format : String) (name : Text) : Bool :=
  let lower := lowercase name
  if ["epub", "htmlz"].contains format then [".xhtml", ".html", ".htm"].any fun tail => ends tail lower
  else if format = "txtz" then ends ".txt" lower
  else if format = "cbz" then lastPart '/' lower = "comicinfo.xml".toList
  else if ["docx", "docm"].contains format then
    ["word/document.xml", "word/footnotes.xml", "word/endnotes.xml"].any (fun own => lower = own.toList) ||
      (begins "word/header" lower && ends ".xml" lower) || (begins "word/footer" lower && ends ".xml" lower)
  else if ["odt", "ods", "odp"].contains format then lower = "content.xml".toList
  else if ["pptx", "pptm", "ppsx"].contains format then
    (begins "ppt/slides/slide" lower || begins "ppt/notesslides/notesslide" lower) && ends ".xml" lower
  else if ["xlsx", "xlsm"].contains format then
    lower = "xl/workbook.xml".toList || (begins "xl/worksheets/sheet" lower && ends ".xml" lower)
  else false

def secondary (name : Text) : Bool :=
  name ≠ "word/document.xml".toList && name ≠ "xl/workbook.xml".toList && !begins "ppt/slides/" name

/-- Primary content comes before notes and running headers. -/
def memberLe (a b : Text) : Bool := if secondary a = secondary b then !decide (b < a) else secondary b

/-- The shared strings of a workbook and how many bytes they take. -/
def sharedStrings (archive : Archive) : Nat × List Text :=
  match archive.byName "xl/sharedStrings.xml".toList with
  | none => (0, [])
  | some entry =>
    if xmlLimit < entry.size then (0, [])
    else (entry.size, match (entry.read (xmlLimit + 1)).bind fun bytes => parseXml readers (decodeDocumentText readers bytes) with
      | some document => (document.descendants.filter fun node => node.named "si").map runsOf
      | none => [])

def memberText (format : String) (shared : List Text) (name raw : Text) : Checked ε (Option Text) :=
  if ["xlsx", "xlsm"].contains format then spreadsheetText readers raw shared (name = "xl/workbook.xml".toList)
  else if ["docx", "docm", "odt", "ods", "odp", "pptx", "pptm", "ppsx", "cbz"].contains format then xmlText readers raw
  else if format = "txtz" then .returns (some raw)
  else .returns (some (htmlToText readers raw))

/-- The pass of `zip_text` for a member. It fails where the whole function gives up. -/
def zipPass (archive : Archive) (format : String) (shared : List Text) (state : Nat × Text) (name : Text) :
    Checked Unit (Checked.Flow (Nat × Text)) :=
  match archive.byName name with
  | none => .fails ()
  | some entry =>
    let readLimit := min entry.size xmlLimit
    if xmlLimit * 4 < state.1 + readLimit then .returns (.onward state)
    else if !(["epub", "htmlz", "txtz"].contains format) ∧ xmlLimit < entry.size then .returns (.onward state)
    else
      let inputBytes := state.1 + readLimit
      match entry.read readLimit with
      | none => .returns (.onward (inputBytes, state.2))
      | some bytes => do
        let text ← memberText readers format shared name (decodeDocumentText readers bytes)
        match text.filter fun text => !blank text with
        | none => return .onward (inputBytes, state.2)
        | some text => do
          let flow ← pushPiece state.2 text
          return Checked.Flow.map (inputBytes, ·) flow

def zipText (bytes : List UInt8) (format : String) : Checked ε (Option Text) :=
  match readers.unzip bytes with
  | none => .returns none
  | some archive => do
    let (inputBytes, shared) := if ["xlsx", "xlsm"].contains format then sharedStrings readers archive else (0, [])
    let names := (archive.fileNames.filter (holdsText format)).mergeSort memberLe
    let final ← (Checked.scan (zipPass readers archive format shared) names (inputBytes, [])).orNone
    return final.bind fun state => unlessBlank state.2

end Members

section Limits

variable (readers : Readers)

/-- Within the limit, where a loop may still go on. -/
def WithinLimit (body : Text) : Prop := (utf8 body).length ≤ textLimit

theorem withinLimit_nil : WithinLimit [] := Nat.zero_le _

theorem WithinLimit.unlessBlank {body kept : Text} (within : WithinLimit body) (same : unlessBlank body = some kept) :
    WithinLimit kept := by
  unfold Search.unlessBlank at same
  split at same
  · cases same
  · cases same
    exact within

theorem WithinLimit.line {body : Text} (room : (utf8 body).length < textLimit) : WithinLimit (body ++ ['\n']) := by
  rw [WithinLimit, utf8_append, List.length_append]
  exact room

theorem pushBounded_sound {body : Text} (within : WithinLimit body) (text : Text) :
    (pushBounded body text : Checked ε Text).Sound WithinLimit := by
  refine (Checked.Sound.minus within).bind fun room size => ?_
  refine (truncateText_sound text room).bind fun part small => ?_
  change (utf8 (body ++ part)).length ≤ textLimit
  rw [utf8_append, List.length_append]
  omega

theorem pushPiece_sound {body : Text} (within : WithinLimit body) (text : Text) :
    (pushPiece body text : Checked ε (Checked.Flow Text)).Sound (Checked.Flow.Meets WithinLimit WithinLimit) := by
  refine (pushBounded_sound within text).bind fun body small => ?_
  split
  · exact small
  · rename_i room
    exact WithinLimit.line (Nat.not_le.mp room)

theorem pushAttribute_sound {body : Text} (within : WithinLimit body) (own : Option Attribute) :
    (pushAttribute body own : Checked ε Text).Sound WithinLimit := by
  cases own with
  | none => exact within
  | some own =>
    refine (pushBounded_sound within own.value).bind fun body small => ?_
    split
    · rename_i room
      exact WithinLimit.line room
    · exact small

/-- A node may add a line end without a look at the limit: there is room for one. -/
theorem pushNode_sound {body : Text} (room : (utf8 body).length < textLimit) (node : Node) :
    (pushNode body node : Checked ε Text).Sound WithinLimit := by
  have within : WithinLimit body := Nat.le_of_lt room
  unfold pushNode
  split
  · exact pushBounded_sound within _
  · split
    · exact WithinLimit.line room
    · split
      · exact pushAttribute_sound within _
      · split
        · exact pushAttribute_sound within _
        · exact within

theorem xmlPass_sound {body : Text} (room : (utf8 body).length < textLimit) (path : List Node) :
    (xmlPass body path : Checked ε (Checked.Flow Text)).Sound
      (Checked.Flow.Meets (fun body => (utf8 body).length < textLimit) WithinLimit) := by
  cases path with
  | nil => exact room
  | cons node above =>
    rw [xmlPass]
    split
    · exact room
    · refine (pushNode_sound room node).bind fun body small => ?_
      split
      · exact small
      · rename_i room
        exact Nat.not_le.mp room

/-- The loop of `xml_text` over any nodes. -/
theorem xmlLoop_sound (paths : List (List Node)) : (Checked.scan xmlPass paths [] : Checked ε Text).Sound WithinLimit :=
  Checked.Sound.scan (fun _ room path _ => xmlPass_sound room path) (fun _ room => Nat.le_of_lt room)
    (show 0 < textLimit by decide)

theorem xmlText_sound (raw : Text) :
    (xmlText readers raw : Checked ε (Option Text)).Sound fun found => ∀ text, found = some text → WithinLimit text := by
  unfold xmlText
  split
  · exact nofun
  · exact (xmlLoop_sound _).bind fun _ within _ same => within.unlessBlank same

theorem spreadsheetPass_sound (shared : List Text) (workbook : Bool) {body : Text} (within : WithinLimit body)
    (node : Node) : (spreadsheetPass shared workbook body node : Checked ε (Checked.Flow Text)).Sound
      (Checked.Flow.Meets WithinLimit WithinLimit) := by
  unfold spreadsheetPass
  split
  · exact within
  · split
    · exact within
    · exact pushPiece_sound within _

/-- The loop of `spreadsheet_text` over any elements. -/
theorem spreadsheetLoop_sound (shared : List Text) (workbook : Bool) (nodes : List Node) :
    (Checked.scan (spreadsheetPass shared workbook) nodes [] : Checked ε Text).Sound WithinLimit :=
  Checked.Sound.scan (fun _ within node _ => spreadsheetPass_sound shared workbook within node) (fun _ within => within)
    withinLimit_nil

theorem spreadsheetText_sound (raw : Text) (shared : List Text) (workbook : Bool) :
    (spreadsheetText readers raw shared workbook : Checked ε (Option Text)).Sound
      fun found => ∀ text, found = some text → WithinLimit text := by
  unfold spreadsheetText
  split
  · exact nofun
  · exact (spreadsheetLoop_sound shared workbook _).bind fun _ within _ same => within.unlessBlank same

theorem memberText_safe (format : String) (shared : List Text) (name raw : Text) :
    (memberText readers format shared name raw : Checked ε (Option Text)) ≠ .panics := by
  unfold memberText
  split
  · exact (Checked.Sound.iff.mp (spreadsheetText_sound readers raw shared _)).1
  · split
    · exact (Checked.Sound.iff.mp (xmlText_sound readers raw)).1
    · split <;> nofun

theorem zipPass_sound (archive : Archive) (format : String) (shared : List Text) {state : Nat × Text}
    (within : WithinLimit state.2) (name : Text) : (zipPass readers archive format shared state name).Sound
      (Checked.Flow.Meets (fun state => WithinLimit state.2) fun state => WithinLimit state.2) := by
  unfold zipPass
  cases archive.byName name with
  | none => exact trivial
  | some entry =>
    dsimp only
    split
    · exact within
    · split
      · exact within
      · cases entry.read (min entry.size xmlLimit) with
        | none => exact within
        | some bytes =>
          dsimp only
          refine (Checked.Sound.trivially (memberText_safe readers format shared name _)).bind fun text _ => ?_
          split
          · exact within
          · exact (pushPiece_sound within _).bind fun flow met => met.map (fun _ good => good) fun _ good => good

/-- The loop of `zip_text` over any members. -/
theorem zipLoop_sound (archive : Archive) (format : String) (shared : List Text) (names : List Text) (inputBytes : Nat) :
    (Checked.scan (zipPass readers archive format shared) names (inputBytes, [])).Sound fun state => WithinLimit state.2 :=
  Checked.Sound.scan (fun _ within name _ => zipPass_sound readers archive format shared within name)
    (fun _ within => within) withinLimit_nil

theorem zipText_sound (bytes : List UInt8) (format : String) :
    (zipText readers bytes format : Checked ε (Option Text)).Sound
      fun found => ∀ text, found = some text → WithinLimit text := by
  unfold zipText
  split
  · exact nofun
  · rename_i archive _
    dsimp only
    refine (zipLoop_sound readers archive format _ _ _).orNone.bind fun final within => ?_
    intro text same
    obtain ⟨state, found, kept⟩ := Option.bind_eq_some_iff.mp same
    exact (within state found).unlessBlank kept

end Limits

end NixHomeServer.Search
