import NixHomeServer.Search.Documents

/-! The text of a mail from its parts, and what the byte bounds of all extractors guarantee. -/
namespace NixHomeServer.Search

open NixHomeServer.Library

variable {ε : Type} (readers : Readers)

section Parts

def lowerString (text : String) : String := String.ofList (lowercase text.toList)

def attachmentName (mail : Mail) : Checked ε (Option Text) :=
  match (mail.fileName.or mail.typeName).filter fun name => !blank name with
  | none => .returns none
  | some name => do
    let name ← truncateText name 4096
    return some name

def textTypes : List String :=
  ["text/plain", "text/html", "text/markdown", "text/csv", "text/tab-separated-values"]

/-- The format of a part by its type, or by the file name where the type is none of its own. -/
def formatOf (mime name : String) : Option String :=
  match mime with
  | "application/pdf" => some "pdf"
  | "application/epub+zip" => some "epub"
  | "application/vnd.openxmlformats-officedocument.wordprocessingml.document" => some "docx"
  | "application/vnd.oasis.opendocument.text" => some "odt"
  | "application/vnd.oasis.opendocument.spreadsheet" => some "ods"
  | "application/vnd.oasis.opendocument.presentation" => some "odp"
  | "application/vnd.openxmlformats-officedocument.spreadsheetml.sheet" => some "xlsx"
  | "application/vnd.openxmlformats-officedocument.presentationml.presentation" => some "pptx"
  | "application/vnd.openxmlformats-officedocument.presentationml.slideshow" => some "ppsx"
  | "application/vnd.ms-word.document.macroenabled.12" => some "docm"
  | "application/vnd.ms-excel.sheet.macroenabled.12" => some "xlsm"
  | "application/vnd.ms-powerpoint.presentation.macroenabled.12" => some "pptm"
  | "application/x-fictionbook+xml" => some "fb2"
  | "message/rfc822" => some "eml"
  | "application/octet-stream" => some (String.ofList (lastPart '.' name.toList))
  | _ => none

def partFormats : List String :=
  ["pdf", "epub", "docx", "docm", "odt", "ods", "odp", "xlsx", "xlsm", "pptx", "pptm", "ppsx", "fb2", "htmlz", "txtz",
    "eml", "txt", "md", "csv", "html", "htm"]

def zipFormats : List String :=
  ["epub", "docx", "docm", "odt", "ods", "odp", "xlsx", "xlsm", "pptx", "pptm", "ppsx", "htmlz", "txtz"]

def marked : List UInt8 → Bool
  | 0xff :: 0xfe :: _ => true
  | 0xfe :: 0xff :: _ => true
  | _ => false

/-- The text of a part of a text type. -/
def plainPart (mail : Mail) (mime : String) : Checked ε Text := do
  let raw := match mail.bodyRaw.filter marked with
    | some bytes => decodeDocumentText readers bytes
    | none => mail.body.getD []
  let bounded ← truncateText raw textLimit
  if mime = "text/html" then truncateText (htmlToText readers bounded) textLimit else return bounded

section Passes

-- The text of a part, and how many parts may be read after it.
variable (read : Mail → Nat → Checked ε (Text × Nat))

/-- Alternatives describe the same content: the first that can be read is taken. -/
def alternativePass (state : Text × Nat) (part : Mail) : Checked ε (Checked.Flow (Text × Nat)) := do
  let (text, remaining) ← read part state.2
  if blank text then return .onward (state.1, remaining) else return .stop (text, remaining)

def partsPass (state : Text × Nat) (part : Mail) : Checked ε (Checked.Flow (Text × Nat)) := do
  let (text, remaining) ← read part state.2
  if blank text then return .onward (state.1, remaining)
  else do
    let flow ← pushPiece state.1 text
    return flow.map (·, remaining)

/-- The text of an attachment by its format. -/
def documentPart (format : String) (bytes : List UInt8) (remaining : Nat) : Checked ε (Option Text × Nat) :=
  if format = "pdf" then .returns (readers.pdfText bytes, remaining)
  else if zipFormats.contains format then do
    let text ← zipText readers bytes format
    return (text, remaining)
  else if format = "fb2" then do
    let text ← xmlText readers (decodeDocumentText readers bytes)
    return (text, remaining)
  else if format = "eml" then
    match readers.parseMail bytes with
    | none => .returns (none, remaining)
    | some nested => do
      let (text, remaining) ← read nested remaining
      return (some text, remaining)
  else if format = "html" ∨ format = "htm" then
    .returns (some (htmlToText readers (decodeDocumentText readers bytes)), remaining)
  else .returns (some (decodeDocumentText readers bytes), remaining)

end Passes

/-- The text of a part and how many parts may still be read. -/
def textParts (depth : Nat) (mail : Mail) (remaining : Nat) : Checked ε (Text × Nat) :=
  if _over : 16 < depth ∨ remaining = 0 then .returns ([], remaining)
  else
    let remaining := remaining - 1
    let mime := lowerString mail.mimetype
    if !mail.subparts.isEmpty then
      if mime = "multipart/alternative" then
        Checked.scan (alternativePass fun part remaining => textParts (depth + 1) part remaining) mail.subparts.reverse
          ([], remaining)
      else
        Checked.scan (partsPass fun part remaining => textParts (depth + 1) part remaining) mail.subparts ([], remaining)
    else if textTypes.contains mime then do
      let text ← plainPart readers mail mime
      return (text, remaining)
    else do
      let name ← attachmentName mail
      match (formatOf mime (lowerString (String.ofList (name.getD [])))).filter partFormats.contains with
      | none => return ([], remaining)
      | some format =>
        if 8000000 < mail.rawLength then return ([], remaining)
        else match mail.bodyRaw with
          | none => return ([], remaining)
          | some bytes => do
            let (text, remaining) ← documentPart readers (fun part remaining => textParts (depth + 1) part remaining) format bytes remaining
            let text ← truncateText (text.getD []) textLimit
            return (text, remaining)
termination_by 17 - depth
decreasing_by all_goals omega

end Parts

section Limits

variable {read : Mail → Nat → Checked ε (Text × Nat)}

theorem alternativePass_sound {state : Text × Nat} (within : WithinLimit state.1) {part : Mail}
    (sound : ∀ remaining, (read part remaining).Sound fun result => WithinLimit result.1) :
    (alternativePass read state part).Sound
      (Checked.Flow.Meets (fun state => WithinLimit state.1) fun state => WithinLimit state.1) := by
  refine (sound state.2).bind fun result bounded => ?_
  dsimp only
  split
  · exact within
  · exact bounded

theorem partsPass_sound {state : Text × Nat} (within : WithinLimit state.1) {part : Mail}
    (sound : ∀ remaining, (read part remaining).Sound fun result => WithinLimit result.1) :
    (partsPass read state part).Sound
      (Checked.Flow.Meets (fun state => WithinLimit state.1) fun state => WithinLimit state.1) := by
  refine (sound state.2).bind fun result _ => ?_
  dsimp only
  split
  · exact within
  · exact (pushPiece_sound within result.1).bind fun flow met => met.map (fun _ good => good) fun _ good => good

/-- The loop of `text_parts` over any parts. -/
theorem partsLoop_sound (parts : List Mail) (remaining : Nat)
    (sound : ∀ part ∈ parts, ∀ remaining, (read part remaining).Sound fun result => WithinLimit result.1) :
    (Checked.scan (partsPass read) parts ([], remaining)).Sound fun state => WithinLimit state.1 :=
  Checked.Sound.scan (fun _ within part member => partsPass_sound within (sound part member)) (fun _ within => within)
    withinLimit_nil

theorem alternativeLoop_sound (parts : List Mail) (remaining : Nat)
    (sound : ∀ part ∈ parts, ∀ remaining, (read part remaining).Sound fun result => WithinLimit result.1) :
    (Checked.scan (alternativePass read) parts ([], remaining)).Sound fun state => WithinLimit state.1 :=
  Checked.Sound.scan (fun _ within part member => alternativePass_sound within (sound part member))
    (fun _ within => within) withinLimit_nil

theorem documentPart_safe (format : String) (bytes : List UInt8) (remaining : Nat)
    (sound : ∀ part remaining, (read part remaining).Sound fun result => WithinLimit result.1) :
    (documentPart readers read format bytes remaining).Sound fun _ => True := by
  unfold documentPart
  split
  · trivial
  · split
    · exact (zipText_sound readers bytes format).bind fun _ _ => trivial
    · split
      · exact (xmlText_sound readers _).bind fun _ _ => trivial
      · split
        · split
          · trivial
          · exact (sound _ remaining).bind fun _ _ => trivial
        · split <;> trivial

theorem attachmentName_safe (mail : Mail) : (attachmentName mail : Checked ε (Option Text)) ≠ .panics := by
  unfold attachmentName
  split
  · nofun
  · rename_i name _
    have sound : (truncateText name 4096 >>= fun name => Checked.returns (some name) : Checked ε (Option Text)).Sound
        fun _ => True := (truncateText_sound name 4096).bind fun _ _ => trivial
    exact (Checked.Sound.iff.mp sound).1

theorem plainPart_sound (mail : Mail) (mime : String) :
    (plainPart readers mail mime : Checked ε Text).Sound WithinLimit := by
  refine (truncateText_sound _ textLimit).bind fun bounded small => ?_
  split
  · exact truncateText_sound _ textLimit
  · exact small

/-- A part's text keeps the limit, however deep the part and whatever is left to read. -/
theorem textParts_sound (depth : Nat) (mail : Mail) (remaining : Nat) :
    (textParts readers depth mail remaining : Checked ε (Text × Nat)).Sound fun result => WithinLimit result.1 := by
  rw [textParts]
  split
  · exact withinLimit_nil
  · rename_i spent
    have deeper (part : Mail) (remaining : Nat) :
        (textParts readers (depth + 1) part remaining : Checked ε (Text × Nat)).Sound fun result => WithinLimit result.1 :=
      textParts_sound (depth + 1) part remaining
    dsimp only
    split
    · split
      · exact alternativeLoop_sound _ _ fun part _ => deeper part
      · exact partsLoop_sound _ _ fun part _ => deeper part
    · split
      · exact (plainPart_sound readers mail _).bind fun text small => small
      · refine (Checked.Sound.trivially (attachmentName_safe mail)).bind fun name _ => ?_
        split
        · exact withinLimit_nil
        · split
          · exact withinLimit_nil
          · split
            · exact withinLimit_nil
            · refine (documentPart_safe readers _ _ _ deeper).bind fun result _ => ?_
              exact (truncateText_sound _ textLimit).bind fun text small => small
termination_by 17 - depth
decreasing_by omega

end Limits

section Guarantees

/-- Every loop returns with a body within the limit after any sequence of nodes, members or parts, so
that what is left of the limit can always be computed; a member that is gone ends `zip_text` with
nothing. -/
structure Accumulates : Prop where
  nodes : ∀ paths, ∃ body, (Checked.scan xmlPass paths [] : Checked Empty Text) = .returns body ∧ WithinLimit body
  cells : ∀ shared workbook nodes, ∃ body,
    (Checked.scan (spreadsheetPass shared workbook) nodes [] : Checked Empty Text) = .returns body ∧ WithinLimit body
  members : ∀ archive format shared names inputBytes,
    (Checked.scan (zipPass readers archive format shared) names (inputBytes, [])).Sound fun state => WithinLimit state.2
  parts : ∀ depth parts remaining, ∃ state,
    (Checked.scan (partsPass fun part remaining => textParts readers depth part remaining) parts ([], remaining) :
      Checked Empty (Text × Nat)) = .returns state ∧ WithinLimit state.1
  xml : ∀ raw, ∃ found, (xmlText readers raw : Checked Empty (Option Text)) = .returns found ∧
    ∀ text, found = some text → WithinLimit text
  spreadsheet : ∀ raw shared workbook, ∃ found,
    (spreadsheetText readers raw shared workbook : Checked Empty (Option Text)) = .returns found ∧
      ∀ text, found = some text → WithinLimit text
  zip : ∀ bytes format, ∃ found, (zipText readers bytes format : Checked Empty (Option Text)) = .returns found ∧
    ∀ text, found = some text → WithinLimit text
  mail : ∀ depth mail remaining, ∃ result,
    (textParts readers depth mail remaining : Checked Empty (Text × Nat)) = .returns result ∧ WithinLimit result.1

theorem accumulates : Accumulates readers where
  nodes paths := (xmlLoop_sound paths).returned
  cells shared workbook nodes := (spreadsheetLoop_sound shared workbook nodes).returned
  members archive format shared names inputBytes := zipLoop_sound readers archive format shared names inputBytes
  parts depth parts remaining :=
    (partsLoop_sound parts remaining fun part _ remaining => textParts_sound readers depth part remaining).returned
  xml raw := (xmlText_sound readers raw).returned
  spreadsheet raw shared workbook := (spreadsheetText_sound readers raw shared workbook).returned
  zip bytes format := (zipText_sound readers bytes format).returned
  mail depth mail remaining := (textParts_sound readers depth mail remaining).returned

/-- No byte bound of the extractors ends an extraction: the helpers cut a text at the last boundary
within the limit, and the loops keep theirs. -/
structure BoundsHold (text : Text) (limit : Nat) : Prop where
  shared : BoundsText truncateText text limit
  snippet : BoundsText boundedPrefix text limit
  zim : BoundsText Kiwix.truncate text limit
  body : BoundsText (fun text limit => boundBody limit text) text limit
  snapshot : ∀ entry, ∃ body, (buildBody entry : Checked Empty Text) = .returns body ∧
    LongestWithin bodyLimit (joinedParts entry).toList body
  loops : Accumulates readers

theorem boundsHold_iff (text : Text) (limit : Nat) :
    BoundsHold readers text limit ↔ (utf8 text).length ≤ limit ∨ isCharBoundary text limit = true :=
  ⟨fun holds => Kiwix.truncate_bounds_iff.mp holds.zim,
    fun either =>
      { shared := truncateText_bounds text limit
        snippet := boundedPrefix_bounds text limit
        zim := Kiwix.truncate_bounds_iff.mpr either
        body := boundBody_bounds text limit
        snapshot := fun entry => boundBody_bounds (joinedParts entry).toList bodyLimit
        loops := accumulates readers }⟩

/-- An article one byte of whose last letter is beyond the limit. -/
theorem article_not_bounded :
    (Kiwix.truncate (List.replicate 999999 'a' ++ ['é']) Kiwix.fulltextBodyLimit : Checked Empty Text) = .panics ∧
      ∀ readers, ¬ BoundsHold readers (List.replicate 999999 'a' ++ ['é']) Kiwix.fulltextBodyLimit := by
  have size : (utf8 (List.replicate 999999 'a')).length = 999999 := by
    rw [length_utf8_of_ascii fun c member => List.eq_of_mem_replicate member ▸ by decide, List.length_replicate]
  have inside : isCharBoundary (List.replicate 999999 'a' ++ ['é']) Kiwix.fulltextBodyLimit = false := by
    have shifted := isCharBoundary_append (List.replicate 999999 'a') ['é'] 1
    rw [size] at shifted
    exact shifted.trans (by decide)
  have large : ¬ (utf8 (List.replicate 999999 'a' ++ ['é'])).length ≤ Kiwix.fulltextBodyLimit := by
    rw [utf8_append, List.length_append, size]
    decide
  constructor
  · rw [Kiwix.truncate, if_neg large, sliceTo_of_inside inside]
    rfl
  · intro readers holds
    rcases Kiwix.truncate_bounds_iff.mp holds.zim with small | boundary
    · exact large small
    · rw [inside] at boundary
      cases boundary

end Guarantees

end NixHomeServer.Search
