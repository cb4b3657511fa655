import Mathlib.Logic.Function.Basic
import NixHomeServer.Library.Runs

/-! The handoff of one user's attachments to Paperless: calls that check four places for a
content, publish it into the consume directory and record it, interleaved at every step with
each other, with the consumer and with other programs that use the directory. -/
namespace NixHomeServer.MailArchive.Paperless

open NixHomeServer.Library

/-- What the key of an attachment is a hash of, besides its place in the archive. -/
structure Attachment where
  sha256 : String
  originalFilename : String
  deriving DecidableEq, Repr

/-- A row of `documents_document`. -/
structure Document where
  id : Nat
  checksum : String
  archiveChecksum : Option String := none
  deleted : Bool := false
  deriving DecidableEq, Repr

/-- A row of `attachment_paperless_handoffs` under its attachment key. -/
structure Handoff where
  sha256 : String
  originalFilename : String
  consumeFilename : String
  sentAt : Nat
  deriving DecidableEq, Repr

/-- A file in the consume directory; a temporary one is a copy about to be linked to its name. -/
structure ConsumeFile where
  name : String
  sha256 : String
  temporary : Bool := false
  deriving DecidableEq, Repr

structure Summary where
  sent : Nat := 0
  alreadyUploaded : Nat := 0
  sentAttachmentKeys : List String := []
  failures : List (String × String) := []
  deriving DecidableEq, Repr

def Summary.successful (s : Summary) : Nat := s.sent + s.alreadyUploaded

section Names

def isWhitespace (c : Char) : Bool :=
  (9 ≤ c.val && c.val ≤ 13) || c.val = 32 || c.val = 0x85 || c.val = 0xA0 || c.val = 0x1680 ||
    (0x2000 ≤ c.val && c.val ≤ 0x200A) || c.val = 0x2028 || c.val = 0x2029 || c.val = 0x202F ||
    c.val = 0x205F || c.val = 0x3000

def isControl (c : Char) : Bool := c.val < 32 || (127 ≤ c.val && c.val < 160)

def trimMatches (p : Char → Bool) (cs : List Char) : List Char :=
  ((cs.dropWhile p).reverse.dropWhile p).reverse

def trim (s : String) : String := String.ofList (trimMatches isWhitespace s.toList)

/-- `split_whitespace` and `join` by a space. -/
def squeeze (cs : List Char) : List Char :=
  [' '].intercalate ((cs.splitOnP isWhitespace).filter fun word => !word.isEmpty)

def filenameComponent (raw fallback : String) : String :=
  let spaced := raw.toList.map fun c => if c = '\x00' || c = '/' || c = '\\' || isControl c then ' ' else c
  let sanitized := String.ofList (trimMatches (fun c => c = '.' || c = ' ') (squeeze spaced))
  if sanitized = "" ∨ sanitized = "." ∨ sanitized = ".." then fallback else sanitized

def isHexDigit (c : Char) : Bool := c.isDigit || ('a' ≤ c && c ≤ 'f') || ('A' ≤ c && c ≤ 'F')

def stripMailArchiveGeneratedPrefix (filename : String) : String :=
  match (filename.toList.splitOn '-' : List (List Char)) with
  | mail :: archive :: date :: time :: token :: first :: more =>
    let original := ['-'].intercalate (first :: more)
    if mail = "mail".toList ∧ archive = "archive".toList ∧ date.length = 8 ∧ date.all Char.isDigit ∧
        time.length = 6 ∧ time.all Char.isDigit ∧ 8 ≤ token.length ∧ token.all isHexDigit ∧
        trimMatches isWhitespace original ≠ [] then
      String.ofList original
    else filename
  | _ => filename

def paperlessConsumeFilename (originalFilename : String) : String :=
  filenameComponent (stripMailArchiveGeneratedPrefix originalFilename) "attachment"

def withSuffix (filename : String) (suffix : Nat) : String :=
  let number := " (" ++ toString suffix ++ ")"
  if suffix = 0 then filename
  else
    match (filename.toList.splitOn '.').reverse with
    | extension :: last :: before =>
      let stem := ['.'].intercalate (last :: before).reverse
      if stem ≠ [] ∧ extension ≠ [] then
        String.ofList stem ++ number ++ "." ++ String.ofList extension
      else filename ++ number
    | _ => filename ++ number

def reserveAvailable (consume : List ConsumeFile) (preferred : String) (reserved : List String) : String :=
  let preferred := filenameComponent preferred "attachment"
  let free := fun suffix => let candidate := withSuffix preferred suffix
    !(candidate ∈ reserved || consume.any fun f => f.name == candidate)
  match (0 :: List.range' 2 998).find? free with
  | some suffix => withSuffix preferred suffix
  | none => withSuffix preferred (1000 + reserved.length)

end Names

/-- The locals of `send_attachments_to_paperless`: the keys not yet taken up, the opened snapshot,
`consume_checksums`, the keys seen and the names reserved. -/
structure Batch where
  keys : List String
  documents : Option (List Document)
  checksums : List (String × String)
  seen : List String := []
  reserved : List String := []
  summary : Summary := {}
  deriving DecidableEq, Repr

namespace Batch

def failed (b : Batch) (key filename : String) : Batch :=
  { b with summary := { b.summary with failures := b.summary.failures ++ [(key, filename)] } }

def already (b : Batch) (key : String) : Batch :=
  { b with summary := { b.summary with
    alreadyUploaded := b.summary.alreadyUploaded + 1
    sentAttachmentKeys := b.summary.sentAttachmentKeys ++ [key] } }

def sent (b : Batch) (key : String) (row : Handoff) : Batch :=
  { b with
    checksums := (row.sha256, row.consumeFilename) :: b.checksums
    summary := { b.summary with
      sent := b.summary.sent + 1
      sentAttachmentKeys := b.summary.sentAttachmentKeys ++ [key] } }

def consumeFilename? (b : Batch) (sha256 : String) : Option String :=
  (b.checksums.find? fun entry => entry.1 == sha256).map Prod.snd

end Batch

/-- The reserved name and the time of a publication. -/
structure Target where
  name : String
  sentAt : Nat
  deriving DecidableEq, Repr

/-- The next step for the key in hand. -/
inductive Stage
  | locking (tries : Nat)
  | unlinking (tries : Nat)
  | syncing
  | byKey
  | loading
  | bySha
  | payload
  | checksum
  | reserving
  | staging (target : Target)
  | linking (target : Target)
  | across (target : Target)
  | copying (target : Target) (tmp : String)
  | relinking (target : Target) (tmp : String)
  | linked (target : Target) (tmp : Option String)
  | recording (row : Handoff) (sent : Bool)
  | releasing (abort : Bool)
  deriving DecidableEq, Repr

inductive Place
  | idle
  | opening (keys : List String)
  | indexing (keys : List String) (documents : Option (List Document))
  | next (b : Batch)
  | item (key : String) (b : Batch) (stage : Stage)
  | returned (result : Option Summary)
  deriving DecidableEq, Repr

/-- The last three record, for the contents, what was published by the calls, what else was put
into the consume directory, and every checksum that a document had. -/
structure System where
  now : Nat := 0
  configured : Bool := true
  consume : List ConsumeFile := []
  documents : List Document := []
  snapshot : Option (Nat × List Document) := none
  handoffs : List (String × Handoff) := []
  locks : String → Option Nat := fun _ => none
  calls : List Place := []
  published : List String := []
  arrived : List String := []
  checksums : List String := []

namespace System

def place (s : System) (n : Nat) : Place := s.calls[n]?.getD .idle

def goto (s : System) (n : Nat) (place : Place) : System := { s with calls := s.calls.set n place }

def taken (s : System) (name : String) : Bool := s.consume.any fun f => f.name == name

def unlink (s : System) (name : String) : System :=
  { s with consume := s.consume.filter fun f => f.name != name }

end System

def documentChecksums (documents : List Document) : List String :=
  documents.flatMap fun d => d.checksum :: d.archiveChecksum.toList

/-- `ORDER BY key DESC LIMIT 1`, one row at a time. -/
def latest {α : Type} (key : α → Nat) (best : Option α) (row : α) : Option α :=
  match best with
  | none => some row
  | some b => if key b < key row then some row else some b

def loadAttachmentPaperlessHandoffBySha (rows : List (String × Handoff)) (sha256 : String) : Option Handoff :=
  ((rows.map Prod.snd).filter fun row => row.sha256 == sha256).foldl (latest Handoff.sentAt) none

def loadPaperlessDocumentByChecksum (documents : Option (List Document)) (checksum : String) : Option Document :=
  match documents with
  | none => none
  | some documents =>
    (documents.filter fun d => !d.deleted && (d.checksum == checksum || d.archiveChecksum == some checksum)).foldl
      (latest Document.id) none

def recordAttachmentPaperlessHandoff (rows : List (String × Handoff)) (key : String) (row : Handoff) :
    List (String × Handoff) :=
  (key, row) :: rows.filter fun r => r.1 != key

/-- The files that could be read, the first of a content first. -/
def indexPaperlessConsumeFiles (consume : List ConsumeFile) (skipped : List String) : List (String × String) :=
  (consume.filter fun f => !skipped.contains f.name).map fun f => (f.sha256, f.name)

/-- What a step meets outside: entries of the consume directory that cannot be read, a link
across devices, the name and the bytes so far of a temporary copy, a name that stays taken. -/
inductive Input
  | step
  | skipped (names : List String)
  | crossDevice
  | temporary (name sha256 : String)
  | retry
  deriving DecidableEq, Repr

section Steps

-- The attachment that a key is made from, and the MD5 of a content with a given SHA-256.
variable (attachment : String → Attachment) (md5 : String → String)

def Handoff.of (a : Attachment) (consumeFilename : String) (sentAt : Nat) : Handoff :=
  ⟨a.sha256, a.originalFilename, consumeFilename, sentAt⟩

/-- `open_paperless_database` with a snapshot of at most ten minutes. -/
def openPaperlessDatabase (s : System) : Option (Option (List Document)) :=
  if s.configured then
    match s.snapshot with
    | none => none
    | some (modified, documents) =>
      if s.now < modified ∨ s.now - modified > 600 then none else some (some documents)
  else some none

/-- One step of the loop body for a key; a step that gives up on the key goes on to the release. -/
def System.workItem (s : System) (n : Nat) (key : String) (b : Batch) (input : Input) : Stage → System
  | .locking 0 => s.goto n (.next (b.failed key "attachment"))
  | .locking (tries + 1) =>
    match s.locks key with
    | none => { s with locks := Function.update s.locks key (some s.now) }.goto n (.item key b .syncing)
    | some modified =>
      if s.now - modified > 1800 then s.goto n (.item key b (.unlinking tries))
      else s.goto n (.next (b.failed key "attachment"))
  | .unlinking tries =>
    { s with locks := Function.update s.locks key none }.goto n (.item key b (.locking tries))
  | .syncing => s.goto n (.item key b .byKey)
  | .byKey =>
    if s.handoffs.any fun r => r.1 == key then s.goto n (.item key (b.already key) (.releasing false))
    else s.goto n (.item key b .loading)
  | .loading => s.goto n (.item key b .bySha)
  | .bySha =>
    match loadAttachmentPaperlessHandoffBySha s.handoffs (attachment key).sha256 with
    | some row =>
      s.goto n (.item key b (.recording (.of (attachment key) row.consumeFilename row.sentAt) false))
    | none => s.goto n (.item key b .payload)
  | .payload =>
    match b.consumeFilename? (attachment key).sha256 with
    | some name => s.goto n (.item key b (.recording (.of (attachment key) name s.now) false))
    | none => s.goto n (.item key b .checksum)
  | .checksum =>
    match loadPaperlessDocumentByChecksum b.documents (md5 (attachment key).sha256) with
    | some d =>
      s.goto n (.item key b
        (.recording (.of (attachment key) ("paperless-document-" ++ toString d.id) s.now) false))
    | none => s.goto n (.item key b .reserving)
  | .reserving =>
    let name := reserveAvailable s.consume (paperlessConsumeFilename (attachment key).originalFilename) b.reserved
    s.goto n (.item key { b with reserved := name :: b.reserved } (.staging ⟨name, s.now⟩))
  | .staging target => s.goto n (.item key b (.linking target))
  | .linking target =>
    if s.taken target.name then s.goto n (.item key (b.failed key target.name) (.releasing false))
    else if input = .crossDevice then s.goto n (.item key b (.across target))
    else
      { s with
        consume := { name := target.name, sha256 := (attachment key).sha256 } :: s.consume
        published := (attachment key).sha256 :: s.published }.goto n (.item key b (.linked target none))
  | .across target =>
    match input with
    | .temporary tmp sha256 =>
      if s.taken tmp then s.goto n (.item key (b.failed key target.name) (.releasing false))
      else { s with consume := { name := tmp, sha256 := sha256, temporary := true } :: s.consume }.goto n
        (.item key b (.copying target tmp))
    | _ => s
  | .copying target tmp =>
    match input with
    | .temporary _ sha256 =>
      { s with consume := s.consume.map fun f : ConsumeFile =>
        if f.name = tmp ∧ f.temporary then { f with sha256 := sha256 } else f }
    | _ =>
      { s with consume := s.consume.map fun f : ConsumeFile =>
        if f.name = tmp ∧ f.temporary then { f with sha256 := (attachment key).sha256 } else f }.goto n
        (.item key b (.relinking target tmp))
  | .relinking target tmp =>
    if s.taken target.name then
      (s.unlink tmp).goto n (if input = .retry then .item key b (.across target)
        else .item key (b.failed key target.name) (.releasing false))
    else if s.taken tmp then
      { s with
        consume := { name := target.name, sha256 := (attachment key).sha256 } :: s.consume
        published := (attachment key).sha256 :: s.published }.goto n (.item key b (.linked target (some tmp)))
    else s.goto n (.item key (b.failed key target.name) (.releasing false))
  | .linked target tmp =>
    { s with consume := s.consume.filter fun f => some f.name != tmp }.goto n
      (.item key b (.recording (.of (attachment key) target.name target.sentAt) true))
  | .recording row sent =>
    { s with handoffs := recordAttachmentPaperlessHandoff s.handoffs key row }.goto n
      (.item key (if sent then b.sent key row else b.already key) (.releasing false))
  | .releasing abort =>
    { s with locks := Function.update s.locks key none }.goto n (if abort then .returned none else .next b)

def System.work (s : System) (n : Nat) (input : Input) : System :=
  match s.place n with
  | .opening keys =>
    match openPaperlessDatabase s with
    | none => s.goto n (.returned none)
    | some documents => s.goto n (.indexing keys documents)
  | .indexing keys documents =>
    let skipped := match input with
      | .skipped names => names
      | _ => []
    s.goto n (.next {
      keys := keys, documents := documents, checksums := indexPaperlessConsumeFiles s.consume skipped })
  | .next b =>
    match b.keys with
    | [] => s.goto n (.returned (if b.summary.successful = 0 ∧ b.summary.failures = [] then none else some b.summary))
    | raw :: keys =>
      let key := trim raw
      if key = "" ∨ key ∈ b.seen then s.goto n (.next { b with keys := keys })
      else s.goto n (.item key { b with keys := keys, seen := key :: b.seen } (.locking 2))
  | .item key b stage => s.workItem attachment md5 n key b input stage
  | .idle | .returned _ => s

/-- An error of the current step, after what it has done to the directory. -/
def System.failItem (s : System) (n : Nat) (key : String) (b : Batch) : Stage → System
  | .locking _ | .unlinking _ | .syncing => s.goto n (.next (b.failed key "attachment"))
  | .byKey | .bySha => s.goto n (.item key b (.releasing true))
  | .loading => s.goto n (.item key (b.failed key "attachment") (.releasing false))
  | .payload =>
    s.goto n (.item key (b.failed key (paperlessConsumeFilename (attachment key).originalFilename)) (.releasing false))
  | .checksum => s.goto n (.item key b .reserving)
  | .reserving => s
  | .staging target | .linking target | .across target | .linked target _ =>
    s.goto n (.item key (b.failed key target.name) (.releasing false))
  | .copying target tmp | .relinking target tmp =>
    (s.unlink tmp).goto n (.item key (b.failed key target.name) (.releasing false))
  | .recording row _ => s.goto n (.item key (b.failed key row.consumeFilename) (.releasing false))
  | .releasing abort => s.goto n (if abort then .returned none else .next b)

def System.fail (s : System) (n : Nat) : System :=
  match s.place n with
  | .opening _ | .indexing _ _ => s.goto n (.returned none)
  | .item key b stage => s.failItem attachment n key b stage
  | _ => s

/-- Calls and their steps, errors and deaths; a new snapshot; the consumer and other programs. -/
inductive Event
  | call (keys : List String)
  | work (n : Nat) (input : Input)
  | fail (n : Nat)
  | crash (n : Nat)
  | tick (seconds : Nat)
  | snapshot
  | take (name : String)
  | arrive (name sha256 : String)
  | store (documents : List Document)
  deriving DecidableEq, Repr

def System.step (s : System) : Event → System
  | .call keys => { s with calls := s.calls ++ [.opening keys] }
  | .work n input => s.work attachment md5 n input
  | .fail n => s.fail attachment n
  | .crash n => s.goto n .idle
  | .tick seconds => { s with now := s.now + seconds }
  | .snapshot => { s with snapshot := some (s.now, s.documents) }
  | .take name => s.unlink name
  | .arrive name sha256 =>
    if s.taken name then s
    else { s with consume := { name := name, sha256 := sha256 } :: s.consume, arrived := sha256 :: s.arrived }
  | .store documents =>
    { s with documents := documents, checksums := documentChecksums documents ++ s.checksums }

end Steps

end NixHomeServer.MailArchive.Paperless
