import NixHomeServer.Library.Runs

/-! The attachment catalogue of one account and its refresh from the files that notmuch lists. -/
namespace NixHomeServer.MailArchive.Catalogue

open NixHomeServer.Library

/-- A listed file with the signal that tells whether it changed. -/
structure MessageFile where
  relpath : String
  mtime : Int
  size : Nat
  deriving DecidableEq, Repr

/-- An extracted attachment; the other columns of its row are made of these. -/
structure Extracted where
  sha256 : String
  originalFilename : String
  mimeType : String
  sizeBytes : Nat
  isInlineImage : Bool := false
  deriving DecidableEq, Repr

structure Message where
  key : String
  subject : String := ""
  sender : String := ""
  timestamp : Int := 0
  sha256 : String
  attachments : List Extracted
  deriving DecidableEq, Repr

/-- A row of `attachment_messages`. -/
structure MessageRow where
  messageKey : String
  relpath : String
  mtime : Int
  size : Nat
  subject : String
  sender : String
  timestamp : Int
  lastScannedAt : Nat
  hasAttachments : Bool
  deriving DecidableEq, Repr

/-- A row of `attachment_catalog`; its key is a hash over the message key, the index, the digest
and the name. -/
structure AttachmentRow where
  messageKey : String
  attachmentIndex : Nat
  extracted : Extracted
  sourceMessageSha256 : String
  lastSeenAt : Nat
  deriving DecidableEq, Repr

structure Catalog where
  messages : List MessageRow := []
  attachments : List AttachmentRow := []
  deriving DecidableEq, Repr

def MessageRow.of (m : Message) (file : MessageFile) (now : Nat) : MessageRow where
  messageKey := m.key
  relpath := file.relpath
  mtime := file.mtime
  size := file.size
  subject := m.subject
  sender := m.sender
  timestamp := m.timestamp
  lastScannedAt := now
  hasAttachments := !m.attachments.isEmpty

def attachmentRows (m : Message) (now : Nat) : List AttachmentRow :=
  m.attachments.mapIdx fun index e => ⟨m.key, index, e, m.sha256, now⟩

namespace Catalog

def messagesOf (c : Catalog) (key : String) : List MessageRow := c.messages.filter fun row => row.messageKey == key

def attachmentsOf (c : Catalog) (key : String) : List AttachmentRow :=
  c.attachments.filter fun row => row.messageKey == key

def deleteAttachments (c : Catalog) (key : String) : Catalog :=
  { c with attachments := c.attachments.filter fun row => row.messageKey != key }

def deleteMessages (c : Catalog) (gone : MessageRow → Bool) : Catalog :=
  { c with messages := c.messages.filter fun row => !gone row }

def insert (c : Catalog) (row : MessageRow) (attachments : List AttachmentRow) : Catalog :=
  ⟨c.messages ++ [row], c.attachments ++ attachments⟩

end Catalog

/-- The transaction of a refresh and the two sets that it fills. -/
structure Pass where
  catalog : Catalog
  seenRelpaths : List String := []
  seenMessageKeys : List String := []
  deriving DecidableEq, Repr

def existingByRelpath (existing : List MessageRow) (relpath : String) : Option MessageRow :=
  existing.find? fun record => record.relpath == relpath

/-- The earlier row of a file that has not changed since. -/
def unchangedRow (existing : List MessageRow) (file : MessageFile) : Option MessageRow :=
  (existingByRelpath existing file.relpath).filter fun record =>
    record.mtime == file.mtime && record.size == file.size

section Refresh

-- What reading a file and extracting its attachments give.
variable (message : MessageFile → Message)

def visit (existing : List MessageRow) (now : Nat) (p : Pass) (file : MessageFile) : Pass :=
  match unchangedRow existing file with
  | some record => { p with
      seenRelpaths := file.relpath :: p.seenRelpaths
      seenMessageKeys := record.messageKey :: p.seenMessageKeys }
  | none =>
    let m := message file
    if m.key ∈ p.seenMessageKeys then p
    else
      let cleared := match existingByRelpath existing file.relpath with
        | some old => p.catalog.deleteAttachments old.messageKey
        | none => p.catalog
      let replaced := (cleared.deleteAttachments m.key).deleteMessages fun row =>
        row.relpath == file.relpath || row.messageKey == m.key
      { catalog := replaced.insert (.of m file now) (attachmentRows m now)
        seenRelpaths := file.relpath :: p.seenRelpaths
        seenMessageKeys := m.key :: p.seenMessageKeys }

def sweep (c : Catalog) (stale : MessageRow) : Catalog :=
  (c.deleteAttachments stale.messageKey).deleteMessages fun row => row.messageKey == stale.messageKey

/-- `refresh_attachment_catalog` up to its commit. -/
def refreshAttachmentCatalog (c : Catalog) (files : List MessageFile) (now : Nat) : Catalog :=
  let p := files.foldl (visit message c.messages now) { catalog := c }
  (c.messages.filter fun row => !p.seenRelpaths.contains row.relpath).foldl sweep p.catalog

/-- The files that notmuch lists, each once. -/
abbrev Listing := { files : List MessageFile // (files.map MessageFile.relpath).Nodup }

/-- The catalogue and the listing of the last refresh that committed. -/
structure System where
  catalog : Catalog := {}
  listed : Listing := ⟨[], List.nodup_nil⟩

/-- A refresh over the maildir as it is then; one that fails is rolled back. -/
inductive Event
  | refresh (files : Listing) (now : Nat)
  | rollback

def System.step (s : System) : Event → System
  | .refresh files now => { catalog := refreshAttachmentCatalog message s.catalog files.val now, listed := files }
  | .rollback => s

/-- One message row for each key of the listed files, of one of the files with that key, with
exactly its attachments, and nothing else. -/
def Agrees (files : List MessageFile) (c : Catalog) : Prop :=
  ∀ key,
    (key ∈ files.map (fun file => (message file).key) → ∃ file ∈ files, (message file).key = key ∧ ∃ now,
      c.messagesOf key = [.of (message file) file now] ∧ c.attachmentsOf key = attachmentRows (message file) now) ∧
    (key ∉ files.map (fun file => (message file).key) → c.messagesOf key = [] ∧ c.attachmentsOf key = [])

def firstOf (files : List MessageFile) (key : String) : Option MessageFile :=
  files.find? fun file => (message file).key == key

/-- The files that come after the first one with a key. -/
def after (files : List MessageFile) (key : String) : List MessageFile :=
  (files.dropWhile fun file => (message file).key != key).tail

/-- For each row whose message key has a listed file: the first one is the row's own file, or the
row's file is listed too, and it is unchanged, or it is the first of its new key and either comes
before that file or that file has no attachments. -/
def Meets (c : Catalog) (files : List MessageFile) : Prop :=
  ∀ row ∈ c.messages, ∀ file ∈ firstOf message files row.messageKey, file.relpath ≠ row.relpath →
    ∃ own ∈ files, own.relpath = row.relpath ∧
      ((unchangedRow c.messages own).isSome ∨
        firstOf message files (message own).key = some own ∧
          (own ∉ after message files row.messageKey ∨ (message file).attachments = []))

instance (c : Catalog) (files : List MessageFile) : Decidable (Meets message c files) :=
  inferInstanceAs (Decidable (∀ row ∈ c.messages, ∀ file ∈ firstOf message files row.messageKey,
    file.relpath ≠ row.relpath → ∃ own ∈ files, own.relpath = row.relpath ∧
      ((unchangedRow c.messages own).isSome ∨
        firstOf message files (message own).key = some own ∧
          (own ∉ after message files row.messageKey ∨ (message file).attachments = []))))

def System.Meets (s : System) : Event → Prop
  | .refresh files _ => Catalogue.Meets message s.catalog files.val
  | .rollback => True

instance (s : System) (event : Event) : Decidable (s.Meets message event) := by
  unfold System.Meets
  split <;> infer_instance

end Refresh

end NixHomeServer.MailArchive.Catalogue
