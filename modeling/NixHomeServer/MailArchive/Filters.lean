import Mathlib.Data.List.Infix
import NixHomeServer.MailArchive.HeaderWords
import NixHomeServer.MailArchive.ZipNames

/-! The filters of the attachment list: how the fields of a query or a form are read, and how
messages and attachments are held against them. -/
namespace NixHomeServer.MailArchive.Filters

open NixHomeServer.Library
open NixHomeServer.MailArchive.HeaderWords (Text decodeDisplayHeaderValue)

/-- An address as the mail parser reads one: its display name and its address. -/
structure SingleInfo where
  displayName : Option Text
  addr : Text
  deriving DecidableEq, Repr

inductive MailAddr where
  | single (info : SingleInfo)
  | group (addrs : List SingleInfo)
  deriving DecidableEq, Repr

/-- What is read of other packages: `%Y-%m-%d` as days since 1970, and the addresses of a header. -/
structure Readers where
  parseDate : Text → Except String Int
  addrparse : Text → Option (List MailAddr)

section Fields

def toAsciiLowercase (text : Text) : Text := text.map Char.toLower

/-- A text that is there once its ends are trimmed. -/
def trimmedValue (raw : Option Text) : Option Text := (raw.map trim).filter (· ≠ [])

def optionalTrimmed (raw : Option Text) : Text := (trimmedValue raw).getD []

def parseQueryBool (raw : Option Text) : Except String (Option Bool) :=
  match trimmedValue raw with
  | some value => match String.ofList (toAsciiLowercase value) with
    | "1" | "true" | "yes" | "on" => .ok (some true)
    | "0" | "false" | "no" | "off" => .ok (some false)
    | _ => .error ("invalid boolean query value '" ++ String.ofList value ++ "'")
  | none => .ok none

def queryBoolIsTrue (raw : Option Text) : Bool :=
  match parseQueryBool raw with
  | .ok (some true) => true
  | _ => false

/-- Why digits are no number up to `limit`: the first that is none, or the first that leads beyond. -/
def digitsFault (limit : Nat) (beyond : String) : Nat → Text → String
  | _, [] => "cannot parse integer from empty string"
  | n, c :: rest => match digitOf 10 c with
    | none => "invalid digit found in string"
    | some d => if limit < n * 10 + d then beyond else digitsFault limit beyond (n * 10 + d) rest

def signedFault : Text → String
  | ['+'] | ['-'] => "invalid digit found in string"
  | '+' :: rest => digitsFault (2 ^ 63 - 1) "number too large to fit in target type" 0 rest
  | '-' :: rest => digitsFault (2 ^ 63) "number too small to fit in target type" 0 rest
  | text => digitsFault (2 ^ 63 - 1) "number too large to fit in target type" 0 text

def unsignedFault : Text → String
  | ['+'] | ['-'] => "invalid digit found in string"
  | '+' :: rest => digitsFault (2 ^ 64 - 1) "number too large to fit in target type" 0 rest
  | text => digitsFault (2 ^ 64 - 1) "number too large to fit in target type" 0 text

def parseOptionalQueryI64 (raw : Option Text) : Except String (Option Int) :=
  match trimmedValue raw with
  | some value => match parseSigned (2 ^ 63) value with
    | some v => .ok (some v)
    | none => .error ("invalid integer '" ++ String.ofList value ++ "': " ++ signedFault value)
  | none => .ok none

def parseOptionalUsize (raw : Option Text) (label : String) : Except String (Option Nat) :=
  match trimmedValue raw with
  | some value => match parseUnsigned 10 (2 ^ 64) value with
    | some v => .ok (some v)
    | none => .error ("invalid " ++ label ++ " '" ++ String.ofList value ++ "': " ++ unsignedFault value)
  | none => .ok none

def parseOptionalNonnegativeI64 (raw : Option Text) (label : String) : Except String (Option Int) := do
  match ← parseOptionalQueryI64 raw with
  | some v => if v < 0 then .error (label ++ " cannot be negative") else .ok (some v)
  | none => .ok none

/-- The second of the day `seconds` after the start of the day that `raw` names. -/
def parseDateAt (readers : Readers) (seconds : Int) (raw : Text) (label : String) : Except String (Option Int) :=
  let trimmed := trim raw
  if trimmed = [] then .ok none
  else match readers.parseDate trimmed with
    | .error e => .error ("invalid " ++ label ++ " date '" ++ String.ofList trimmed ++ "': " ++ e)
    | .ok day => .ok (some (day * 86400 + seconds))

def parseDateStart (readers : Readers) := parseDateAt readers 0

def parseDateEnd (readers : Readers) := parseDateAt readers 86399

end Fields

section Senders

structure SenderIdentity where
  address : Text
  domain : Text
  deriving DecidableEq, Repr

structure SenderDisplay where
  primary : Text
  secondary : Option Text
  deriving DecidableEq, Repr

def isQuote (c : Char) : Bool := c = '<' || c = '>' || c = '"' || c = '\''

def normalizeSenderAddress (rawAddress : Text) : Option SenderIdentity := do
  let address := toAsciiLowercase (trimBy isQuote (trim rawAddress))
  let (local', domain) ← cutAtLast '@' address
  let domain := trimBy (· = '.') (trim domain)
  if trim local' = [] ∨ domain = [] ∨ '/' ∈ domain ∨ '@' ∈ domain ∨ address.any isWhitespace then none
  else some { address, domain }

def normalizeSenderDomain (rawDomain : Text) : Option Text :=
  let domain := toAsciiLowercase (trimBy (· = '.') (trimBy isQuote ((trim rawDomain).dropWhile (· = '@'))))
  if domain = [] ∨ '@' ∈ domain ∨ '/' ∈ domain ∨ domain.any isWhitespace then none else some domain

def cleanSenderDisplayPart (value : Text) : Text := trim (trimBy isQuote (trim value))

def fallbackSenderIdentity (rawSender : Text) : Option SenderIdentity := do
  let candidate ← (rawSender.splitOnP fun c => isWhitespace c || isQuote c || c = ',' || c = ';').find? ('@' ∈ ·)
  normalizeSenderAddress candidate

/-- A group stands for its first address. -/
def MailAddr.first : MailAddr → Option SingleInfo
  | .single info => some info
  | .group addrs => addrs.head?

def senderIdentityFromHeader (readers : Readers) (rawSender : Text) : Option SenderIdentity :=
  ((readers.addrparse rawSender).bind fun addresses =>
    addresses.findSome? fun address => address.first.bind fun info => normalizeSenderAddress info.addr).or
  (fallbackSenderIdentity rawSender)

def senderDisplayFromParts (rawName : Option Text) (email : Text) : SenderDisplay :=
  match (rawName.map cleanSenderDisplayPart).filter fun name => name ≠ [] ∧ toAsciiLowercase name ≠ toAsciiLowercase email with
  | some name => { primary := name, secondary := some email }
  | none => { primary := email, secondary := none }

def senderDisplayFromHeader (readers : Readers) (rawSender : Text) : SenderDisplay :=
  let read := (readers.addrparse rawSender).bind fun addresses =>
    addresses.findSome? fun address => address.first.bind fun info =>
      let email := cleanSenderDisplayPart info.addr
      if email = [] then none else some (senderDisplayFromParts info.displayName email)
  match read with
  | some display => display
  | none => match fallbackSenderIdentity rawSender with
    | some identity => { primary := identity.address, secondary := none }
    | none => { primary := cleanSenderDisplayPart rawSender, secondary := none }

end Senders

section Filters

structure MessageSearchFilters where
  q : Text := []
  senderAddress : Text := []
  senderName : Text := []
  senderDomain : Text := []
  subject : Text := []
  bodyText : Text := []
  dateFrom : Text := []
  dateTo : Text := []
  hasAttachments : Option Bool := none
  deriving DecidableEq, Repr

structure ParsedMessageSearchFilters where
  raw : MessageSearchFilters := {}
  normalizedSenderAddress : Option Text := none
  normalizedSenderDomain : Option Text := none
  dateFromTimestamp : Option Int := none
  dateToTimestamp : Option Int := none
  deriving DecidableEq, Repr

structure AttachmentSearchFilters where
  message : MessageSearchFilters := {}
  extension : Text := []
  attachmentName : Text := []
  mimeType : Text := []
  minSize : Text := []
  maxSize : Text := []
  minAttachments : Text := []
  maxAttachments : Text := []
  deriving DecidableEq, Repr

structure ParsedAttachmentSearchFilters where
  raw : AttachmentSearchFilters := {}
  minSizeBytes : Option Int := none
  maxSizeBytes : Option Int := none
  minAttachmentCount : Option Nat := none
  maxAttachmentCount : Option Nat := none
  deriving DecidableEq, Repr

def normalizedOr {α : Type} (value : Text) (normalize : Text → Option α) (error : String) : Except String (Option α) :=
  if trim value = [] then .ok none
  else match normalize value with
    | some normal => .ok (some normal)
    | none => .error error

/-- Both are there and in the wrong order. -/
def crossed {α : Type} [LT α] [DecidableLT α] : Option α → Option α → Bool
  | some low, some high => decide (high < low)
  | _, _ => false

def parseMessageSearchFilters (readers : Readers) (filters : MessageSearchFilters) : Except String ParsedMessageSearchFilters := do
  let normalizedSenderAddress ← normalizedOr filters.senderAddress
    (fun value => (normalizeSenderAddress value).map SenderIdentity.address) "Sender address must be a valid email address."
  let normalizedSenderDomain ← normalizedOr filters.senderDomain normalizeSenderDomain "Sender domain must be a valid mail domain."
  let dateFromTimestamp ← parseDateStart readers filters.dateFrom "from"
  let dateToTimestamp ← parseDateEnd readers filters.dateTo "to"
  if crossed dateFromTimestamp dateToTimestamp then .error "Date from must be before date to."
  else .ok { raw := filters, normalizedSenderAddress, normalizedSenderDomain, dateFromTimestamp, dateToTimestamp }

def parseAttachmentSearchFilters (readers : Readers) (filters : AttachmentSearchFilters) :
    Except String ParsedAttachmentSearchFilters := do
  let _ ← parseMessageSearchFilters readers filters.message
  let minSizeBytes ← parseOptionalNonnegativeI64 (some filters.minSize) "minimum size"
  let maxSizeBytes ← parseOptionalNonnegativeI64 (some filters.maxSize) "maximum size"
  if crossed minSizeBytes maxSizeBytes then .error "Minimum size must be less than or equal to maximum size."
  else do
    let minAttachmentCount ← parseOptionalUsize (some filters.minAttachments) "minimum attachment count"
    let maxAttachmentCount ← parseOptionalUsize (some filters.maxAttachments) "maximum attachment count"
    if crossed minAttachmentCount maxAttachmentCount then
      .error "Minimum attachment count must be less than or equal to maximum attachment count."
    else .ok { raw := filters, minSizeBytes, maxSizeBytes, minAttachmentCount, maxAttachmentCount }

theorem parseAttachmentSearchFilters_raw {readers : Readers} {filters : AttachmentSearchFilters} {parsed : ParsedAttachmentSearchFilters}
    (read : parseAttachmentSearchFilters readers filters = .ok parsed) :
    parsed.raw = filters ∧ ∃ message, parseMessageSearchFilters readers filters.message = .ok message := by
  unfold parseAttachmentSearchFilters at read
  cases first : parseMessageSearchFilters readers filters.message with
  | error e =>
    rw [first] at read
    cases read
  | ok message =>
    rw [first] at read
    refine ⟨?_, message, rfl⟩
    simp only [bind, Except.bind] at read
    repeat' split at read
    all_goals cases read
    rfl

def messageFiltersWithoutGeneralQuery (filters : MessageSearchFilters) : MessageSearchFilters := { filters with q := [] }

/-- The general query is not read with the other filters. -/
theorem parse_withoutGeneralQuery {readers : Readers} {filters : MessageSearchFilters} {parsed : ParsedMessageSearchFilters}
    (read : parseMessageSearchFilters readers filters = .ok parsed) :
    parseMessageSearchFilters readers (messageFiltersWithoutGeneralQuery filters) =
      .ok { parsed with raw := messageFiltersWithoutGeneralQuery filters } := by
  unfold parseMessageSearchFilters at read ⊢
  simp only [bind, Except.bind, messageFiltersWithoutGeneralQuery] at read ⊢
  repeat' split at read
  all_goals cases read
  simp only [*]
  rfl

end Filters

section Matching

/-- What the filters are held against of a message and of an attachment. -/
structure LiveMessageRecord where
  from' : Text
  subject : Text
  timestamp : Int
  deriving DecidableEq, Repr

structure AttachmentRecord where
  originalFilename : Text
  safeFilename : Text
  extension : Text
  mimeType : Text
  sizeBytes : Int
  deriving DecidableEq, Repr

structure AttachmentListItem where
  attachment : AttachmentRecord
  message : LiveMessageRecord
  accountName : Text
  deriving DecidableEq, Repr

def contains (text needle : Text) : Bool := needle <:+: text

def messageMatchesFilters (readers : Readers) (metadata : LiveMessageRecord) (filters : ParsedMessageSearchFilters)
    (hasAttachments : Option Bool) : Bool :=
  if filters.dateFromTimestamp.any (metadata.timestamp < ·) then false
  else if filters.dateToTimestamp.any (· < metadata.timestamp) then false
  else if filters.normalizedSenderAddress.any fun expected =>
      (senderIdentityFromHeader readers metadata.from').all (·.address ≠ expected) then false
  else if filters.normalizedSenderDomain.any fun expected =>
      (senderIdentityFromHeader readers metadata.from').all (·.domain ≠ expected) then false
  else if trim filters.raw.senderName ≠ [] ∧
      !(let needle := toAsciiLowercase filters.raw.senderName
        contains (toAsciiLowercase (senderDisplayFromHeader readers metadata.from').primary) needle ||
          contains (toAsciiLowercase metadata.from') needle) then false
  else if trim filters.raw.subject ≠ [] ∧
      !contains (toAsciiLowercase metadata.subject) (toAsciiLowercase filters.raw.subject) then false
  else if filters.raw.hasAttachments.any fun expected => hasAttachments ≠ some expected then false
  else true

def attachmentMatchesFilters (item : AttachmentListItem) (filters : ParsedAttachmentSearchFilters)
    (attachmentCount : Nat) : Bool :=
  if filters.raw.extension ≠ [] ∧ item.attachment.extension ≠ filters.raw.extension then false
  else if filters.raw.attachmentName ≠ [] ∧
      !contains (toAsciiLowercase item.attachment.originalFilename) (toAsciiLowercase filters.raw.attachmentName) then false
  else if filters.raw.mimeType ≠ [] ∧ !contains (toAsciiLowercase item.attachment.mimeType) filters.raw.mimeType then false
  else if filters.minSizeBytes.any (item.attachment.sizeBytes < ·) then false
  else if filters.maxSizeBytes.any (· < item.attachment.sizeBytes) then false
  else if filters.minAttachmentCount.any (attachmentCount < ·) then false
  else if filters.maxAttachmentCount.any (· < attachmentCount) then false
  else true

def attachmentGeneralQueryMatches (item : AttachmentListItem) (query : Text) (messageBodyMatch : Bool) : Checked Empty Bool := do
  let needle := toAsciiLowercase (trim query)
  if messageBodyMatch then return true
  else if needle = [] then return true
  else
    let subject ← decodeDisplayHeaderValue item.message.subject
    let sender ← decodeDisplayHeaderValue item.message.from'
    return [item.attachment.originalFilename, item.attachment.safeFilename, item.attachment.extension,
      item.attachment.mimeType, item.accountName, subject, sender].any fun value => contains (toAsciiLowercase value) needle

end Matching

end NixHomeServer.MailArchive.Filters
