import NixHomeServer.Library.FormUrlencoded
import NixHomeServer.MailArchive.Filters
import NixHomeServer.MailArchive.Subfolders

/-! Saved attachment filters: the query that a preset's or a task's form is stored as, and that
it is read back as what the form meant. -/
namespace NixHomeServer.MailArchive.Filters

open NixHomeServer.Library
open NixHomeServer.MailArchive.HeaderWords (Text)
open NixHomeServer.MailArchive.ZipNames (normalizeDownloadSubfolder)

section Parameters

/-- The fields that the forms of a preset and of a scheduled task share. -/
structure FilterForm where
  q : Option Text := none
  accountId : Option Text := none
  priority : Option Text := none
  senderAddress : Option Text := none
  senderName : Option Text := none
  senderDomain : Option Text := none
  subject : Option Text := none
  bodyText : Option Text := none
  dateFrom : Option Text := none
  dateTo : Option Text := none
  hasAttachments : Option Text := none
  extension : Option Text := none
  attachmentName : Option Text := none
  mimeType : Option Text := none
  minSize : Option Text := none
  maxSize : Option Text := none
  minAttachments : Option Text := none
  maxAttachments : Option Text := none
  includeInline : Option Text := none
  includeInlineImages : Option Text := none
  showMimeDetails : Option Text := none
  downloadSubfolder : Option Text := none
  deriving DecidableEq, Repr

abbrev AttachmentPresetSaveForm := FilterForm

abbrev AttachmentPaperlessTaskSaveForm := FilterForm

structure AttachmentListParams where
  q : Option Text := none
  accountId : Option Int := none
  priority : Option Text := none
  senderAddress : Option Text := none
  senderName : Option Text := none
  senderDomain : Option Text := none
  subject : Option Text := none
  bodyText : Option Text := none
  dateFrom : Option Text := none
  dateTo : Option Text := none
  hasAttachments : Option Text := none
  extension : Option Text := none
  extensionCustom : Option Text := none
  attachmentName : Option Text := none
  mimeType : Option Text := none
  minSize : Option Text := none
  maxSize : Option Text := none
  minAttachments : Option Text := none
  maxAttachments : Option Text := none
  includeInline : Option Text := none
  includeInlineImages : Option Text := none
  showMimeDetails : Option Text := none
  downloadSubfolder : Option Text := none
  deriving DecidableEq, Repr

/-- Either form as parameters of the list. -/
def attachmentParamsFromForm (form : FilterForm) : Except String AttachmentListParams := do
  let accountId ← parseOptionalQueryI64 form.accountId
  return {
    q := form.q
    accountId
    priority := form.priority
    senderAddress := form.senderAddress
    senderName := form.senderName
    senderDomain := form.senderDomain
    subject := form.subject
    bodyText := form.bodyText
    dateFrom := form.dateFrom
    dateTo := form.dateTo
    hasAttachments := form.hasAttachments
    extension := form.extension
    extensionCustom := none
    attachmentName := form.attachmentName
    mimeType := form.mimeType
    minSize := form.minSize
    maxSize := form.maxSize
    minAttachments := form.minAttachments
    maxAttachments := form.maxAttachments
    includeInline := form.includeInline
    includeInlineImages := form.includeInlineImages
    showMimeDetails := form.showMimeDetails
    downloadSubfolder := form.downloadSubfolder }

def attachmentParamsFromPresetForm (form : AttachmentPresetSaveForm) : Except String AttachmentListParams :=
  attachmentParamsFromForm form

def attachmentParamsFromPaperlessTaskForm (form : AttachmentPaperlessTaskSaveForm) : Except String AttachmentListParams :=
  attachmentParamsFromForm form

def assign (params : AttachmentListParams) (key : String) (value : Text) : Except String AttachmentListParams :=
  match key with
  | "q" => .ok { params with q := some value }
  | "account_id" => (parseOptionalQueryI64 (some value)).map fun accountId => { params with accountId }
  | "priority" => .ok { params with priority := some value }
  | "sender_address" => .ok { params with senderAddress := some value }
  | "sender_name" => .ok { params with senderName := some value }
  | "sender_domain" => .ok { params with senderDomain := some value }
  | "subject" => .ok { params with subject := some value }
  | "body_text" => .ok { params with bodyText := some value }
  | "date_from" => .ok { params with dateFrom := some value }
  | "date_to" => .ok { params with dateTo := some value }
  | "has_attachments" => .ok { params with hasAttachments := some value }
  | "extension" => .ok { params with extension := some value }
  | "extension_custom" => .ok { params with extensionCustom := some value }
  | "attachment_name" => .ok { params with attachmentName := some value }
  | "mime_type" => .ok { params with mimeType := some value }
  | "min_size" => .ok { params with minSize := some value }
  | "max_size" => .ok { params with maxSize := some value }
  | "min_attachments" => .ok { params with minAttachments := some value }
  | "max_attachments" => .ok { params with maxAttachments := some value }
  | "include_inline" => .ok { params with includeInline := some value }
  | "include_inline_images" => .ok { params with includeInlineImages := some value }
  | "show_mime_details" => .ok { params with showMimeDetails := some value }
  | "download_subfolder" => .ok { params with downloadSubfolder := some value }
  | _ => .ok params

def assignAll (params : AttachmentListParams) (pairs : List (Text × Text)) : Except String AttachmentListParams :=
  pairs.foldlM (fun params pair => assign params (String.ofList pair.1) pair.2) params

def attachmentParamsFromQuery (query : Text) : Except String AttachmentListParams :=
  assignAll {} (FormUrlencoded.parse (utf8 query))

def messageFiltersFromAttachmentParams (params : AttachmentListParams) : MessageSearchFilters where
  q := optionalTrimmed params.q
  senderAddress := optionalTrimmed params.senderAddress
  senderName := optionalTrimmed params.senderName
  senderDomain := optionalTrimmed params.senderDomain
  subject := optionalTrimmed params.subject
  bodyText := optionalTrimmed params.bodyText
  dateFrom := optionalTrimmed params.dateFrom
  dateTo := optionalTrimmed params.dateTo
  hasAttachments := none

def attachmentFiltersFromParams (params : AttachmentListParams) : AttachmentSearchFilters :=
  let customExtension := toAsciiLowercase (optionalTrimmed params.extensionCustom)
  let extension :=
    if customExtension = [] then toAsciiLowercase (optionalTrimmed params.extension) else customExtension
  { message := messageFiltersFromAttachmentParams params
    extension
    attachmentName := optionalTrimmed params.attachmentName
    mimeType := []
    minSize := optionalTrimmed params.minSize
    maxSize := optionalTrimmed params.maxSize
    minAttachments := []
    maxAttachments := [] }

inductive SenderPriorityFilter where
  | all
  | high
  | normal
  | low
  deriving DecidableEq, Repr

def SenderPriorityFilter.fromQuery (raw : Option Text) : SenderPriorityFilter :=
  match trimmedValue raw with
  | some value => match String.ofList value with
    | "all" => .all
    | "high" => .high
    | "normal" => .normal
    | "low" => .low
    | _ => .all
  | none => .all

def SenderPriorityFilter.asQueryValue : SenderPriorityFilter → String
  | .all => "all"
  | .high => "high"
  | .normal => "normal"
  | .low => "low"

end Parameters

section Queries

def unreserved (byte : UInt8) : Bool :=
  (65 ≤ byte.toNat && byte.toNat ≤ 90) || (97 ≤ byte.toNat && byte.toNat ≤ 122) ||
    (48 ≤ byte.toNat && byte.toNat ≤ 57) || byte = 0x2D || byte = 0x5F || byte = 0x2E || byte = 0x7E

def upperHex (n : Nat) : Char := Char.ofNat (if n < 10 then 48 + n else 55 + n)

def urlEncodeComponent (value : Text) : Text :=
  (utf8 value).flatMap fun byte =>
    if unreserved byte then [Char.ofNat byte.toNat]
    else if byte = 0x20 then ['+']
    else ['%', upperHex (byte.toNat / 16), upperHex (byte.toNat % 16)]

/-- A field that is written only where it has a value. -/
def filled (key : String) (value : Text) : List (String × Text) := if trim value = [] then [] else [(key, trim value)]

def switched (key : String) (on : Bool) : List (String × Text) := if on then [(key, ['1'])] else []

def messageFilterQueryPairs (filters : MessageSearchFilters) : List (String × Text) :=
  filled "q" filters.q ++ filled "sender_address" filters.senderAddress ++ filled "sender_name" filters.senderName ++
    filled "sender_domain" filters.senderDomain ++ filled "subject" filters.subject ++ filled "body_text" filters.bodyText ++
    filled "date_from" filters.dateFrom ++ filled "date_to" filters.dateTo ++
    match filters.hasAttachments with
    | some value => [("has_attachments", if value then ['1'] else ['0'])]
    | none => []

def attachmentFilterQueryPairs (filters : AttachmentSearchFilters) : List (String × Text) :=
  filled "extension" filters.extension ++ filled "attachment_name" filters.attachmentName ++
    filled "min_size" filters.minSize ++ filled "max_size" filters.maxSize

structure AttachmentBaseQuery where
  filters : AttachmentSearchFilters
  selectedAccountId : Option Int
  priorityFilter : SenderPriorityFilter
  includeInline : Bool
  includeInlineImages : Bool
  showMimeDetails : Bool
  downloadSubfolder : Text
  deriving DecidableEq, Repr

def accountPairs : Option Int → List (String × Text)
  | some accountId => [("account_id", intText accountId)]
  | none => []

def priorityPairs (filter : SenderPriorityFilter) : List (String × Text) :=
  if filter ≠ .all then [("priority", filter.asQueryValue.toList)] else []

def AttachmentBaseQuery.pairs (state : AttachmentBaseQuery) : List (String × Text) :=
  messageFilterQueryPairs state.filters.message ++ accountPairs state.selectedAccountId ++
    priorityPairs state.priorityFilter ++ attachmentFilterQueryPairs state.filters ++ switched "include_inline" state.includeInline ++
    switched "include_inline_images" state.includeInlineImages ++ switched "show_mime_details" state.showMimeDetails ++
    filled "download_subfolder" state.downloadSubfolder

def buildAttachmentBaseQuery (state : AttachmentBaseQuery) : Text :=
  ['&'].intercalate (state.pairs.map fun pair => pair.1.toList ++ '=' :: urlEncodeComponent pair.2)

/-- What the parameters say, once they are accepted. -/
def baseQueryOf (readers : Readers) (params : AttachmentListParams) : Except String AttachmentBaseQuery := do
  let parsedFilters ← parseAttachmentSearchFilters readers (attachmentFiltersFromParams params)
  let downloadSubfolder ← normalizeDownloadSubfolder (String.ofList (params.downloadSubfolder.getD []))
  return {
    filters := parsedFilters.raw
    selectedAccountId := params.accountId
    priorityFilter := SenderPriorityFilter.fromQuery params.priority
    includeInline := queryBoolIsTrue params.includeInline
    includeInlineImages := queryBoolIsTrue params.includeInlineImages
    showMimeDetails := queryBoolIsTrue params.showMimeDetails
    downloadSubfolder := downloadSubfolder.toList }

def attachmentPresetQueryFromForm (readers : Readers) (form : AttachmentPresetSaveForm) : Except String Text := do
  let params ← attachmentParamsFromPresetForm form
  return buildAttachmentBaseQuery (← baseQueryOf readers params)

def attachmentPaperlessTaskQueryFromForm (readers : Readers) (form : AttachmentPaperlessTaskSaveForm) : Except String Text := do
  let params ← attachmentParamsFromPaperlessTaskForm form
  return buildAttachmentBaseQuery (← baseQueryOf readers params)

end Queries

section Encoding

variable {value : Text} {byte : UInt8}

theorem unreserved_plain (byte : UInt8) (keep : unreserved byte = true) : FormUrlencoded.Plain byte ∧ byte.toNat < 128 := by
  have each : ∀ n < 256, unreserved (UInt8.ofNat n) = true → FormUrlencoded.Plain (UInt8.ofNat n) ∧ n < 128 := by
    decide +kernel
  have known := each byte.toNat byte.toNat_lt
  rw [UInt8.ofNat_toNat] at known
  exact known keep

theorem upperHex_eq : ∀ n < 16, (upperHex n).toNat < 128 ∧ UInt8.ofNat (upperHex n).toNat = FormUrlencoded.hexChar n := by
  decide

theorem toNat_ofNat_ascii : ∀ n < 128, (Char.ofNat n).toNat = n := by
  decide

theorem utf8_ascii {c : Char} (small : c.toNat < 128) (rest : Text) : utf8 (c :: rest) = UInt8.ofNat c.toNat :: utf8 rest := by
  rw [utf8_cons, encode_of_ascii small, List.singleton_append]

/-- The component's encoding, as bytes. -/
theorem utf8_urlEncodeComponent (value : Text) : utf8 (urlEncodeComponent value) = FormUrlencoded.encode unreserved value := by
  rw [urlEncodeComponent, FormUrlencoded.encode]
  induction utf8 value with
  | nil => rfl
  | cons byte rest ih =>
    rw [List.flatMap_cons, List.flatMap_cons, utf8_append, ih]
    congr 1
    rw [FormUrlencoded.encodeByte]
    split
    · rename_i keep
      have small := (unreserved_plain byte keep).2
      have char := toNat_ofNat_ascii byte.toNat small
      rw [utf8_ascii (by rw [char]; exact small), char, UInt8.ofNat_toNat]
      rfl
    · split
      · rfl
      · have large := byte.toNat_lt
        obtain ⟨small, high⟩ := upperHex_eq (byte.toNat / 16) (by omega)
        obtain ⟨small', low⟩ := upperHex_eq (byte.toNat % 16) (by omega)
        rw [utf8_ascii (by decide), utf8_ascii small, utf8_ascii small', high, low]
        rfl

/-- The names of the fields that a query is written with. -/
def fieldNames : List String :=
  ["q", "sender_address", "sender_name", "sender_domain", "subject", "body_text", "date_from", "date_to", "has_attachments",
    "account_id", "priority", "extension", "attachment_name", "min_size", "max_size", "include_inline",
    "include_inline_images", "show_mime_details", "download_subfolder"]

theorem fieldNames_plain : ∀ key ∈ fieldNames, ∀ b ∈ utf8 key.toList, FormUrlencoded.Plain b := by
  have table : (fieldNames.all fun key => (utf8 key.toList).all fun b => decide (FormUrlencoded.Plain b)) = true := by
    decide
  intro key member b inside
  exact of_decide_eq_true (List.all_eq_true.mp (List.all_eq_true.mp table key member) b inside)

theorem mem_filled {key : String} {pair : String × Text} (member : pair ∈ filled key value) : pair.1 = key := by
  unfold filled at member
  split at member
  · exact absurd member List.not_mem_nil
  · rw [List.mem_singleton.mp member]

theorem mem_switched {key : String} {on : Bool} {pair : String × Text} (member : pair ∈ switched key on) : pair.1 = key := by
  unfold switched at member
  split at member
  · rw [List.mem_singleton.mp member]
  · exact absurd member List.not_mem_nil

theorem pairs_named (state : AttachmentBaseQuery) : ∀ pair ∈ state.pairs, pair.1 ∈ fieldNames := by
  have text : ∀ key ∈ fieldNames, ∀ value, ∀ pair ∈ filled key value, pair.1 ∈ fieldNames :=
    fun key named value pair member => mem_filled member ▸ named
  have switch : ∀ key ∈ fieldNames, ∀ on, ∀ pair ∈ switched key on, pair.1 ∈ fieldNames :=
    fun key named on pair member => mem_switched member ▸ named
  have other : ∀ key ∈ fieldNames, ∀ value : Text, ∀ pair ∈ [(key, value)], pair.1 ∈ fieldNames :=
    fun key named value pair member => List.mem_singleton.mp member ▸ named
  unfold AttachmentBaseQuery.pairs messageFilterQueryPairs attachmentFilterQueryPairs
  simp only [List.forall_mem_append, and_assoc]
  refine ⟨text _ (by decide) _, text _ (by decide) _, text _ (by decide) _, text _ (by decide) _, text _ (by decide) _,
    text _ (by decide) _, text _ (by decide) _, text _ (by decide) _, ?_, ?_, ?_, text _ (by decide) _, text _ (by decide) _,
    text _ (by decide) _, text _ (by decide) _, switch _ (by decide) _, switch _ (by decide) _, switch _ (by decide) _,
    text _ (by decide) _⟩
  · cases state.filters.message.hasAttachments with
    | none => exact fun pair member => absurd member List.not_mem_nil
    | some value => exact other _ (by decide) _
  · cases state.selectedAccountId with
    | none => exact fun pair member => absurd member List.not_mem_nil
    | some accountId => exact other _ (by decide) _
  · unfold priorityPairs
    split
    · exact other _ (by decide) _
    · exact fun pair member => absurd member List.not_mem_nil

theorem utf8_joined (texts : List Text) : utf8 (['&'].intercalate texts) = [0x26].intercalate (texts.map utf8) := by
  induction texts with
  | nil => rfl
  | cons text rest ih =>
    cases rest with
    | nil => simp
    | cons next rest =>
      rw [List.intercalate_cons_cons, utf8_append, utf8_append, ih]
      simp only [List.map_cons, List.intercalate_cons_cons]
      rfl

theorem utf8_pair (key value : Text) :
    utf8 (key ++ '=' :: urlEncodeComponent value) = FormUrlencoded.writePair unreserved (key, value) := by
  have equals : utf8 ('=' :: urlEncodeComponent value) = 0x3D :: utf8 (urlEncodeComponent value) := utf8_ascii (by decide) _
  rw [utf8_append, equals, utf8_urlEncodeComponent]
  rfl

/-- The query's pairs are what is read from it. -/
theorem parse_buildAttachmentBaseQuery (state : AttachmentBaseQuery) :
    FormUrlencoded.parse (utf8 (buildAttachmentBaseQuery state)) = state.pairs.map fun pair => (pair.1.toList, pair.2) := by
  have written : utf8 (buildAttachmentBaseQuery state) =
      FormUrlencoded.write unreserved (state.pairs.map fun pair => (pair.1.toList, pair.2)) := by
    rw [buildAttachmentBaseQuery, utf8_joined, FormUrlencoded.write, List.map_map, List.map_map]
    exact congrArg _ (List.map_congr_left fun pair _ => utf8_pair pair.1.toList pair.2)
  rw [written]
  refine FormUrlencoded.parse_write (fun b keep => (unreserved_plain b keep).1) fun pair member => ?_
  obtain ⟨field, among, rfl⟩ := List.mem_map.mp member
  exact fieldNames_plain _ (pairs_named state field among)

end Encoding

section Decoding

variable {params : AttachmentListParams} {value : Text}

/-- What a written field leaves of the one that was there. -/
def written (value : Text) (old : Option Text) : Option Text := if trim value = [] then old else some (trim value)

def assignPairs (params : AttachmentListParams) (pairs : List (String × Text)) : Except String AttachmentListParams :=
  pairs.foldlM (fun params pair => assign params pair.1 pair.2) params

theorem assignAll_map (params : AttachmentListParams) (pairs : List (String × Text)) :
    assignAll params (pairs.map fun pair => (pair.1.toList, pair.2)) = assignPairs params pairs := by
  induction pairs generalizing params with
  | nil => rfl
  | cons pair rest ih =>
    simp only [assignAll, assignPairs, List.map_cons, List.foldlM_cons, String.ofList_toList] at ih ⊢
    exact bind_congr ih

theorem assignPairs_append (params : AttachmentListParams) (left right : List (String × Text)) :
    assignPairs params (left ++ right) = assignPairs params left >>= fun params => assignPairs params right :=
  List.foldlM_append

/-- A text field of the parameters, with the name it is read under. -/
structure Field (key : String) where
  get : AttachmentListParams → Option Text
  set : AttachmentListParams → Option Text → AttachmentListParams
  sets : ∀ params value, assign params key value = .ok (set params (some value))
  set_get : ∀ params, set params (get params) = params

namespace Field

def q : Field "q" := ⟨(·.q), fun p x => { p with q := x }, fun _ _ => rfl, fun _ => rfl⟩
def priority : Field "priority" := ⟨(·.priority), fun p x => { p with priority := x }, fun _ _ => rfl, fun _ => rfl⟩
def senderAddress : Field "sender_address" :=
  ⟨(·.senderAddress), fun p x => { p with senderAddress := x }, fun _ _ => rfl, fun _ => rfl⟩
def senderName : Field "sender_name" := ⟨(·.senderName), fun p x => { p with senderName := x }, fun _ _ => rfl, fun _ => rfl⟩
def senderDomain : Field "sender_domain" :=
  ⟨(·.senderDomain), fun p x => { p with senderDomain := x }, fun _ _ => rfl, fun _ => rfl⟩
def subject : Field "subject" := ⟨(·.subject), fun p x => { p with subject := x }, fun _ _ => rfl, fun _ => rfl⟩
def bodyText : Field "body_text" := ⟨(·.bodyText), fun p x => { p with bodyText := x }, fun _ _ => rfl, fun _ => rfl⟩
def dateFrom : Field "date_from" := ⟨(·.dateFrom), fun p x => { p with dateFrom := x }, fun _ _ => rfl, fun _ => rfl⟩
def dateTo : Field "date_to" := ⟨(·.dateTo), fun p x => { p with dateTo := x }, fun _ _ => rfl, fun _ => rfl⟩
def extension : Field "extension" := ⟨(·.extension), fun p x => { p with extension := x }, fun _ _ => rfl, fun _ => rfl⟩
def attachmentName : Field "attachment_name" :=
  ⟨(·.attachmentName), fun p x => { p with attachmentName := x }, fun _ _ => rfl, fun _ => rfl⟩
def minSize : Field "min_size" := ⟨(·.minSize), fun p x => { p with minSize := x }, fun _ _ => rfl, fun _ => rfl⟩
def maxSize : Field "max_size" := ⟨(·.maxSize), fun p x => { p with maxSize := x }, fun _ _ => rfl, fun _ => rfl⟩
def includeInline : Field "include_inline" :=
  ⟨(·.includeInline), fun p x => { p with includeInline := x }, fun _ _ => rfl, fun _ => rfl⟩
def includeInlineImages : Field "include_inline_images" :=
  ⟨(·.includeInlineImages), fun p x => { p with includeInlineImages := x }, fun _ _ => rfl, fun _ => rfl⟩
def showMimeDetails : Field "show_mime_details" :=
  ⟨(·.showMimeDetails), fun p x => { p with showMimeDetails := x }, fun _ _ => rfl, fun _ => rfl⟩
def downloadSubfolder : Field "download_subfolder" :=
  ⟨(·.downloadSubfolder), fun p x => { p with downloadSubfolder := x }, fun _ _ => rfl, fun _ => rfl⟩

end Field

variable {key : String}

theorem assignPairs_one (field : Field key) (value : Text) : assignPairs params [(key, value)] = .ok (field.set params (some value)) :=
  (List.foldlM_cons ..).trans (by rw [field.sets]; rfl)

theorem assignPairs_filled (field : Field key) (value : Text) :
    assignPairs params (filled key value) = .ok (field.set params (written value (field.get params))) := by
  unfold filled written
  split
  · rw [field.set_get]
    rfl
  · exact assignPairs_one field _

theorem assignPairs_switched (field : Field key) (on : Bool) :
    assignPairs params (switched key on) = .ok (field.set params (if on then some ['1'] else field.get params)) := by
  unfold switched
  split
  · exact assignPairs_one field _
  · rw [field.set_get]
    rfl

theorem bounds_of_parseSigned {v : Int} {bound : Nat} {text : Text} (positive : 0 < bound) (read : parseSigned bound text = some v) :
    -(bound : Int) ≤ v ∧ v < bound := by
  unfold parseSigned at read
  split at read
  all_goals
    obtain ⟨n, found, rfl⟩ := Option.map_eq_some_iff.mp read
    obtain ⟨-, small⟩ := Option.filter_eq_some_iff.mp found
    have within := of_decide_eq_true small
    omega

theorem trim_intText (v : Int) : trim (intText v) = intText v ∧ intText v ≠ [] := by
  have solid : ∀ c ∈ intText v, isWhitespace c = false := by
    intro c member
    rcases chars_of_intText member with rfl | digit
    · decide
    · have range := isDigit_iff.mp digit
      simp [isWhitespace]
      omega
  exact ⟨trimBy_of_solid solid, intText_ne_nil v⟩

theorem parseOptionalQueryI64_intText {v : Int} (low : -2 ^ 63 ≤ v) (high : v < 2 ^ 63) :
    parseOptionalQueryI64 (some (intText v)) = .ok (some v) := by
  obtain ⟨trimmed, nonempty⟩ := trim_intText v
  have value : trimmedValue (some (intText v)) = some (intText v) := by
    simp [trimmedValue, trimmed, nonempty]
  rw [parseOptionalQueryI64, value]
  dsimp only
  rw [parseSigned_intText (by simpa using low) (by simpa using high)]

/-- The parameters that a query's pairs spell. -/
def AttachmentBaseQuery.spelled (state : AttachmentBaseQuery) : AttachmentListParams where
  q := written state.filters.message.q none
  senderAddress := written state.filters.message.senderAddress none
  senderName := written state.filters.message.senderName none
  senderDomain := written state.filters.message.senderDomain none
  subject := written state.filters.message.subject none
  bodyText := written state.filters.message.bodyText none
  dateFrom := written state.filters.message.dateFrom none
  dateTo := written state.filters.message.dateTo none
  hasAttachments := state.filters.message.hasAttachments.map fun value => if value then ['1'] else ['0']
  accountId := state.selectedAccountId
  priority := if state.priorityFilter ≠ .all then some state.priorityFilter.asQueryValue.toList else none
  extension := written state.filters.extension none
  attachmentName := written state.filters.attachmentName none
  minSize := written state.filters.minSize none
  maxSize := written state.filters.maxSize none
  includeInline := if state.includeInline then some ['1'] else none
  includeInlineImages := if state.includeInlineImages then some ['1'] else none
  showMimeDetails := if state.showMimeDetails then some ['1'] else none
  downloadSubfolder := written state.downloadSubfolder none

theorem assignPairs_message (filters : MessageSearchFilters) :
    assignPairs {} (messageFilterQueryPairs filters) = .ok {
      q := written filters.q none
      senderAddress := written filters.senderAddress none
      senderName := written filters.senderName none
      senderDomain := written filters.senderDomain none
      subject := written filters.subject none
      bodyText := written filters.bodyText none
      dateFrom := written filters.dateFrom none
      dateTo := written filters.dateTo none
      hasAttachments := filters.hasAttachments.map fun value => if value then ['1'] else ['0'] } := by
  unfold messageFilterQueryPairs
  simp only [assignPairs_append, assignPairs_filled Field.q, assignPairs_filled Field.senderAddress,
    assignPairs_filled Field.senderName, assignPairs_filled Field.senderDomain, assignPairs_filled Field.subject,
    assignPairs_filled Field.bodyText, assignPairs_filled Field.dateFrom, assignPairs_filled Field.dateTo, bind, Except.bind]
  cases filters.hasAttachments with
  | none => rfl
  | some value => rfl

theorem assignPairs_account (accountId : Option Int) (bounded : ∀ v ∈ accountId, -2 ^ 63 ≤ v ∧ v < 2 ^ 63) :
    assignPairs params (accountPairs accountId) = .ok { params with accountId := accountId.or params.accountId } := by
  cases accountId with
  | none => rfl
  | some v =>
    obtain ⟨low, high⟩ := bounded v rfl
    have assigned : assign params "account_id" (intText v) = .ok { params with accountId := some v } := by
      show (parseOptionalQueryI64 (some (intText v))).map _ = _
      rw [parseOptionalQueryI64_intText low high]
      rfl
    exact (List.foldlM_cons ..).trans (by rw [assigned]; rfl)

theorem assignPairs_priority (filter : SenderPriorityFilter) :
    assignPairs params (priorityPairs filter) =
      .ok { params with priority := if filter ≠ .all then some filter.asQueryValue.toList else params.priority } := by
  unfold priorityPairs
  split
  · exact assignPairs_one Field.priority _
  · rfl

/-- A query's pairs set the parameters that they spell. -/
theorem assignPairs_pairs (state : AttachmentBaseQuery) (bounded : ∀ v ∈ state.selectedAccountId, -2 ^ 63 ≤ v ∧ v < 2 ^ 63) :
    assignPairs {} state.pairs = .ok state.spelled := by
  unfold AttachmentBaseQuery.pairs attachmentFilterQueryPairs
  simp only [assignPairs_append, assignPairs_message, assignPairs_account state.selectedAccountId bounded, assignPairs_priority,
    assignPairs_filled Field.extension, assignPairs_filled Field.attachmentName, assignPairs_filled Field.minSize,
    assignPairs_filled Field.maxSize, assignPairs_switched Field.includeInline, assignPairs_switched Field.includeInlineImages,
    assignPairs_switched Field.showMimeDetails, assignPairs_filled Field.downloadSubfolder, Option.or_none, bind, Except.bind]
  rfl

theorem attachmentParamsFromQuery_build (state : AttachmentBaseQuery)
    (bounded : ∀ v ∈ state.selectedAccountId, -2 ^ 63 ≤ v ∧ v < 2 ^ 63) :
    attachmentParamsFromQuery (buildAttachmentBaseQuery state) = .ok state.spelled := by
  rw [attachmentParamsFromQuery, parse_buildAttachmentBaseQuery, assignAll_map, assignPairs_pairs state bounded]

end Decoding

section Meaning

variable {readers : Readers} {params : AttachmentListParams} {state : AttachmentBaseQuery}

theorem optionalTrimmed_eq (raw : Option Text) : optionalTrimmed raw = (raw.map trim).getD [] := by
  cases raw with
  | none => rfl
  | some value => by_cases blank : trim value = [] <;> simp [optionalTrimmed, trimmedValue, Option.filter, blank]

@[simp] theorem trim_trim (text : Text) : trim (trim text) = trim text := trimBy_trimBy text

@[simp] theorem trim_optionalTrimmed (raw : Option Text) : trim (optionalTrimmed raw) = optionalTrimmed raw := by
  rw [optionalTrimmed_eq]
  cases raw with
  | none => rfl
  | some value => exact trim_trim value

@[simp] theorem optionalTrimmed_written (value : Text) : optionalTrimmed (written value none) = trim value := by
  unfold written
  split
  · rename_i blank
    rw [blank]
    rfl
  · simp [optionalTrimmed_eq]

theorem toLower_facts (c : Char) : isWhitespace c.toLower = isWhitespace c ∧ c.toLower.toLower = c.toLower := by
  have table : ∀ n < 128, isWhitespace (Char.ofNat n).toLower = isWhitespace (Char.ofNat n) ∧
      (Char.ofNat n).toLower.toLower = (Char.ofNat n).toLower := by
    decide
  by_cases small : c.toNat < 128
  · simpa only [Char.ofNat_toNat] using table c.toNat small
  · have same : c.toLower = c := by
      unfold Char.toLower
      split
      · rename_i upper
        have last : c.toNat ≤ 90 := UInt32.le_iff_toNat_le.mp upper.2
        omega
      · rfl
    simp only [same, and_self]

theorem trim_toAsciiLowercase (text : Text) : trim (toAsciiLowercase text) = toAsciiLowercase (trim text) := by
  have blank : isWhitespace ∘ Char.toLower = isWhitespace := funext fun c => (toLower_facts c).1
  simp only [trim, trimBy, toAsciiLowercase, List.dropWhile_map, blank, List.rdropWhile, ← List.map_reverse]

theorem toAsciiLowercase_twice (text : Text) : toAsciiLowercase (toAsciiLowercase text) = toAsciiLowercase text := by
  simp only [toAsciiLowercase, List.map_map]
  exact List.map_congr_left fun c _ => (toLower_facts c).2

theorem extension_settled (params : AttachmentListParams) :
    trim (attachmentFiltersFromParams params).extension = (attachmentFiltersFromParams params).extension ∧
      toAsciiLowercase (attachmentFiltersFromParams params).extension = (attachmentFiltersFromParams params).extension := by
  unfold attachmentFiltersFromParams
  dsimp only
  split
  · simp [trim_toAsciiLowercase, toAsciiLowercase_twice]
  · simp [trim_toAsciiLowercase, toAsciiLowercase_twice]

/-- The filters that a query spells are those it was made from. -/
theorem filters_spelled (made : state.filters = attachmentFiltersFromParams params) :
    attachmentFiltersFromParams state.spelled = attachmentFiltersFromParams params := by
  obtain ⟨trimmed, lower⟩ := extension_settled params
  have message : messageFiltersFromAttachmentParams state.spelled = messageFiltersFromAttachmentParams params := by
    simp [messageFiltersFromAttachmentParams, AttachmentBaseQuery.spelled, made, attachmentFiltersFromParams]
  have extension : toAsciiLowercase (optionalTrimmed (written state.filters.extension none)) =
      (attachmentFiltersFromParams params).extension := by
    rw [optionalTrimmed_written, made, trimmed, lower]
  have custom : toAsciiLowercase (optionalTrimmed none) = [] := rfl
  have own : attachmentFiltersFromParams state.spelled = {
      message := messageFiltersFromAttachmentParams state.spelled
      extension := toAsciiLowercase (optionalTrimmed (written state.filters.extension none))
      attachmentName := trim state.filters.attachmentName
      minSize := trim state.filters.minSize
      maxSize := trim state.filters.maxSize } := by
    simp only [attachmentFiltersFromParams, AttachmentBaseQuery.spelled, custom, if_true, optionalTrimmed_written]
  rw [own, message, extension, made]
  simp only [attachmentFiltersFromParams, trim_optionalTrimmed]

theorem fromQuery_spelled (state : AttachmentBaseQuery) : SenderPriorityFilter.fromQuery state.spelled.priority = state.priorityFilter := by
  show SenderPriorityFilter.fromQuery (if state.priorityFilter ≠ .all then some state.priorityFilter.asQueryValue.toList else none) = _
  cases state.priorityFilter <;> decide

theorem queryBoolIsTrue_switch (on : Bool) : queryBoolIsTrue (if on then some ['1'] else none) = on := by
  cases on <;> decide

theorem isWhitespace_eq : Paperless.isWhitespace = isWhitespace := by
  funext c
  simp only [Paperless.isWhitespace, isWhitespace, UInt32.le_iff_toNat_le, ← UInt32.toNat_inj]
  rfl

theorem trim_toList (text : String) : (Paperless.trim text).toList = trim text.toList := by
  rw [Paperless.trim, String.toList_ofList, isWhitespace_eq]
  rfl

/-- A normalised subfolder is spelled and normalised to itself. -/
theorem subfolder_spelled {raw subfolder : String} (accepted : normalizeDownloadSubfolder raw = .ok subfolder) :
    normalizeDownloadSubfolder (String.ofList ((written subfolder.toList none).getD [])) = .ok subfolder := by
  obtain ⟨trimmed, again⟩ := ZipNames.normalizeDownloadSubfolder_normalized accepted
  have ends : trim subfolder.toList = subfolder.toList := by
    rw [← trim_toList, trimmed]
  have same : (written subfolder.toList none).getD [] = subfolder.toList := by
    unfold written
    rw [ends]
    split
    · rename_i empty
      rw [empty]
      rfl
    · rfl
  rw [same, String.ofList_toList, again]

/-- The parts of what accepted parameters say. -/
theorem baseQueryOf_ok (said : baseQueryOf readers params = .ok state) :
    ∃ parsed subfolder, parseAttachmentSearchFilters readers (attachmentFiltersFromParams params) = .ok parsed ∧
      normalizeDownloadSubfolder (String.ofList (params.downloadSubfolder.getD [])) = .ok subfolder ∧
      state = {
        filters := parsed.raw
        selectedAccountId := params.accountId
        priorityFilter := SenderPriorityFilter.fromQuery params.priority
        includeInline := queryBoolIsTrue params.includeInline
        includeInlineImages := queryBoolIsTrue params.includeInlineImages
        showMimeDetails := queryBoolIsTrue params.showMimeDetails
        downloadSubfolder := subfolder.toList } := by
  unfold baseQueryOf at said
  cases parsed : parseAttachmentSearchFilters readers (attachmentFiltersFromParams params) with
  | error e =>
    rw [parsed] at said
    cases said
  | ok filters =>
    rw [parsed] at said
    cases normalized : normalizeDownloadSubfolder (String.ofList (params.downloadSubfolder.getD [])) with
    | error e =>
      rw [normalized] at said
      cases said
    | ok subfolder =>
      rw [normalized] at said
      cases said
      exact ⟨filters, subfolder, rfl, rfl, rfl⟩

/-- What the parameters say is what the query they are stored as says. -/
theorem baseQueryOf_spelled (said : baseQueryOf readers params = .ok state) :
    attachmentFiltersFromParams state.spelled = attachmentFiltersFromParams params ∧
      baseQueryOf readers state.spelled = .ok state := by
  obtain ⟨parsed, subfolder, read, normalized, whole⟩ := baseQueryOf_ok said
  have made : state.filters = attachmentFiltersFromParams params := by
    rw [whole]
    exact (parseAttachmentSearchFilters_raw read).1
  have same := filters_spelled made
  have folder : normalizeDownloadSubfolder (String.ofList (state.spelled.downloadSubfolder.getD [])) = .ok subfolder := by
    rw [whole]
    exact subfolder_spelled normalized
  have inline : queryBoolIsTrue state.spelled.includeInline = state.includeInline := queryBoolIsTrue_switch _
  have images : queryBoolIsTrue state.spelled.includeInlineImages = state.includeInlineImages := queryBoolIsTrue_switch _
  have details : queryBoolIsTrue state.spelled.showMimeDetails = state.showMimeDetails := queryBoolIsTrue_switch _
  refine ⟨same, ?_⟩
  unfold baseQueryOf
  rw [same, read, folder, fromQuery_spelled, inline, images, details, whole]
  rfl

/-- The account of accepted parameters is a number of 64 bits. -/
theorem bounded_account {form : FilterForm} (read : attachmentParamsFromForm form = .ok params) :
    ∀ v ∈ params.accountId, -2 ^ 63 ≤ v ∧ v < 2 ^ 63 := by
  unfold attachmentParamsFromForm at read
  cases account : parseOptionalQueryI64 form.accountId with
  | error e =>
    rw [account] at read
    cases read
  | ok accountId =>
    rw [account] at read
    cases read
    intro v member
    have same : accountId = some v := member
    unfold parseOptionalQueryI64 at account
    split at account
    · rename_i value there
      cases number : parseSigned (2 ^ 63) value with
      | none =>
        rw [number] at account
        cases account
      | some n =>
        rw [number, same] at account
        cases account
        simpa using bounds_of_parseSigned (by decide) number
    · rw [same] at account
      cases account

/-- What the list answers about an item: whether its message, the general query and the filters of the
attachments match it. -/
def answersOf (readers : Readers) (params : AttachmentListParams) (item : AttachmentListItem) (hasAttachments : Option Bool)
    (attachmentCount : Nat) (messageBodyMatch : Bool) : Except String (Bool × Checked Empty Bool × Bool) := do
  let filters ← parseAttachmentSearchFilters readers (attachmentFiltersFromParams params)
  let structured ← parseMessageSearchFilters readers (messageFiltersWithoutGeneralQuery filters.raw.message)
  return (messageMatchesFilters readers item.message structured hasAttachments,
    attachmentGeneralQueryMatches item filters.raw.message.q messageBodyMatch,
    attachmentMatchesFilters item filters attachmentCount)

/-- Two lists of parameters are accepted and mean the same. -/
structure SameMeaning (readers : Readers) (params decoded : AttachmentListParams) : Prop where
  filters : ∃ parsed, parseAttachmentSearchFilters readers (attachmentFiltersFromParams params) = .ok parsed ∧
    parseAttachmentSearchFilters readers (attachmentFiltersFromParams decoded) = .ok parsed
  accountId : decoded.accountId = params.accountId
  priority : SenderPriorityFilter.fromQuery decoded.priority = SenderPriorityFilter.fromQuery params.priority
  includeInline : queryBoolIsTrue decoded.includeInline = queryBoolIsTrue params.includeInline
  includeInlineImages : queryBoolIsTrue decoded.includeInlineImages = queryBoolIsTrue params.includeInlineImages
  showMimeDetails : queryBoolIsTrue decoded.showMimeDetails = queryBoolIsTrue params.showMimeDetails
  downloadSubfolder : ∃ subfolder, normalizeDownloadSubfolder (String.ofList (params.downloadSubfolder.getD [])) = .ok subfolder ∧
    normalizeDownloadSubfolder (String.ofList (decoded.downloadSubfolder.getD [])) = .ok subfolder
  answers : ∀ item hasAttachments attachmentCount messageBodyMatch,
    ∃ answers, answersOf readers params item hasAttachments attachmentCount messageBodyMatch = .ok answers ∧
      answersOf readers decoded item hasAttachments attachmentCount messageBodyMatch = .ok answers

theorem answersOf_ok {parsed : ParsedAttachmentSearchFilters}
    (read : parseAttachmentSearchFilters readers (attachmentFiltersFromParams params) = .ok parsed) (item : AttachmentListItem)
    (hasAttachments : Option Bool) (attachmentCount : Nat) (messageBodyMatch : Bool) :
    ∃ answers, answersOf readers params item hasAttachments attachmentCount messageBodyMatch = .ok answers := by
  obtain ⟨raw, message, structured⟩ := parseAttachmentSearchFilters_raw read
  unfold answersOf
  rw [read]
  simp only [raw, parse_withoutGeneralQuery structured, bind, Except.bind]
  exact ⟨_, rfl⟩

/-- A stored query says what the parameters it was made from say. -/
theorem sameMeaning_spelled (said : baseQueryOf readers params = .ok state) : SameMeaning readers params state.spelled := by
  obtain ⟨parsed, subfolder, read, normalized, whole⟩ := baseQueryOf_ok said
  obtain ⟨same, again⟩ := baseQueryOf_spelled said
  obtain ⟨parsed', subfolder', read', normalized', whole'⟩ := baseQueryOf_ok again
  have parts := whole'.symm.trans whole
  simp only [AttachmentBaseQuery.mk.injEq] at parts
  obtain ⟨-, account, priority, inline, images, details, folder⟩ := parts
  refine ⟨⟨parsed, read, same ▸ read⟩, account, priority, inline, images, details, ⟨subfolder, normalized, ?_⟩, ?_⟩
  · rw [normalized', String.toList_inj.mp folder]
  · intro item hasAttachments attachmentCount messageBodyMatch
    obtain ⟨answers, given⟩ := answersOf_ok read item hasAttachments attachmentCount messageBodyMatch
    refine ⟨answers, given, ?_⟩
    unfold answersOf at given ⊢
    rw [same]
    exact given

/-- A saved filter means what the form meant, and is saved as the same query again. -/
theorem saved_query_means_form (readers : Readers) (form : FilterForm) (query : Text)
    (accepted : attachmentPresetQueryFromForm readers form = .ok query ∨
      attachmentPaperlessTaskQueryFromForm readers form = .ok query) :
    ∃ params decoded, attachmentParamsFromPresetForm form = .ok params ∧ attachmentParamsFromPaperlessTaskForm form = .ok params ∧
      attachmentParamsFromQuery query = .ok decoded ∧ SameMeaning readers params decoded ∧
      (baseQueryOf readers decoded).map buildAttachmentBaseQuery = .ok query := by
  have stored : (attachmentParamsFromForm form >>= fun params =>
      baseQueryOf readers params >>= fun state => .ok (buildAttachmentBaseQuery state)) = .ok query := accepted.elim id id
  cases read : attachmentParamsFromForm form with
  | error e =>
    rw [read] at stored
    cases stored
  | ok params =>
    rw [read] at stored
    cases said : baseQueryOf readers params with
    | error e =>
      simp only [bind, Except.bind, said] at stored
      cases stored
    | ok state =>
      simp only [bind, Except.bind, said] at stored
      obtain rfl := Except.ok.inj stored
      obtain ⟨_, _, -, -, whole⟩ := baseQueryOf_ok said
      have bounded : ∀ v ∈ state.selectedAccountId, -2 ^ 63 ≤ v ∧ v < 2 ^ 63 := by
        rw [whole]
        exact bounded_account read
      refine ⟨params, state.spelled, read, read, attachmentParamsFromQuery_build state bounded, sameMeaning_spelled said, ?_⟩
      rw [(baseQueryOf_spelled said).2]
      rfl

section Sample

/-- A form with a separator, an equals sign, a percent sign and a plus sign in its fields. -/
def sampleForm : FilterForm where
  q := some " invoice & co=5%+ ".toList
  accountId := some " +7 ".toList
  priority := some "high".toList
  senderDomain := some "@Example.org".toList
  dateFrom := some "2024-01-02".toList
  extension := some "PDF".toList
  minSize := some "10".toList
  includeInline := some "on".toList
  downloadSubfolder := some "/Bills\\ 2024 . ".toList

def sampleReaders : Readers where
  parseDate text := if text = "2024-01-02".toList then .ok 19724 else .error "input contains invalid characters"
  addrparse _ := none

def sampleQuery : Text :=
  "q=invoice+%26+co%3D5%25%2B&sender_domain=%40Example.org&date_from=2024-01-02&account_id=7&priority=high&extension=pdf".toList ++
    "&min_size=10&include_inline=1&download_subfolder=Bills%2F2024".toList

theorem sampleForm_means : attachmentPresetQueryFromForm sampleReaders sampleForm = .ok sampleQuery ∧
    ∃ params decoded, attachmentParamsFromPresetForm sampleForm = .ok params ∧
      attachmentParamsFromPaperlessTaskForm sampleForm = .ok params ∧ attachmentParamsFromQuery sampleQuery = .ok decoded ∧
      SameMeaning sampleReaders params decoded ∧
      (baseQueryOf sampleReaders decoded).map buildAttachmentBaseQuery = .ok sampleQuery := by
  have stored : attachmentPresetQueryFromForm sampleReaders sampleForm = .ok sampleQuery := by
    decide +kernel
  exact ⟨stored, saved_query_means_form sampleReaders sampleForm sampleQuery (.inl stored)⟩

end Sample

end Meaning

end NixHomeServer.MailArchive.Filters
