import NixHomeServer.Browsertrix.Intents
import NixHomeServer.Library.Runs
import NixHomeServer.Library.Writes

/-! Edits of an archive's document by its owner while the worker verifies it.
A request and a verification each read the document in one call of the database
and replace it as a whole in a later one. -/
namespace NixHomeServer.Browsertrix

open NixHomeServer.Library

/-- `serde_json::Value`; a number is its literal. -/
inductive Json
  | null
  | bool (b : Bool)
  | number (literal : String)
  | string (s : String)
  | array (items : List Json)
  | object (members : List (String × Json))

/-- The fields of a document that a request or a verification can set. -/
inductive Field
  | title | collection | notes | favorite | tags | cleanRules | trashed
  | sha256 | archiveBytes | pageCount | resourceCount | verification | updatedAt
  deriving DecidableEq, Repr

def Field.all : List Field :=
  [.title, .collection, .notes, .favorite, .tags, .cleanRules, .trashed, .sha256, .archiveBytes, .pageCount,
    .resourceCount, .verification, .updatedAt]

theorem Field.mem_all (field : Field) : field ∈ Field.all := by cases field <;> decide

instance (p : Field → Prop) [DecidablePred p] : Decidable (∀ field, p field) :=
  decidable_of_iff (∀ field ∈ Field.all, p field)
    ⟨fun each field => each field field.mem_all, fun each field _ => each field⟩

inductive Value
  | text (s : String)
  | flag (b : Bool)
  | number (n : Nat)
  | texts (items : List String)
  | rules (items : List SelectorRule)
  | verification (v : Option Verification)
  deriving DecidableEq, Repr

def Archive.get (a : Archive) : Field → Value
  | .title => .text a.title
  | .collection => .text a.collection
  | .notes => .text a.notes
  | .favorite => .flag a.favorite
  | .tags => .texts a.tags
  | .cleanRules => .rules a.cleanRules
  | .trashed => .flag a.trashed
  | .sha256 => .text a.sha256
  | .archiveBytes => .number a.archiveBytes
  | .pageCount => .number a.pageCount
  | .resourceCount => .number a.resourceCount
  | .verification => .verification a.verification
  | .updatedAt => .number a.updatedAt

/-- An assignment to a field of a document. -/
inductive Change
  | title (s : String)
  | collection (s : String)
  | notes (s : String)
  | favorite (b : Bool)
  | tags (items : List String)
  | cleanRules (items : List SelectorRule)
  | trashed (b : Bool)
  | sha256 (s : String)
  | archiveBytes (n : Nat)
  | pageCount (n : Nat)
  | resourceCount (n : Nat)
  | verification (v : Verification)
  | updatedAt (n : Nat)
  deriving DecidableEq, Repr

def Change.apply (a : Archive) : Change → Archive
  | .title s => { a with title := s }
  | .collection s => { a with collection := s }
  | .notes s => { a with notes := s }
  | .favorite b => { a with favorite := b }
  | .tags items => { a with tags := items }
  | .cleanRules items => { a with cleanRules := items }
  | .trashed b => { a with trashed := b }
  | .sha256 s => { a with sha256 := s }
  | .archiveBytes n => { a with archiveBytes := n }
  | .pageCount n => { a with pageCount := n }
  | .resourceCount n => { a with resourceCount := n }
  | .verification v => { a with verification := some v }
  | .updatedAt n => { a with updatedAt := n }

def Change.write : Change → Field × Value
  | .title s => (.title, .text s)
  | .collection s => (.collection, .text s)
  | .notes s => (.notes, .text s)
  | .favorite b => (.favorite, .flag b)
  | .tags items => (.tags, .texts items)
  | .cleanRules items => (.cleanRules, .rules items)
  | .trashed b => (.trashed, .flag b)
  | .sha256 s => (.sha256, .text s)
  | .archiveBytes n => (.archiveBytes, .number n)
  | .pageCount n => (.pageCount, .number n)
  | .resourceCount n => (.resourceCount, .number n)
  | .verification v => (.verification, .verification (some v))
  | .updatedAt n => (.updatedAt, .number n)

def Archive.changed (a : Archive) (changes : List Change) : Archive := changes.foldl Change.apply a

theorem get_apply (a : Archive) (c : Change) (field : Field) :
    (c.apply a).get field = Writes.lastWritten a.get [c.write] field := by
  rw [Writes.lastWritten_single]
  cases c <;> cases field <;> rfl

theorem get_changed (a : Archive) (changes : List Change) :
    (a.changed changes).get = Writes.lastWritten a.get (changes.map Change.write) := by
  induction changes generalizing a with
  | nil => rfl
  | cons c rest ih =>
    have first : (c.apply a).get = Writes.lastWritten a.get [c.write] := funext (get_apply a c)
    calc ((c.apply a).changed rest).get
        = Writes.lastWritten (c.apply a).get (rest.map Change.write) := ih _
      _ = Writes.lastWritten a.get ([c.write] ++ rest.map Change.write) := by
        rw [first, Writes.lastWritten_append]

@[simp] theorem changed_createdBy (a : Archive) (changes : List Change) :
    (a.changed changes).createdBy = a.createdBy := by
  induction changes generalizing a with
  | nil => rfl
  | cons c rest ih =>
    have first : (c.apply a).createdBy = a.createdBy := by cases c <;> rfl
    exact (ih (c.apply a)).trans first

def Json.text? : Json → Option String
  | .string s => some s
  | _ => none

/-- `from_value` into a list of texts. -/
def Json.texts? : Json → Option (List String)
  | .array items => items.mapM Json.text?
  | _ => none

def isControl (c : Char) : Bool := c.val < 32 || (127 ≤ c.val && c.val < 160)

def validateSelectors (rules : List SelectorRule) : Except String Unit :=
  if rules.length > 50 then .error "at most 50 selector rules"
  else if rules.any fun rule =>
      rule.selector.isEmpty || rule.selector.utf8ByteSize > 512 || rule.selector.toList.any isControl ||
        !(rule.action == "hide" || rule.action == "block") ||
        rule.urlPrefix.any fun v => v.utf8ByteSize > 2048 then
    .error "invalid bounded selector rule"
  else .ok ()

section Requests

-- `from_value` at a list of selector rules.
variable (ruleList : Json → Option (List SelectorRule))

def patchText (key : String) (v : Json) (change : String → Change) : Except String Change :=
  match v.text? with
  | none => .error "metadata must be text"
  | some text =>
    if text.utf8ByteSize > (if key = "notes" then 10000 else 512) then .error "metadata too long"
    else .ok (change text)

/-- One member of the object in the body of `patch_archive`. -/
def patchMember : String × Json → Except String Change
  | ("title", v) => patchText "title" v .title
  | ("collection", v) => patchText "collection" v .collection
  | ("notes", v) => patchText "notes" v .notes
  | ("favorite", v) =>
    match v with
    | .bool b => .ok (.favorite b)
    | _ => .error "favorite must be boolean"
  | ("tags", v) =>
    match v.texts? with
    | none => .error "tags must be text array"
    | some tags =>
      if tags.length > 50 ∨ tags.any (fun tag => tag.utf8ByteSize > 100) then .error "too many/long tags"
      else .ok (.tags tags)
  | ("cleanRules", v) =>
    match ruleList v with
    | none => .error "invalid selector rules"
    | some rules => (validateSelectors rules).map fun _ => .cleanRules rules
  | _ => .error "only title, tags, collection, favorite, notes and cleanRules can be edited"

/-- The requests that write an archive's document. -/
inductive Request
  | patch (members : List (String × Json))
  | trash
  | restore

def Request.changes : Request → Except String (List Change)
  | .patch members => members.mapM (patchMember ruleList)
  | .trash => .ok [.trashed true]
  | .restore => .ok [.trashed false]

/-- Where a request or a verification is between its calls of the database: the document it has
read and, once it knows them, the changes it has made to its copy. -/
inductive Place
  | idle
  | saving (read : Archive) (changes : List Change)
  | checking (read : Archive) (browser : Bool)
  | establishing (read : Archive) (report : ArchiveReport) (changes : List Change) (v : Verification) (browser : Bool)
  | finalizing (read : Archive) (report : ArchiveReport) (changes : List Change) (v : Verification) (browser : Bool)
  | replaying (read : Archive) (changes : List Change)
  deriving DecidableEq, Repr

/-- The database, the requests and verifications under way, and what was committed to the document. -/
structure Metadata where
  db : Db
  place : Nat → Place := fun _ => .idle
  committed : List Change := []

def Metadata.goto (s : Metadata) (n : Nat) (place : Place) : Metadata :=
  { s with place := Function.update s.place n place }

variable (id : Nat)

/-- `archive_for_user`. -/
def archiveForUser (db : Db) (user : String) : Option Archive :=
  ((db.archives id).filter fun row => row.owner == user).map ArchiveRow.document

def Metadata.save (s : Metadata) (read : Archive) (changes : List Change) : Metadata :=
  { s with db := saveArchiveMetadata s.db id (read.changed changes), committed := s.committed ++ changes }

/-- After a valid or invalid check: browser replay where it was asked for. -/
def replay (read : Archive) (changes : List Change) (v : Verification) (browser : Bool) : Place :=
  if browser && v.valid then .replaying read changes else .saving read (changes ++ [.verification v])

/-- What an inspection establishes about an archive that was catalogued without a digest. -/
def established (report : ArchiveReport) (archiveBytes : Nat) : List Change :=
  [.sha256 report.sha256, .archiveBytes archiveBytes, .pageCount report.pages.length,
    .resourceCount report.resources.length]

/-- One call each. A writer can fail at every point, and all fail when their program dies. -/
inductive Call
  | read (n : Nat) (user : String) (request : Request)
  | verify (n : Nat) (user sha256 : String) (browser : Bool)
  | checked (n : Nat) (v : Verification) (report : Option (ArchiveReport × Nat))
  | establish (n : Nat)
  | finalize (n : Nat) (source : String)
  | replayed (n : Nat) (v : Verification)
  | save (n : Nat) (now : Nat)
  | fail (n : Nat)

def Metadata.step (s : Metadata) : Call → Metadata
  | .read n user request =>
    match s.place n, archiveForUser id s.db user, request.changes ruleList with
    | .idle, some a, .ok changes => s.goto n (.saving a changes)
    | _, _, _ => s
  | .verify n user sha256 browser =>
    match s.place n, archiveForUser id s.db user with
    | .idle, some a =>
      if sha256 ≠ "" ∧ a.sha256 ≠ sha256 then s else s.goto n (.checking a browser)
    | _, _ => s
  | .checked n v report =>
    match s.place n with
    | .checking a browser =>
      if a.sha256 = "" ∧ v.valid then
        match report with
        | none => s.goto n .idle
        | some (report, archiveBytes) =>
          s.goto n (.establishing a report (established report archiveBytes) v browser)
      else s.goto n (replay a [] v browser)
    | _ => s
  | .establish n =>
    match s.place n with
    | .establishing a report changes v browser =>
      (s.save id a changes).goto n (.finalizing a report changes v browser)
    | _ => s
  | .finalize n source =>
    match s.place n with
    | .finalizing a report changes v browser =>
      match finalizeIntent s.db id {
        archive := a.changed changes, report := report, source := source
        jobId := none, finalStatus := .completed } with
      | none => s.goto n .idle
      | some db => { s with db := db }.goto n (replay a changes v browser)
    | _ => s
  | .replayed n v =>
    match s.place n with
    | .replaying a changes => s.goto n (.saving a (changes ++ [.verification v]))
    | _ => s
  | .save n now =>
    match s.place n with
    | .saving a changes => (s.save id a (changes ++ [.updatedAt now])).goto n .idle
    | _ => s
  | .fail n => s.goto n .idle

def Metadata.document (s : Metadata) : Option Archive := (s.db.archives id).map ArchiveRow.document

/-- Every field of the document has the last value committed to it. -/
def Metadata.Current (first : Archive) (s : Metadata) : Prop :=
  ∃ a ∈ s.document id,
    ∀ field, a.get field = Writes.lastWritten first.get (s.committed.map Change.write) field

/-- The stored document is as it was read in every field that the changes do not set. -/
def Metadata.Fresh (s : Metadata) (read : Archive) (changes : List Change) : Prop :=
  ∀ a ∈ s.document id, ∀ field, field ∉ changes.map (fun c => c.write.1) → read.get field = a.get field

/-- The copy and the changes that a call saves. -/
def Metadata.saved (s : Metadata) : Call → Option (Archive × List Change)
  | .establish n =>
    match s.place n with
    | .establishing a _ changes _ _ => some (a, changes)
    | _ => none
  | .save n now =>
    match s.place n with
    | .saving a changes => some (a, changes ++ [.updatedAt now])
    | _ => none
  | _ => none

/-- A call that saves a copy does so before others have changed what the copy leaves alone. -/
def Metadata.Saves (s : Metadata) (call : Call) : Prop :=
  ∀ saved ∈ s.saved call, s.Fresh id saved.1 saved.2

instance (first : Archive) : DecidablePred (Metadata.Current id first) := fun s =>
  inferInstanceAs (Decidable (∃ a ∈ s.document id,
    ∀ field, a.get field = Writes.lastWritten first.get (s.committed.map Change.write) field))

instance (s : Metadata) (read : Archive) (changes : List Change) : Decidable (s.Fresh id read changes) :=
  inferInstanceAs (Decidable (∀ a ∈ s.document id,
    ∀ field, field ∉ changes.map (fun c => c.write.1) → read.get field = a.get field))

instance (s : Metadata) (call : Call) : Decidable (s.Saves id call) :=
  inferInstanceAs (Decidable (∀ saved ∈ s.saved call, s.Fresh id saved.1 saved.2))

def Place.copy : Place → Option Archive
  | .idle => none
  | .saving a _ | .checking a _ | .establishing a _ _ _ _ | .finalizing a _ _ _ _ | .replaying a _ => some a

/-- The archive is catalogued under its owner, and every copy is one of the owner's. -/
structure Metadata.Held (owner : String) (s : Metadata) : Prop where
  row : ∃ row, s.db.archives id = some row ∧ row.owner = owner ∧ row.document.createdBy = owner
  copies : ∀ n a, (s.place n).copy = some a → a.createdBy = owner

/-- What a call can do: keep the document, or save a copy of an owner's document with its changes. -/
inductive Metadata.Moved (owner : String) (s t : Metadata) (call : Call) : Prop
  | quiet (held : t.Held id owner) (silent : s.saved call = none) (committed : t.committed = s.committed)
      (document : t.document id = s.document id)
  | saved (held : t.Held id owner) (a : Archive) (changes : List Change)
      (saves : s.saved call = some (a, changes)) (committed : t.committed = s.committed ++ changes)
      (document : t.document id = some (a.changed changes))

variable {ruleList id} {s : Metadata} {owner : String}

theorem Metadata.Held.goto (held : s.Held id owner) (n : Nat) (place : Place)
    (own : ∀ a, place.copy = some a → a.createdBy = owner) : (s.goto n place).Held id owner where
  row := held.row
  copies m a copy := by
    by_cases same : m = n
    · subst same
      simp only [Metadata.goto, Function.update_self] at copy
      exact own a copy
    · simp only [Metadata.goto, Function.update_of_ne same] at copy
      exact held.copies m a copy

theorem Metadata.Held.idle (held : s.Held id owner) (n : Nat) : (s.goto n .idle).Held id owner :=
  held.goto n .idle fun _ copy => nomatch copy

theorem replay_copy (a : Archive) (changes : List Change) (v : Verification) (browser : Bool) :
    (replay a changes v browser).copy = some a := by
  unfold replay
  split <;> rfl

theorem save_row {row : ArchiveRow} {a : Archive} {changes : List Change} (found : s.db.archives id = some row)
    (owned : row.owner = a.createdBy) : (s.save id a changes).db.archives id =
      some { row with document := a.changed changes, sha256 := (a.changed changes).sha256 } := by
  simp only [Metadata.save, saveArchiveMetadata, found, changed_createdBy, if_pos owned, Function.update_self]

theorem Metadata.Held.save (held : s.Held id owner) {a : Archive} (changes : List Change)
    (own : a.createdBy = owner) : (s.save id a changes).Held id owner where
  row := by
    obtain ⟨row, found, rowOwner, _⟩ := held.row
    refine ⟨_, save_row found (rowOwner.trans own.symm), rowOwner, ?_⟩
    simp only [changed_createdBy]
    exact own
  copies := held.copies

/-- A legacy inventory replaces the pages and resources of the row and leaves its document. -/
theorem finalize_row {db db' : Db} {row : ArchiveRow} {intent : PublicationIntent}
    (found : db.archives id = some row) (accepted : finalizeIntent db id intent = some db') :
    ∃ row', db'.archives id = some row' ∧ row'.owner = row.owner ∧ row'.document = row.document := by
  obtain ⟨_, _, archives, _, _⟩ := finalize_some accepted
  refine ⟨intent.row (db.archives id), by rw [archives, Function.update_self], ?_, ?_⟩ <;>
    simp only [PublicationIntent.row, found, Option.map_some, Option.getD_some]

theorem archiveForUser_own {db : Db} {row : ArchiveRow} {user : String} {a : Archive}
    (found : db.archives id = some row) (own : row.document.createdBy = owner)
    (read : archiveForUser id db user = some a) : a.createdBy = owner := by
  simp only [archiveForUser, found, Option.map_eq_some_iff, Option.filter_eq_some_iff] at read
  obtain ⟨_, ⟨same, _⟩, rfl⟩ := read
  cases same
  exact own

theorem Metadata.Held.quiet (held : s.Held id owner) {call : Call} (n : Nat) (place : Place)
    (silent : s.saved call = none) (own : ∀ a, place.copy = some a → a.createdBy = owner) :
    s.Moved id owner (s.goto n place) call :=
  .quiet (held.goto n place own) silent rfl rfl

theorem Metadata.Held.stays (held : s.Held id owner) {call : Call} (silent : s.saved call = none) :
    s.Moved id owner s call :=
  .quiet held silent rfl rfl

theorem Metadata.Held.saves (held : s.Held id owner) {call : Call} {a : Archive} {changes : List Change}
    (n : Nat) (place : Place) (saves : s.saved call = some (a, changes)) (own : a.createdBy = owner)
    (next : ∀ b, place.copy = some b → b.createdBy = owner) :
    s.Moved id owner ((s.save id a changes).goto n place) call := by
  obtain ⟨row, found, rowOwner, _⟩ := held.row
  refine .saved ((held.save changes own).goto n place next) a changes saves rfl ?_
  exact congrArg (Option.map ArchiveRow.document) (save_row found (rowOwner.trans own.symm))

theorem Metadata.Held.finalizes (held : s.Held id owner) {call : Call} {db : Db} {intent : PublicationIntent}
    (n : Nat) (place : Place) (silent : s.saved call = none) (accepted : finalizeIntent s.db id intent = some db)
    (next : ∀ b, place.copy = some b → b.createdBy = owner) :
    s.Moved id owner ({ s with db := db }.goto n place) call := by
  obtain ⟨row, found, rowOwner, documentOwner⟩ := held.row
  obtain ⟨row', after, sameOwner, sameDocument⟩ := finalize_row found accepted
  have kept : Metadata.Held id owner { s with db := db } :=
    ⟨⟨row', after, sameOwner.trans rowOwner, by rw [sameDocument]; exact documentOwner⟩, held.copies⟩
  refine .quiet (kept.goto n place next) silent rfl ?_
  simp only [Metadata.document, Metadata.goto, after, found, Option.map_some, sameDocument]

theorem Metadata.Held.moved (held : s.Held id owner) (call : Call) :
    s.Moved id owner (s.step ruleList id call) call := by
  obtain ⟨row, found, _, documentOwner⟩ := held.row
  cases call with
  | read n user request =>
    simp only [Metadata.step]
    split
    · rename_i a changes _ read _
      exact held.quiet n _ rfl fun b copy => by
        cases copy
        exact archiveForUser_own found documentOwner read
    · exact held.stays rfl
  | verify n user sha256 browser =>
    simp only [Metadata.step]
    split
    · rename_i a _ read
      split
      · exact held.stays rfl
      · exact held.quiet n _ rfl fun b copy => by
          cases copy
          exact archiveForUser_own found documentOwner read
    · exact held.stays rfl
  | checked n v report =>
    cases place : s.place n with
    | checking a browser =>
      have own : a.createdBy = owner := held.copies n a (by rw [place]; rfl)
      simp only [Metadata.step, place]
      split
      · cases report with
        | none => exact held.quiet n _ rfl fun b copy => nomatch copy
        | some inspected =>
          exact held.quiet n _ rfl fun b copy => by
            cases copy
            exact own
      · exact held.quiet n _ rfl fun b copy => by
          rw [replay_copy] at copy
          cases copy
          exact own
    | _ =>
      simp only [Metadata.step, place]
      exact held.stays rfl
  | establish n =>
    cases place : s.place n with
    | establishing a report changes v browser =>
      have own : a.createdBy = owner := held.copies n a (by rw [place]; rfl)
      have saves : s.saved (.establish n) = some (a, changes) := by simp only [Metadata.saved, place]
      simp only [Metadata.step, place]
      exact held.saves n _ saves own fun b copy => by
        cases copy
        exact own
    | _ =>
      simp only [Metadata.step, place]
      exact held.stays (by simp only [Metadata.saved, place])
  | finalize n source =>
    cases place : s.place n with
    | finalizing a report changes v browser =>
      have own : a.createdBy = owner := held.copies n a (by rw [place]; rfl)
      simp only [Metadata.step, place]
      split
      · exact held.quiet n _ rfl fun b copy => nomatch copy
      · rename_i db accepted
        exact held.finalizes n _ rfl accepted fun b copy => by
          rw [replay_copy] at copy
          cases copy
          exact own
    | _ =>
      simp only [Metadata.step, place]
      exact held.stays rfl
  | replayed n v =>
    cases place : s.place n with
    | replaying a changes =>
      have own : a.createdBy = owner := held.copies n a (by rw [place]; rfl)
      simp only [Metadata.step, place]
      exact held.quiet n _ rfl fun b copy => by
        cases copy
        exact own
    | _ =>
      simp only [Metadata.step, place]
      exact held.stays rfl
  | save n now =>
    cases place : s.place n with
    | saving a changes =>
      have own : a.createdBy = owner := held.copies n a (by rw [place]; rfl)
      have saves : s.saved (.save n now) = some (a, changes ++ [.updatedAt now]) := by
        simp only [Metadata.saved, place]
      simp only [Metadata.step, place]
      exact held.saves n _ saves own fun b copy => nomatch copy
    | _ =>
      simp only [Metadata.step, place]
      exact held.stays (by simp only [Metadata.saved, place])
  | fail n => exact held.quiet n _ rfl fun b copy => nomatch copy

/-- A call keeps the document current exactly if what it saves, if anything, is fresh. -/
theorem Metadata.Held.current_iff {first : Archive} (held : s.Held id owner) (current : s.Current id first)
    (call : Call) : (s.step ruleList id call).Current id first ↔ s.Saves id call := by
  obtain ⟨a, stored, values⟩ := current
  have moved : s.Moved id owner (s.step ruleList id call) call := held.moved call
  cases moved with
  | quiet _ silent committed document =>
    constructor
    · intro _ saved saves
      cases silent.symm.trans saves
    · intro _
      exact ⟨a, document.trans stored, by rw [committed]; exact values⟩
  | saved _ b changes saves committed document =>
    have merged : ∀ field, (b.changed changes).get field =
        Writes.lastWritten b.get (changes.map Change.write) field := fun field => by rw [get_changed]
    have expected : ∀ field, Writes.lastWritten first.get ((s.committed ++ changes).map Change.write) field =
        Writes.lastWritten a.get (changes.map Change.write) field := fun field => by
      rw [List.map_append, Writes.lastWritten_append, ← funext values]
    have fields : changes.map (fun c => c.write.1) = (changes.map Change.write).map Prod.fst := by
      rw [List.map_map]
      rfl
    constructor
    · rintro ⟨c, after, last⟩ saved saves' a' stored' field unwritten
      cases saves.symm.trans saves'
      cases stored.symm.trans stored'
      cases document.symm.trans after
      refine (Writes.lastWritten_copy b.get a.get (changes.map Change.write)).mp ?_ field (fields ▸ unwritten)
      funext field
      rw [← merged, last, committed, expected]
    · intro fresh
      have same := (Writes.lastWritten_copy b.get a.get (changes.map Change.write)).mpr fun field unwritten =>
        fresh (b, changes) saves a stored field (fields ▸ unwritten)
      refine ⟨b.changed changes, document, fun field => ?_⟩
      rw [merged, same, committed, expected]

theorem Metadata.Moved.held {t : Metadata} {call : Call} (moved : s.Moved id owner t call) : t.Held id owner := by
  cases moved with
  | quiet held => exact held
  | saved held => exact held

/-- The document stays current throughout a run exactly if every call that saves finds the stored
document as its writer read it, outside the fields that the writer sets. -/
theorem no_lost_update (start : Db) (row : ArchiveRow) (found : start.archives id = some row)
    (owned : row.document.createdBy = row.owner) (calls : List Call) :
    (∀ early late, calls = early ++ late →
      (Runs.run (Metadata.step ruleList id) { db := start } early).Current id row.document) ↔
    Runs.Along (Metadata.step ruleList id) (Metadata.Saves id) { db := start } calls := by
  have held : Metadata.Held id row.owner { db := start } :=
    ⟨⟨row, found, rfl, owned⟩, fun _ _ copy => nomatch copy⟩
  have current : Metadata.Current id row.document { db := start } :=
    ⟨row.document, congrArg (Option.map ArchiveRow.document) found, fun _ => rfl⟩
  exact Runs.prefixes_iff_along _ _ (Metadata.Held id row.owner) _ (fun s call held => (held.moved call).held)
    (fun s call held current => held.current_iff current call) _ calls held current

end Requests

section Inputs

def catalogued : ArchiveRow where
  owner := "ann"
  sha256 := ""
  document := { createdBy := "ann", archiveFile := "legacy.wacz", archiveBytes := 0, sha256 := "" }
  pages := []
  resources := []
  coverage := []

def legacyDb : Db := { archives := fun id => if id = 1 then some catalogued else none }

def valid : Verification := { valid := true, checkedAt := 5, checks := [] }

/-- A trash request between the read and the save of a verification. -/
def trashedDuring : List Call :=
  [.verify 0 "ann" "" false, .checked 0 valid (some ({ sha256 := "ab" }, 7)), .establish 0, .finalize 0 "",
    .read 1 "ann" .trash, .save 1 6, .save 0 8]

/-- A verification between the read and the save of an edit. -/
def verifiedDuring : List Call :=
  [.read 1 "ann" (.patch [("title", .string "home")]), .verify 0 "ann" "" false,
    .checked 0 valid (some ({ sha256 := "ab" }, 7)), .establish 0, .finalize 0 "", .save 0 8, .save 1 9]

/-- The same requests one after the other. -/
def oneByOne : List Call :=
  [.verify 0 "ann" "" false, .checked 0 valid (some ({ sha256 := "ab" }, 7)), .establish 0, .finalize 0 "",
    .save 0 8, .read 1 "ann" (.patch [("title", .string "home")]), .save 1 9, .read 1 "ann" .trash, .save 1 10]

theorem one_by_one_current : Runs.Along (Metadata.step (fun _ => none) 1) (Metadata.Saves 1) { db := legacyDb } oneByOne ∧
    ∀ early late, oneByOne = early ++ late →
      (Runs.run (Metadata.step (fun _ => none) 1) { db := legacyDb } early).Current 1 catalogued.document :=
  ⟨by decide +kernel, (no_lost_update legacyDb catalogued rfl rfl oneByOne).mpr (by decide +kernel)⟩

/-- The trash mark is lost to the verification; the digest and the findings are lost to the edit. -/
theorem trash_and_findings_lost :
    let t := Runs.run (Metadata.step (fun _ => none) 1) { db := legacyDb } trashedDuring
    let u := Runs.run (Metadata.step (fun _ => none) 1) { db := legacyDb } verifiedDuring
    (¬t.Current 1 catalogued.document ∧ .trashed true ∈ t.committed ∧ (t.document 1).map Archive.trashed = some false) ∧
    (¬u.Current 1 catalogued.document ∧ .sha256 "ab" ∈ u.committed ∧ .verification valid ∈ u.committed ∧
      (u.document 1).map Archive.sha256 = some "" ∧ (u.document 1).map Archive.verification = some none) := by
  decide +kernel

end Inputs

end NixHomeServer.Browsertrix
