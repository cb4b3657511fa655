import NixHomeServer.Browsertrix.Decoders
import NixHomeServer.Browsertrix.Documents
import NixHomeServer.Browsertrix.Preflight
import NixHomeServer.Browsertrix.Resolution
import NixHomeServer.Browsertrix.Spans

/-! What the records of an archive take up of its file, and the report that adds it up. -/
namespace NixHomeServer.Browsertrix.Engine

open NixHomeServer.Library

def maxArchive : Nat := 32 * 1024 * 1024 * 1024

section load

/-- What the ZIP reader tells of a member, and the bytes it gives for it. -/
structure Entry where
  name : Text
  size : Nat
  special : Bool
  dir : Bool
  stored : Bool
  dataStart : Option Nat
  body : Stream

def Entry.isUnsafe (entry : Entry) : Bool :=
  1024 < (utf8 entry.name).length ||
    entry.name.any (fun c => c = '\\' || c = ':') ||
    entry.name.any ZipDirectory.isControl ||
    ['/'].isPrefixOf entry.name ||
    (splitAll '/' entry.name).any (fun s => s = ['.', '.'] || s = ['.']) ||
    entry.special

/-- What archives are read with: the ZIP reader, the manifest's length and hash for each
name, the checks of members that hold no records and of the indexes, and the readers of
the file's parts. -/
structure Reading where
  sha256 : Bytes → Text
  entries : ZipDirectory.Directory → List Entry
  manifest : List Entry → Result (Text → Option (Nat × Text))
  checks : Entry → Result Unit
  indexes : List Record → Result Unit
  sources : (size start stop : Nat) → Source size start stop

structure Members where
  names : List Text := []
  total : Nat := 0
  warcs : List Held := []

def naming (error : String) (name : Text) : String := error ++ String.ofList name

/-- A WARC member is read where it lies, so it must not be compressed. -/
def loadWarc (reading : Reading) (walk : Members) (entry : Entry) (length : Nat) (hash : Text) : Result Members := do
  .ensure (entry.stored = true) "WACZ WARC ZIP member must use STORE for bounded random access"
  let start ← .ofOption "ZIP member data offset missing" entry.dataStart
  let digest ← streamHash reading.sha256 entry.body maxArchive
  .ensure (entry.body.bytes.length = length) (naming "Manifest SHA-256 mismatch: " entry.name)
  let normal ← normalizeSha256 hash
  .ensure (normal = digest) (naming "Manifest SHA-256 mismatch: " entry.name)
  return { walk with warcs := walk.warcs ++ [⟨entry.name, start, length⟩] }

def loadNamed (reading : Reading) (expected : Text → Option (Nat × Text)) (walk : Members) (entry : Entry) : Result Members :=
  if entry.name = "datapackage.json".toList then .returns walk
  else if entry.name = "datapackage-digest.json".toList then do
    reading.checks entry
    return walk
  else do
    let (length, hash) ← .ofOption (naming "Unhashed ZIP member: " entry.name) (expected entry.name)
    .ensure (length = entry.size) (naming "Manifest size mismatch: " entry.name)
    .ensure (".warc".toList.isSuffixOf entry.name = false) "Uncompressed WARC unsupported; gzip required"
    if ".warc.gz".toList.isSuffixOf entry.name then loadWarc reading walk entry length hash
    else do
      reading.checks entry
      return walk

local instance lawfulEntries : LawfulBEq (List Char) := inferInstance

def loadEntry (reading : Reading) (expected : Text → Option (Nat × Text)) (walk : Members) (entry : Entry) :
    Result Members := do
  .ensure (entry.isUnsafe = false) "Unsafe ZIP member name, encryption or special file"
  .ensure (entry.name ∉ walk.names) "Duplicate ZIP member"
  let walk := { walk with names := walk.names ++ [entry.name] }
  if entry.dir then .returns walk
  else do
    .ensure (walk.total + entry.size < 2 ^ 64 ∧ walk.total + entry.size ≤ maxInflated) "ZIP inflated byte limit exceeded"
    loadNamed reading expected { walk with total := walk.total + entry.size } entry

def loadEntries (reading : Reading) (expected : Text → Option (Nat × Text)) : List Entry → Members → Result Members
  | [], walk => .returns walk
  | entry :: rest, walk => do
    let walk ← loadEntry reading expected walk entry
    loadEntries reading expected rest walk

structure Loaded where
  archiveBytes : Nat
  records : List Record

/-- The WARC members of a file, by its preflighted directory and the ZIP reader. -/
def listWarcs (reading : Reading) (file : ZipDirectory.File) : Result (List Held) := do
  let size := file.content.length
  .ensure (size ≤ maxArchive) "Archive exceeds 32 GiB bounded file limit"
  let directory ← ZipDirectory.validate file size
  let entries := reading.entries directory
  .ensure (entries.length = directory.count) "ZIP member identities changed after raw preflight"
  let expected ← reading.manifest entries
  let walk ← loadEntries reading expected entries {}
  return walk.warcs

def load (reading : Reading) (file : ZipDirectory.File) (id : Nat) : Result Loaded := do
  let warcs ← listWarcs reading file
  let progress ← readWarcs reading.sha256 id (reading.sources file.content.length) warcs {}
  .ensure (progress.records ≠ []) "No WARC records"
  reading.indexes progress.records
  let records ← resolveLocal progress.records
  return { archiveBytes := file.content.length, records }

end load

section report

/-- Why there is no report: the analysis of a page, or too much of it, or an account
that does not add up. -/
inductive ReportError
  | analysis (error : String)
  | readerBudget
  | storage
  deriving DecidableEq

def ReportError.text : ReportError → String
  | .analysis e => e
  | .readerBudget => "Reader analysis exceeds bounded size"
  | .storage => "Storage accounting overflow"

/-- A row of the report. -/
structure Resource where
  url : Text
  mime : Text
  status : Nat
  bytes : Nat
  digest : Text

structure Tally where
  seen : List Text := []
  extracted : Nat := 0
  resources : List Resource := []
  uniquePayloadBytes : Nat := 0
  duplicatePayloadBytes : Nat := 0

structure Report where
  archiveBytes : Nat
  uniquePayloadBytes : Nat
  duplicatePayloadBytes : Nat
  metadataBytes : Nat
  resources : List Resource

/-- The URLs of the page inventory, the analysis of a page, which tells how much text
and links it has, and how much of that the report may keep. -/
structure Analysis where
  pages : List Text
  analyse : Record → Except String (Option Nat)
  limit : Nat
  strict : Bool

abbrev Reported := Checked ReportError

def Record.reported (record : Record) : Bool :=
  record.kind = "response".toList || record.kind = "resource".toList || record.kind = "revisit".toList

/-- The digest by which payloads are told apart. -/
def Record.accountDigest (record : Record) : Text :=
  if record.kind = "revisit".toList ∧ record.resolved = false then record.field "warc-payload-digest" else record.digest

local instance lawfulTally : LawfulBEq (List Char) := inferInstance

def countStored (tally : Tally) (digest : Text) (stored : Nat) : Reported Tally :=
  if digest ∈ tally.seen then do
    .fits (2 ^ 64) (tally.duplicatePayloadBytes + stored)
    return { tally with duplicatePayloadBytes := tally.duplicatePayloadBytes + stored }
  else do
    .fits (2 ^ 64) (tally.uniquePayloadBytes + stored)
    return { tally with seen := digest :: tally.seen, uniquePayloadBytes := tally.uniquePayloadBytes + stored }

def analysePage (analysis : Analysis) (record : Record) (tally : Tally) : Reported Tally :=
  if record.isHtml && (analysis.pages.contains record.url || analysis.pages.isEmpty) then
    match analysis.analyse record with
    | .error e => .fails (.analysis e)
    | .ok none => .returns tally
    | .ok (some extra) =>
      if analysis.limit < tally.extracted + extra then
        if analysis.strict then .fails .readerBudget else .returns tally
      else .returns { tally with extracted := tally.extracted + extra }
  else .returns tally

def tallyRecord (analysis : Analysis) (tally : Tally) (record : Record) : Reported Tally :=
  if record.reported then do
    let tally ← countStored tally record.accountDigest record.stored
    let tally ← analysePage analysis record tally
    return { tally with
      resources := tally.resources ++ [{
        url := record.url
        mime := record.mime
        status := record.status
        bytes := record.stored
        digest := record.accountDigest }] }
  else .returns tally

def tallyRecords (analysis : Analysis) : List Record → Tally → Reported Tally
  | [], tally => .returns tally
  | record :: rest, tally => do
    let tally ← tallyRecord analysis tally record
    tallyRecords analysis rest tally

def reportWithAnalysisBudget (analysis : Analysis) (archive : Loaded) : Reported Report := do
  let tally ← tallyRecords analysis archive.records {}
  .fits (2 ^ 64) (tally.uniquePayloadBytes + tally.duplicatePayloadBytes)
  .ensure (tally.uniquePayloadBytes + tally.duplicatePayloadBytes ≤ archive.archiveBytes) .storage
  return {
    archiveBytes := archive.archiveBytes
    uniquePayloadBytes := tally.uniquePayloadBytes
    duplicatePayloadBytes := tally.duplicatePayloadBytes
    metadataBytes := archive.archiveBytes - (tally.uniquePayloadBytes + tally.duplicatePayloadBytes)
    resources := tally.resources }

end report

section spans

variable {name : Text} {p stop : Nat} {records after : List Record} {helds : List Held}

/-- What a record is said to take up of the file. -/
def Record.extent (record : Record) : Text × Nat × Nat × Nat := (record.member, record.offset, record.length, record.stored)

theorem Piece.congr {span : Nat} {piece after : List Record} (here : Piece name p span piece)
    (same : after.map Record.extent = piece.map Record.extent) : Piece name p span after := by
  refine ⟨here.filled, ?_, fun r there => ?_, ?_⟩
  · rintro rfl
    exact here.some (List.map_eq_nil_iff.mp same.symm)
  · have listed : r.extent ∈ piece.map Record.extent := same ▸ List.mem_map_of_mem there
    obtain ⟨r', there', alike⟩ := List.mem_map.mp listed
    have placed := here.placed r' there'
    simp only [Record.extent, Prod.mk.injEq] at alike
    obtain ⟨member, offset, length, -⟩ := alike
    rwa [member, offset, length] at placed
  · have stored := congrArg (List.map fun extent => extent.2.2.2) same
    rw [List.map_map, List.map_map] at stored
    exact (congrArg List.sum stored).trans here.shared

theorem Tiles.congr (tiles : Tiles name p records stop) (same : after.map Record.extent = records.map Record.extent) :
    Tiles name p after stop := by
  induction tiles generalizing after with
  | done p =>
    rw [List.map_eq_nil_iff.mp same]
    exact .done p
  | member here _ ih =>
    rw [List.map_append] at same
    obtain ⟨first, others, rfl, sameHere, sameOthers⟩ := List.map_eq_append_iff.mp same
    exact .member (here.congr sameHere) (ih sameOthers)

/-- The records of the WARC members, file by file, each file from its start to its end. -/
def TileAll (helds : List Held) (records : List Record) : Prop :=
  ∃ pieces, records = pieces.flatten ∧ List.Forall₂ (fun held piece => Tiles held.name 0 piece held.length) helds pieces

theorem TileAll.congr (tiles : TileAll helds records) (same : after.map Record.extent = records.map Record.extent) :
    TileAll helds after := by
  obtain ⟨pieces, rfl, each⟩ := tiles
  induction each generalizing after with
  | nil => exact ⟨[], List.map_eq_nil_iff.mp same, .nil⟩
  | cons head _ ih =>
    rw [List.flatten_cons, List.map_append] at same
    obtain ⟨first, others, rfl, sameFirst, sameOthers⟩ := List.map_eq_append_iff.mp same
    obtain ⟨pieces, rfl, each⟩ := ih sameOthers
    exact ⟨first :: pieces, rfl, .cons (head.congr sameFirst) each⟩

theorem TileAll.sum_stored (tiles : TileAll helds records) :
    (records.map Record.stored).sum = (helds.map Held.length).sum := by
  obtain ⟨pieces, rfl, each⟩ := tiles
  induction each with
  | nil => rfl
  | cons head _ ih =>
    have own := head.sum_stored
    rw [Nat.zero_add] at own
    rw [List.flatten_cons, List.map_append, List.sum_append, ih, own, List.map_cons, List.sum_cons]

theorem Settles.extent_eq {r r' : Record} (settles : Settles r r') : r'.extent = r.extent := by
  rcases settles with rfl | ⟨-, target, rfl⟩ <;> rfl

theorem Advances.extent_eq (advances : Advances records after) : after.map Record.extent = records.map Record.extent := by
  induction advances with
  | nil => rfl
  | cons settles _ ih => rw [List.map_cons, List.map_cons, settles.extent_eq, ih]

/-- What revisits take from their targets does not change where they lie. -/
theorem resolveLocal_extent (done : resolveLocal records = .returns after) :
    after.map Record.extent = records.map Record.extent := by
  obtain ⟨s, rounds, done⟩ := Checked.bind_eq_returns.mp done
  cases done
  exact (resolveRounds_advances rounds).extent_eq

end spans

section directory

variable {reading : Reading} {file : ZipDirectory.File} {expected : Text → Option (Nat × Text)} {walk walk' : Members}
  {entry : Entry} {content : Bytes}

/-- What the ZIP reader tells of a member is what the headers say: its data start behind
the local header, and those of a member that is stored are given as they are. -/
structure Reads (content : Bytes) (m : ZipDirectory.Member) (entry : Entry) : Prop where
  starts : ∀ start, entry.dataStart = some start → start = m.localAt + 30 + (m.name.length + m.localExtra)
  gives : entry.stored = true → entry.body.failure = none →
    segment content (m.localAt + 30 + (m.name.length + m.localExtra)) m.packed = some entry.body.bytes

/-- The ZIP reader lists the members that the checked directory lists. -/
def FollowsDirectory (reading : Reading) (file : ZipDirectory.File) : Prop :=
  ∀ directory span members, ZipDirectory.validate file file.content.length = .returns directory →
    ZipDirectory.Preflighted file.content file.content.length directory span members →
    List.Forall₂ (Reads file.content) members (reading.entries directory)

/-- A WARC member's data, from behind its local header to its end. -/
def Holds (m : ZipDirectory.Member) (held : Held) : Prop :=
  held.start = m.localAt + 30 + (m.name.length + m.localExtra) ∧ held.start + held.length = m.range.2

theorem loadWarc_cases {m : ZipDirectory.Member} {length : Nat} {hash : Text} (reads : Reads content m entry)
    (done : loadWarc reading walk entry length hash = .returns walk') :
    ∃ held, walk'.warcs = walk.warcs ++ [held] ∧ Holds m held := by
  obtain ⟨_, stored, done⟩ := Checked.bind_eq_returns.mp done
  obtain ⟨start, there, done⟩ := Checked.bind_eq_returns.mp done
  obtain ⟨digest, hashed, done⟩ := Checked.bind_eq_returns.mp done
  obtain ⟨_, sized, done⟩ := Checked.bind_eq_returns.mp done
  obtain ⟨_, -, done⟩ := Checked.bind_eq_returns.mp done
  obtain ⟨_, -, done⟩ := Checked.bind_eq_returns.mp done
  cases done
  have whole : entry.body.failure = none := by
    unfold streamHash at hashed
    split at hashed
    · cases hashed
    · split at hashed
      · cases hashed
      · assumption
  have given := length_segment (reads.gives (Checked.ensure_eq_returns.mp stored) whole)
  have starts := reads.starts start (Checked.ofOption_eq_returns.mp there)
  refine ⟨_, rfl, starts, ?_⟩
  rw [← Checked.ensure_eq_returns.mp sized, given, starts]
  rfl

theorem loadNamed_cases {m : ZipDirectory.Member} (reads : Reads content m entry)
    (done : loadNamed reading expected walk entry = .returns walk') :
    walk'.warcs = walk.warcs ∨ ∃ held, walk'.warcs = walk.warcs ++ [held] ∧ Holds m held := by
  unfold loadNamed at done
  split at done
  case isTrue =>
    cases done
    exact .inl rfl
  case isFalse =>
    split at done
    case isTrue =>
      obtain ⟨_, -, done⟩ := Checked.bind_eq_returns.mp done
      cases done
      exact .inl rfl
    case isFalse =>
      obtain ⟨⟨length, hash⟩, -, done⟩ := Checked.bind_eq_returns.mp done
      obtain ⟨_, -, done⟩ := Checked.bind_eq_returns.mp done
      obtain ⟨_, -, done⟩ := Checked.bind_eq_returns.mp done
      split at done
      case isTrue => exact .inr (loadWarc_cases reads done)
      case isFalse =>
        obtain ⟨_, -, done⟩ := Checked.bind_eq_returns.mp done
        cases done
        exact .inl rfl

theorem loadEntry_cases {m : ZipDirectory.Member} (reads : Reads content m entry)
    (done : loadEntry reading expected walk entry = .returns walk') :
    walk'.warcs = walk.warcs ∨ ∃ held, walk'.warcs = walk.warcs ++ [held] ∧ Holds m held := by
  obtain ⟨_, -, done⟩ := Checked.bind_eq_returns.mp done
  obtain ⟨_, -, done⟩ := Checked.bind_eq_returns.mp done
  dsimp only at done
  split at done
  case isTrue =>
    cases done
    exact .inl rfl
  case isFalse =>
    obtain ⟨_, -, done⟩ := Checked.bind_eq_returns.mp done
    have found := loadNamed_cases reads done
    exact found

/-- Each WARC member is one of the directory's, no two the same one. -/
theorem loadEntries_holds {members : List ZipDirectory.Member} {entries : List Entry}
    (reads : List.Forall₂ (Reads content) members entries)
    (done : loadEntries reading expected entries walk = .returns walk') :
    ∃ chosen added, chosen.Sublist members ∧ walk'.warcs = walk.warcs ++ added ∧ List.Forall₂ Holds chosen added := by
  induction reads generalizing walk with
  | nil =>
    cases done
    exact ⟨[], [], .slnil, (List.append_nil _).symm, .nil⟩
  | cons head _ ih =>
    obtain ⟨next, stepped, done⟩ := Checked.bind_eq_returns.mp done
    obtain ⟨chosen, added, among, behind, holds⟩ := ih done
    rcases loadEntry_cases head stepped with same | ⟨held, one, here⟩
    · exact ⟨chosen, added, among.cons _, by rw [behind, same], holds⟩
    · refine ⟨_ :: chosen, held :: added, among.cons_cons _, ?_, .cons here holds⟩
      rw [behind, one, List.append_assoc, List.singleton_append]

/-- Members of a file that do not overlap have no more than the file together. -/
theorem sum_held_le {chosen : List ZipDirectory.Member} {helds : List Held} {size : Nat}
    (holds : List.Forall₂ Holds chosen helds) (apart : (chosen.map ZipDirectory.Member.range).Pairwise Library.Apart)
    (inside : ∀ m ∈ chosen, m.range.2 ≤ size) : (helds.map Held.length).sum ≤ size := by
  have whole := sum_lengths_le apart (List.forall_mem_map.mpr inside)
  refine Nat.le_trans ?_ whole
  clear whole apart inside
  induction holds with
  | nil => exact Nat.le_refl _
  | @cons m held _ _ head _ ih =>
    obtain ⟨starts, ends⟩ := head
    have first : m.range.1 = m.localAt := rfl
    simp only [List.map_cons, List.sum_cons]
    omega

theorem ends_of_holds {chosen : List ZipDirectory.Member} {helds : List Held} {size : Nat}
    (holds : List.Forall₂ Holds chosen helds) (inside : ∀ m ∈ chosen, m.range.2 ≤ size) :
    ∀ held ∈ helds, held.start + held.length ≤ size := by
  induction holds with
  | nil => exact fun _ absent => absurd absent List.not_mem_nil
  | cons head _ ih =>
    obtain ⟨first, others⟩ := List.forall_mem_cons.mp inside
    exact List.forall_mem_cons.mpr ⟨head.2 ▸ first, ih others⟩

theorem listWarcs_sum {warcs : List Held} (follows : FollowsDirectory reading file)
    (done : listWarcs reading file = .returns warcs) :
    file.content.length ≤ maxArchive ∧ (∀ held ∈ warcs, held.start + held.length ≤ file.content.length) ∧
      (warcs.map Held.length).sum ≤ file.content.length := by
  obtain ⟨_, small, done⟩ := Checked.bind_eq_returns.mp done
  obtain ⟨directory, valid, done⟩ := Checked.bind_eq_returns.mp done
  obtain ⟨_, -, done⟩ := Checked.bind_eq_returns.mp done
  obtain ⟨expected, -, done⟩ := Checked.bind_eq_returns.mp done
  obtain ⟨walk, walked, done⟩ := Checked.bind_eq_returns.mp done
  cases done
  obtain ⟨span, members, checked⟩ := (Checked.Sound.iff.mp (ZipDirectory.validate_sound file file.content.length)).2 directory valid
  obtain ⟨chosen, added, among, behind, holds⟩ := loadEntries_holds (follows directory span members valid checked) walked
  rw [behind, List.nil_append]
  have start : directory.start ≤ file.content.length := by
    have inside := (segment_eq_some.mp checked.held).1
    omega
  have inside : ∀ m ∈ chosen, m.range.2 ≤ file.content.length := fun m there =>
    Nat.le_trans (checked.before m (among.subset there)).2 start
  exact ⟨Checked.ensure_eq_returns.mp small, ends_of_holds holds inside, sum_held_le holds (checked.apart.sublist (among.map _)) inside⟩

end directory

section totals

variable {α β : Type} {analysis : Analysis} {tally : Tally} {record : Record} {records : List Record}

/-- A step of the report that does not find its own account wrong. -/
def Counts (post : α → Prop) : Reported α → Prop
  | .returns a => post a
  | .fails e => e ≠ .storage
  | .panics => False

theorem Counts.bind {post : α → Prop} {post' : β → Prop} {first : Reported α} {next : α → Reported β}
    (counts : Counts post first) (step : ∀ a, post a → Counts post' (next a)) : Counts post' (first >>= next) := by
  cases first with
  | returns a => exact step a counts
  | fails e => exact counts
  | panics => exact counts

theorem Counts.fits {bound n : Nat} (small : n < bound) : Counts (fun _ => True) (Checked.fits bound n) := by
  rw [Checked.fits, if_pos small]
  exact trivial

def Tally.payloadBytes (tally : Tally) : Nat := tally.uniquePayloadBytes + tally.duplicatePayloadBytes

theorem countStored_counts {digest : Text} {stored : Nat} (small : tally.payloadBytes + stored < 2 ^ 64) :
    Counts (fun after => after.payloadBytes = tally.payloadBytes + stored) (countStored tally digest stored) := by
  unfold Tally.payloadBytes at small ⊢
  unfold countStored
  split
  · refine (Counts.fits (by omega)).bind fun _ _ => ?_
    exact (Nat.add_assoc _ _ _).symm
  · refine (Counts.fits (by omega)).bind fun _ _ => ?_
    exact Nat.add_right_comm _ _ _

theorem analysePage_counts :
    Counts (fun after => after.payloadBytes = tally.payloadBytes) (analysePage analysis record tally) := by
  unfold analysePage
  split
  case isFalse => exact rfl
  case isTrue =>
    split
    · exact nofun
    · exact rfl
    · split
      · split
        · exact nofun
        · exact rfl
      · exact rfl

theorem tallyRecord_counts (small : tally.payloadBytes + record.stored < 2 ^ 64) :
    Counts (fun after => after.payloadBytes = tally.payloadBytes + if record.reported then record.stored else 0)
      (tallyRecord analysis tally record) := by
  unfold tallyRecord
  split
  case isFalse => exact rfl
  case isTrue =>
    refine (countStored_counts small).bind fun counted same => ?_
    refine analysePage_counts.bind fun analysed same' => ?_
    exact same'.trans same

def reportedBytes (records : List Record) : Nat := ((records.filter Record.reported).map Record.stored).sum

theorem reportedBytes_cons : reportedBytes (record :: records) =
    (if record.reported then record.stored else 0) + reportedBytes records := by
  unfold reportedBytes
  rw [List.filter_cons]
  split <;> simp

theorem reportedBytes_le (records : List Record) : reportedBytes records ≤ (records.map Record.stored).sum := by
  induction records with
  | nil => exact Nat.le_refl _
  | cons record rest ih =>
    rw [reportedBytes_cons, List.map_cons, List.sum_cons]
    split <;> omega

theorem tallyRecords_counts (small : tally.payloadBytes + (records.map Record.stored).sum < 2 ^ 64) :
    Counts (fun after => after.payloadBytes = tally.payloadBytes + reportedBytes records)
      (tallyRecords analysis records tally) := by
  induction records generalizing tally with
  | nil => exact rfl
  | cons record rest ih =>
    rw [List.map_cons, List.sum_cons] at small
    refine (tallyRecord_counts (by omega)).bind fun next same => ?_
    have less : (if record.reported then record.stored else 0) ≤ record.stored := by split <;> omega
    have later := @ih next (by omega)
    rw [same, Nat.add_assoc, ← reportedBytes_cons] at later
    exact later

/-- A report of records that have no more than the archive together adds up. -/
theorem report_counts {archive : Loaded} (small : archive.archiveBytes < 2 ^ 64)
    (within : (archive.records.map Record.stored).sum ≤ archive.archiveBytes) :
    Counts (fun report => report.archiveBytes = archive.archiveBytes ∧
        report.uniquePayloadBytes + report.duplicatePayloadBytes = reportedBytes archive.records ∧
        report.uniquePayloadBytes + report.duplicatePayloadBytes + report.metadataBytes = report.archiveBytes)
      (reportWithAnalysisBudget analysis archive) := by
  have none : Tally.payloadBytes {} = 0 := rfl
  have part := reportedBytes_le archive.records
  refine (tallyRecords_counts (by omega)).bind fun tally total => ?_
  rw [none, Nat.zero_add] at total
  change tally.uniquePayloadBytes + tally.duplicatePayloadBytes = reportedBytes archive.records at total
  refine (Counts.fits (by omega)).bind fun _ _ => ?_
  have below : tally.uniquePayloadBytes + tally.duplicatePayloadBytes ≤ archive.archiveBytes := by omega
  rw [Checked.ensure, if_pos below, Checked.returns_bind]
  exact ⟨rfl, total, Nat.add_sub_of_le below⟩

end totals

section accounts

variable {reading : Reading} {file : ZipDirectory.File} {id : Nat} {archive : Loaded}

theorem load_tiles (follows : FollowsDirectory reading file) (loads : load reading file id = .returns archive) :
    archive.archiveBytes = file.content.length ∧
      ∃ warcs, listWarcs reading file = .returns warcs ∧ TileAll warcs archive.records := by
  obtain ⟨warcs, listed, done⟩ := Checked.bind_eq_returns.mp loads
  obtain ⟨progress, read, done⟩ := Checked.bind_eq_returns.mp done
  obtain ⟨_, -, done⟩ := Checked.bind_eq_returns.mp done
  obtain ⟨_, -, done⟩ := Checked.bind_eq_returns.mp done
  obtain ⟨records, resolved, done⟩ := Checked.bind_eq_returns.mp done
  cases done
  obtain ⟨pieces, behind, each⟩ := readWarcs_tiles (listWarcs_sum follows listed).2.1 read
  have scanned : TileAll warcs progress.records := ⟨pieces, behind, each⟩
  exact ⟨rfl, warcs, listed, scanned.congr (resolveLocal_extent resolved)⟩

/-- The records of an archive that loads lie in gzip members that partition each WARC
file, and share each member exactly; the report of the archive never finds more
payload than file, and its parts add up to the file. -/
theorem storage_adds_up (follows : FollowsDirectory reading file) (loads : load reading file id = .returns archive) :
    archive.archiveBytes = file.content.length ∧
      (∃ warcs, listWarcs reading file = .returns warcs ∧ TileAll warcs archive.records) ∧
      ∀ analysis, reportWithAnalysisBudget analysis archive ≠ .panics ∧
        reportWithAnalysisBudget analysis archive ≠ .fails .storage ∧
        ∀ report, reportWithAnalysisBudget analysis archive = .returns report →
          report.archiveBytes = file.content.length ∧
          report.uniquePayloadBytes + report.duplicatePayloadBytes = reportedBytes archive.records ∧
          report.uniquePayloadBytes + report.duplicatePayloadBytes + report.metadataBytes = report.archiveBytes := by
  obtain ⟨sized, warcs, listed, tiles⟩ := load_tiles follows loads
  obtain ⟨small, -, together⟩ := listWarcs_sum follows listed
  have bound : maxArchive = 34359738368 := rfl
  have within : (archive.records.map Record.stored).sum ≤ archive.archiveBytes := by
    rw [tiles.sum_stored, sized]
    exact together
  refine ⟨sized, ⟨warcs, listed, tiles⟩, fun analysis => ?_⟩
  have counts := @report_counts analysis archive (by omega) within
  cases result : reportWithAnalysisBudget analysis archive with
  | returns report =>
    rw [result] at counts
    obtain ⟨own, rest⟩ := counts
    exact ⟨nofun, nofun, fun _ same => by cases same; exact ⟨own.trans sized, rest⟩⟩
  | fails e =>
    rw [result] at counts
    refine ⟨nofun, fun same => counts ?_, nofun⟩
    cases same
    rfl
  | panics =>
    rw [result] at counts
    exact counts.elim

end accounts

section sample

def memberName : Text := "a.warc.gz".toList

def memberLocal : Bytes :=
  ZipDirectory.localSignature ++ List.replicate 14 0 ++ [3, 0, 0, 0, 3, 0, 0, 0, 9, 0, 0, 0] ++ utf8 memberName ++ [1, 2, 3]

def memberCentral : Bytes :=
  ZipDirectory.recordSignature ++ List.replicate 16 0 ++ [3, 0, 0, 0, 3, 0, 0, 0, 9, 0] ++ List.replicate 16 0 ++ utf8 memberName

def memberEnd : Bytes :=
  ZipDirectory.endSignature ++ [0, 0, 0, 0, 1, 0, 1, 0, 55, 0, 0, 0, 42, 0, 0, 0, 0, 0]

def packedFile : ZipDirectory.File where
  content := memberLocal ++ memberCentral ++ memberEnd
  addressable := by decide

def resourceText : Text := "WARC/1.0\r\nWARC-Type: resource\r\nContent-Length: 0\r\n\r\n\r\n\r\n".toList

/-- A decoder that takes the whole file for one member of two records. -/
def wholeSource (size start stop : Nat) : Source size start stop where
  read w _ left short := .ok {
    after := { position := min stop size, buffered := min stop size - w.position, held := by have := w.held; omega, inside := Nat.min_le_left _ _ }
    read := by dsimp only; omega
    some := by dsimp only; omega }
  decode w := {
    chunks := [utf8 (resourceText ++ resourceText)]
    after := { w with buffered := 0, held := Nat.le_trans (Nat.le_add_right _ _) w.held }
    reached := .single (.consume rfl (Nat.zero_le _)) }

def memberEntry : Entry where
  name := memberName
  size := 3
  special := false
  dir := false
  stored := true
  dataStart := some 39
  body := { bytes := [1, 2, 3] }

def packedReading : Reading where
  sha256 _ := emptyDigest
  entries _ := [memberEntry]
  manifest _ := .returns fun name => if name = memberName then some (3, emptyDigest) else none
  checks _ := .returns ()
  indexes _ := .returns ()
  sources := wholeSource

theorem packedFile_directory {directory : ZipDirectory.Directory}
    (valid : ZipDirectory.validate packedFile packedFile.content.length = .returns directory) :
    directory.count = 1 ∧ directory.start = 42 := by
  have placed : (ZipDirectory.validate packedFile packedFile.content.length >>= fun directory =>
      Checked.ensure (directory.count = 1 ∧ directory.start = 42) "") = .returns () := by decide +kernel
  rw [valid, Checked.returns_bind] at placed
  exact Checked.ensure_eq_returns.mp placed

theorem widened_short {z : Bytes} {p field value used : Nat} (widened : ZipDirectory.Widened z p field value used)
    (short : field < 65536) : value = field := by
  have bound : ZipDirectory.u32Max = 4294967295 := rfl
  cases widened with
  | narrow => rfl
  | wide => omega

theorem packedFile_follows : FollowsDirectory packedReading packedFile := by
  intro directory span members valid checked
  obtain ⟨count, start⟩ := packedFile_directory valid
  have chain := checked.chain
  obtain ⟨m, rfl⟩ := List.length_eq_one_iff.mp (checked.counted.trans count)
  rw [start] at chain
  cases chain with
  | record central header _ =>
    obtain ⟨_, packed, localAt, _, _, _, -, packedRead, localRead, -, packedWide, localWide⟩ := central.sized
    have nameLength := central.nameLength.symm.trans (by decide +kernel : word 2 packedFile.content (42 + 28) = some 9)
    have packed' := packedRead.symm.trans (by decide +kernel : word 4 packedFile.content (42 + 20) = some 3)
    have local' := localRead.symm.trans (by decide +kernel : word 4 packedFile.content (42 + 42) = some 0)
    cases packed'
    cases local'
    have extra := header.extraLength
    rw [widened_short localWide (by decide)] at extra
    have extra' := extra.symm.trans (by decide +kernel : word 2 packedFile.content (0 + 28) = some 0)
    have starts : m.localAt + 30 + (m.name.length + m.localExtra) = 39 := by
      rw [widened_short localWide (by decide), Option.some.inj nameLength, Option.some.inj extra']
    refine .cons ⟨fun start there => ?_, fun _ _ => ?_⟩ .nil
    · cases there
      exact starts.symm
    · rw [starts, widened_short packedWide (by decide)]
      rfl

theorem packedFile_loads : ∃ archive, load packedReading packedFile 0 = .returns archive ∧
    archive.records.map Record.extent = [(memberName, 0, 3, 2), (memberName, 0, 3, 1)] := by
  have placed : (load packedReading packedFile 0 >>= fun archive =>
      Checked.ensure (archive.records.map Record.extent = [(memberName, 0, 3, 2), (memberName, 0, 3, 1)]) "") =
        .returns () := by
    decide +kernel
  obtain ⟨archive, loads, extents⟩ := Checked.bind_eq_returns.mp placed
  exact ⟨archive, loads, Checked.ensure_eq_returns.mp extents⟩

/-- Two records that share a member of three bytes. -/
theorem storage_of_a_shared_member : ∃ archive, load packedReading packedFile 0 = .returns archive ∧
    archive.records.map Record.extent = [(memberName, 0, 3, 2), (memberName, 0, 3, 1)] ∧
    ∀ analysis, reportWithAnalysisBudget analysis archive ≠ .fails .storage := by
  obtain ⟨archive, loads, extents⟩ := packedFile_loads
  exact ⟨archive, loads, extents, fun analysis => ((storage_adds_up packedFile_follows loads).2.2 analysis).2.1⟩

end sample


end NixHomeServer.Browsertrix.Engine
