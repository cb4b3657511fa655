import NixHomeServer.Library.Batches
import NixHomeServer.Library.Interaction
import NixHomeServer.Library.Keyed
import NixHomeServer.Search.Records
import Mathlib.Data.String.Basic

/-! The passes of the indexer over one source: what PostgreSQL holds of it and what Solr holds,
when any call may fail in part and a pass may end anywhere. -/
namespace NixHomeServer.Search.Indexer

open NixHomeServer.Library

/-- The documents of the source in the database and in the index. -/
structure Stores where
  documents : Keyed DocumentRecord.externalId
  core : Keyed SolrDocument.id

def Stores.empty : Stores := ⟨.empty, .empty⟩

inductive StoreOp
  | existingChecksums
  | addDocuments (docs : List SolrDocument)
  /-- One transaction for a batch. -/
  | upsertDocuments (records : List DocumentRecord)
  | deleteMissing (chunk : List String)
  | deleteIds (chunk : List String)
  | deleteBySource
  | commit
  | documentsBatch (after : Option String) (limit : Nat)
  | markSynced

def StoreAnswer : StoreOp → Type
  | .existingChecksums => List (String × String)
  | .documentsBatch _ _ => List DocumentRecord
  | _ => Unit

/-- How a call ends: one that fails may be done in part. -/
structure Ending where
  fault : Option String := none
  done : Nat → Bool := fun _ => false

def solrBatchSize : Nat := 200
def reindexBatchSize : Nat := 500
def dbDeleteChunk : Nat := 5000
def solrDeleteChunk : Nat := 1000

-- The order of the ids in the database is that of its collation.
variable {κ : Type} [LinearOrder κ] (source : String) (calendarYear : Int → Option Int) (collate : String → κ)

section Calls

def effect (w : Stores) : StoreOp → Stores
  | .addDocuments docs => { w with core := w.core.putAll docs }
  | .upsertDocuments records => { w with documents := w.documents.putAll (records.map DocumentRecord.stored) }
  | .deleteMissing chunk => { w with documents := w.documents.filter fun row => row.externalId ∉ chunk }
  | .deleteIds chunk => { w with core := w.core.filter fun doc => doc.id ∉ chunk }
  | .deleteBySource => { w with core := .empty }
  | _ => w

def answer (w : Stores) : (op : StoreOp) → StoreAnswer op
  | .existingChecksums => w.documents.rows.map fun row => (row.externalId, row.checksum)
  | .documentsBatch after limit =>
    page (fun row => collate (fullDocumentId source row.externalId)) limit w.documents.rows (after.map collate)
  | .addDocuments _ | .upsertDocuments _ | .deleteMissing _ | .deleteIds _ | .deleteBySource | .commit | .markSynced => ()

/-- The items of a request whose turn came before it failed. -/
def Ending.part {α : Type} (c : Ending) (items : List α) : List α := (items.zipIdx.filter fun item => c.done item.2).map Prod.fst

/-- A statement and a transaction are done or not; Solr takes a request item by item. -/
def spoiled (c : Ending) (w : Stores) : StoreOp → Stores
  | .addDocuments docs => effect w (.addDocuments (c.part docs))
  | .deleteIds chunk => effect w (.deleteIds (c.part chunk))
  | op => if c.done 0 then effect w op else w

def perform (c : Ending) (w : Stores) (op : StoreOp) : Stores × Except String (StoreAnswer op) :=
  match c.fault with
  | none => (effect w op, .ok (answer source collate w op))
  | some text => (spoiled c w op, .error text)

abbrev Pass (α : Type) := Prog.Failing StoreAnswer String α

abbrev call (op : StoreOp) : Pass (StoreAnswer op) := Prog.must op

end Calls

section Programs

def pushBatch (records : List DocumentRecord) : Pass Unit :=
  if records.isEmpty then pure ()
  else do
    let _ ← call (.addDocuments (records.map (SolrDocument.project calendarYear source)))
    let _ ← call (.upsertDocuments records)
    return ()

/-- The documents that come in; whatever is left to push comes back. -/
def receive (existing : List (String × String)) : List DocumentRecord → List DocumentRecord → Pass (List DocumentRecord)
  | pending, [] => return pending
  | pending, record :: rest =>
    if existing.lookup record.externalId = some record.checksum then receive existing pending rest
    else if (pending ++ [record]).length ≥ solrBatchSize then do
      pushBatch source calendarYear (pending ++ [record])
      receive existing [] rest
    else receive existing (pending ++ [record]) rest

def eachChunk (op : List String → StoreOp) : List (List String) → Pass Unit
  | [] => return ()
  | chunk :: rest => do
    let _ ← call (op chunk)
    eachChunk op rest

def refuseFullWipe (existing seen : Nat) : Bool := existing > 0 && seen == 0

/-- What an extraction emits, and how it ends. -/
structure Extraction where
  emitted : List DocumentRecord
  failure : Option String := none

def Extraction.seen (extraction : Extraction) : List String := extraction.emitted.map DocumentRecord.externalId

def indexSourceLocked (federated massDeleteAllowed : Bool) (extraction : Extraction) : Pass Unit := do
  let existing ← call .existingChecksums
  let pending ← receive source calendarYear existing [] extraction.emitted
  match extraction.failure with
  | some text => throw text
  | none => do
    pushBatch source calendarYear pending
    let missing := (existing.map Prod.fst).filter (· ∉ extraction.seen)
    if !federated && refuseFullWipe existing.length extraction.seen.dedup.length && !massDeleteAllowed then
      throw s!"source '{source}' produced no documents but {existing.length} are indexed; refusing to delete them (set SEARCH_ALLOW_MASS_DELETE=1 to override)"
    else do
      eachChunk .deleteMissing (chunks dbDeleteChunk missing)
      eachChunk .deleteIds (chunks solrDeleteChunk (missing.map (fullDocumentId source)))
      let _ ← call .commit
      let _ ← call .markSynced
      return ()

/-- Batch after batch until one is short, for at most so many batches. -/
def rebuildFrom : Nat → Option String → Nat → Pass (Option Nat)
  | 0, _, _ => return none
  | fuel + 1, after, total => do
    let batch : List DocumentRecord ← call (.documentsBatch after reindexBatchSize)
    if batch.isEmpty then return some total
    else do
      let _ ← call (.addDocuments (batch.map (SolrDocument.project calendarYear source)))
      if batch.length < reindexBatchSize then return some (total + batch.length)
      else rebuildFrom fuel (batch.getLast?.map fun row => fullDocumentId source row.externalId) (total + batch.length)

def rebuildSource (fuel : Nat) : Pass (Option Nat) := do
  let _ ← call .deleteBySource
  let _ ← call .commit
  let total ← rebuildFrom source calendarYear fuel none 0
  let _ ← call .commit
  return total

end Programs

section Running

variable {source calendarYear collate} {permitted : Stores → StoreOp → Prop} {α β : Type} {w : Stores}

/-- One pass works on a source at a time: the lock of the source keeps the others out. -/
def locked (source : String) (collate : String → κ) (permitted : Stores → StoreOp → Prop) :
    Setting StoreOp (fun op => Except String (StoreAnswer op)) Stores Ending where
  perform := perform source collate
  possible := fun _ => True
  rely := Eq
  permitted := permitted
  refl := fun _ => rfl
  trans := Eq.trans

theorem safe_pure {post : α → Stores → Prop} {a : α} (met : post a w) :
    Prog.Safe (locked source collate permitted) (Prog.onOk post) (pure a : Pass α).run w := by
  rintro _ rfl b same
  cases same
  exact met

theorem safe_throw {post : α → Stores → Prop} {text : String} :
    Prog.Safe (locked source collate permitted) (Prog.onOk post) (throw text : Pass α).run w := by
  rintro _ rfl b same
  cases same

/-- Only a call that is done is followed by the next. -/
theorem safe_call {post : α → Stores → Prop} {op : StoreOp} {f : StoreAnswer op → Pass α} (allowed : permitted w op)
    (next : Prog.Safe (locked source collate permitted) (Prog.onOk post) (f (answer source collate w op)).run (effect w op)) :
    Prog.Safe (locked source collate permitted) (Prog.onOk post) (call op >>= f).run w := by
  refine Prog.Safe.must ?_
  rintro _ rfl
  refine ⟨allowed, fun c _ => ⟨fun result done => ?_, fun text _ => ?_⟩⟩
  · change (perform source collate c w op).2 = .ok result at done
    change Prog.Safe _ _ (f result).run (perform source collate c w op).1
    unfold perform at done ⊢
    split at done
    · cases done
      exact next
    · cases done
  · rintro _ rfl b same
    cases same

theorem safe_bind {mid : α → Stores → Prop} {post : β → Stores → Prop} {x : Pass α} {f : α → Pass β}
    (first : Prog.Safe (locked source collate permitted) (Prog.onOk mid) x.run w)
    (next : ∀ a w', mid a w' → Prog.Safe (locked source collate permitted) (Prog.onOk post) (f a).run w') :
    Prog.Safe (locked source collate permitted) (Prog.onOk post) (x >>= f).run w :=
  Prog.Safe.andThen first next

theorem outcome_ok {post : α → Stores → Prop} {x : Pass α} {a : α} {reached : Stores}
    (safe : Prog.Safe (locked source collate permitted) (Prog.onOk post) x.run w) (choices : Nat → Ending)
    (done : x.run.outcome (perform source collate) choices w = (.ok a, reached)) : post a reached := by
  have met := safe.outcome choices fun _ => trivial
  change Prog.onOk post (x.run.outcome (perform source collate) choices w).1 (x.run.outcome (perform source collate) choices w).2 at met
  rw [done] at met
  exact met a rfl

end Running

section Passes

variable {source calendarYear collate} {permitted : Stores → StoreOp → Prop} {w : Stores}

/-- The records that are pushed, in both stores. -/
def Stores.push (source : String) (calendarYear : Int → Option Int) (w : Stores) (records : List DocumentRecord) : Stores where
  documents := w.documents.putAll (records.map DocumentRecord.stored)
  core := w.core.putAll (records.map (SolrDocument.project calendarYear source))

/-- The emitted records that differ from the rows of the start. -/
def Stores.changed (w : Stores) (emitted : List DocumentRecord) : List DocumentRecord :=
  emitted.filter fun record => decide ((w.documents.get record.externalId).map DocumentRecord.checksum ≠ some record.checksum)

def Stores.missing (w : Stores) (extraction : Extraction) : List String :=
  (w.documents.rows.map DocumentRecord.externalId).filter (· ∉ extraction.seen)

/-- What a pass that comes to its end leaves. -/
def Stores.synced (source : String) (calendarYear : Int → Option Int) (w : Stores) (extraction : Extraction) : Stores where
  documents := (w.push source calendarYear (w.changed extraction.emitted)).documents.filter fun row =>
    row.externalId ∉ w.missing extraction
  core := (w.push source calendarYear (w.changed extraction.emitted)).core.filter fun doc =>
    doc.id ∉ (w.missing extraction).map (fullDocumentId source)

/-- The index has a document for each row. -/
def Stores.Covered (source : String) (w : Stores) : Prop :=
  ∀ row ∈ w.documents.rows, (w.core.get (fullDocumentId source row.externalId)).isSome

/-- A pass writes a row after its document, and takes a document away after its row. -/
def Covering (source : String) (w : Stores) : StoreOp → Prop
  | .upsertDocuments records => ∀ record ∈ records, (w.core.get (fullDocumentId source record.externalId)).isSome
  | .deleteIds chunk => ∀ row ∈ w.documents.rows, fullDocumentId source row.externalId ∉ chunk
  | .deleteBySource => False
  | _ => True

theorem push_append (w : Stores) (early late : List DocumentRecord) :
    w.push source calendarYear (early ++ late) = (w.push source calendarYear early).push source calendarYear late := by
  simp only [Stores.push, List.map_append, Keyed.putAll_append]

theorem lookup_checksums (w : Stores) (externalId : String) :
    (w.documents.rows.map fun row => (row.externalId, row.checksum)).lookup externalId =
      (w.documents.get externalId).map DocumentRecord.checksum := by
  unfold Keyed.get
  induction w.documents.rows with
  | nil => rfl
  | cons row rest ih =>
    rw [List.map_cons, List.lookup_cons, List.find?_cons, ih]
    by_cases same : externalId = row.externalId
    · simp [same]
    · have other : (externalId == row.externalId) = false := beq_eq_false_iff_ne.mpr same
      simp [other, Ne.symm same]

theorem mem_part {α : Type} {c : Ending} {items : List α} {item : α} (member : item ∈ c.part items) : item ∈ items := by
  obtain ⟨⟨found, place⟩, kept, rfl⟩ := List.mem_map.mp member
  exact (List.mem_zipIdx' (List.mem_filter.mp kept).1).2 ▸ List.getElem_mem _

theorem covered_effect (op : StoreOp) (covered : w.Covered source) (allowed : Covering source w op) :
    (effect w op).Covered source := by
  cases op with
  | addDocuments docs => exact fun row member => Keyed.isSome_putAll _ _ (covered row member)
  | upsertDocuments records =>
    intro row member
    rcases Keyed.get_putAll_cases _ (Keyed.mem_iff_get.mp member) with written | before
    · obtain ⟨record, own, rfl⟩ := List.mem_map.mp written
      exact allowed record own
    · exact covered row (Keyed.mem_iff_get.mpr before)
  | deleteMissing chunk => exact fun row member => covered row (List.mem_filter.mp member).1
  | deleteIds chunk =>
    intro row member
    obtain ⟨doc, found⟩ := Option.isSome_iff_exists.mp (covered row member)
    have kept : doc.id ∉ chunk := Keyed.key_of_get found ▸ allowed row member
    simp [effect, Keyed.get_filter, found, kept]
  | deleteBySource => exact allowed.elim
  | existingChecksums | commit | documentsBatch | markSynced => exact covered

/-- Wherever a call of a pass fails, the rows stay covered. -/
theorem covered_perform {op : StoreOp} {c : Ending} (covered : w.Covered source) (allowed : Covering source w op) :
    (perform source collate c w op).1.Covered source := by
  unfold perform
  split
  · exact covered_effect op covered allowed
  · unfold spoiled
    split
    · exact covered_effect (.addDocuments _) covered trivial
    · exact covered_effect (.deleteIds _) covered fun row member inside => allowed row member (mem_part inside)
    · split
      · exact covered_effect op covered allowed
      · exact covered

theorem safe_pushBatch (records : List DocumentRecord) :
    Prog.Safe (locked source collate (Covering source))
      (Prog.onOk fun _ w' => w' = w.push source calendarYear records) (pushBatch source calendarYear records).run w := by
  unfold pushBatch
  split
  · rename_i none
    obtain rfl := List.isEmpty_iff.mp none
    exact safe_pure rfl
  · refine safe_call trivial (safe_call (fun record member => ?_) (safe_pure rfl))
    change ((w.core.putAll _).get _).isSome
    rw [Keyed.get_putAll, Option.isSome_or, Bool.or_eq_true]
    refine .inl (List.find?_isSome.mpr ⟨SolrDocument.project calendarYear source record, ?_, ?_⟩)
    · exact List.mem_reverse.mpr (List.mem_map_of_mem member)
    · exact decide_eq_true rfl

theorem safe_receive (start : Stores) (rest pending : List DocumentRecord) :
    Prog.Safe (locked source collate (Covering source))
      (Prog.onOk fun left w' => ∃ pushed, pushed ++ left = pending ++ start.changed rest ∧ w' = w.push source calendarYear pushed)
      (receive source calendarYear (start.documents.rows.map fun row => (row.externalId, row.checksum)) pending rest).run w := by
  induction rest generalizing pending w with
  | nil => exact safe_pure ⟨[], (List.append_nil pending).symm, rfl⟩
  | cons record rest ih =>
    unfold receive
    rw [lookup_checksums]
    split
    · rename_i same
      have changed : start.changed (record :: rest) = start.changed rest :=
        List.filter_cons_of_neg (by simp [same])
      rw [changed]
      exact ih pending
    · rename_i other
      have changed : start.changed (record :: rest) = record :: start.changed rest :=
        List.filter_cons_of_pos (decide_eq_true other)
      have whole : pending ++ start.changed (record :: rest) = (pending ++ [record]) ++ start.changed rest := by
        rw [changed, List.append_assoc, List.singleton_append]
      rw [whole]
      split
      · refine safe_bind (safe_pushBatch _) ?_
        rintro _ _ rfl
        refine (ih []).mono ?_
        rintro _ w' done left rfl
        obtain ⟨pushed, parts, rfl⟩ := done left rfl
        refine ⟨(pending ++ [record]) ++ pushed, ?_, (push_append ..).symm⟩
        rw [List.append_assoc, parts, List.nil_append]
      · exact ih _

theorem safe_deleteMissing (parts : List (List String)) :
    Prog.Safe (locked source collate (Covering source))
      (Prog.onOk fun _ w' => w' = { w with documents := w.documents.filter fun row => row.externalId ∉ parts.flatten })
      (eachChunk .deleteMissing parts).run w := by
  induction parts generalizing w with
  | nil =>
    refine safe_pure ?_
    simp [Keyed.filter]
  | cons chunk rest ih =>
    refine safe_call trivial (ih.mono ?_)
    rintro _ w' done a rfl
    rw [done a rfl, List.flatten_cons, ← Keyed.filter_not_mem_append]
    rfl

theorem safe_deleteIds (parts : List (List String))
    (apart : ∀ row ∈ w.documents.rows, fullDocumentId source row.externalId ∉ parts.flatten) :
    Prog.Safe (locked source collate (Covering source))
      (Prog.onOk fun _ w' => w' = { w with core := w.core.filter fun doc => doc.id ∉ parts.flatten })
      (eachChunk .deleteIds parts).run w := by
  induction parts generalizing w with
  | nil =>
    refine safe_pure ?_
    simp [Keyed.filter]
  | cons chunk rest ih =>
    have first : ∀ row ∈ w.documents.rows, fullDocumentId source row.externalId ∉ chunk := fun row member inside =>
      apart row member (List.mem_flatten_of_mem List.mem_cons_self inside)
    have later : ∀ row ∈ (effect w (.deleteIds chunk)).documents.rows, fullDocumentId source row.externalId ∉ rest.flatten := by
      intro row member inside
      refine apart row member ?_
      rw [List.flatten_cons]
      exact List.mem_append_right _ inside
    refine safe_call first ((ih later).mono ?_)
    rintro _ w' done a rfl
    rw [done a rfl, List.flatten_cons, ← Keyed.filter_not_mem_append]
    rfl

/-- A pass that comes to its end has pushed what differs and removed what is missing, wherever it started. -/
theorem safe_indexSourceLocked (federated massDeleteAllowed : Bool) (extraction : Extraction) :
    Prog.Safe (locked source collate (Covering source))
      (Prog.onOk fun _ w' => w' = w.synced source calendarYear extraction)
      (indexSourceLocked source calendarYear federated massDeleteAllowed extraction).run w := by
  unfold indexSourceLocked
  refine safe_call trivial (safe_bind (safe_receive w extraction.emitted []) ?_)
  rintro left _ ⟨pushed, parts, rfl⟩
  split
  · exact safe_throw
  · refine safe_bind (safe_pushBatch left) ?_
    rintro _ _ rfl
    rw [← push_append, parts, List.nil_append]
    have missing : ((w.documents.rows.map fun row => (row.externalId, row.checksum)).map Prod.fst).filter (· ∉ extraction.seen) =
        w.missing extraction := by
      rw [List.map_map]
      rfl
    simp only [answer, missing]
    split
    · exact safe_throw
    · refine safe_bind (safe_deleteMissing _) ?_
      rintro _ _ rfl
      rw [flatten_chunks]
      refine safe_bind (safe_deleteIds _ ?_) ?_
      · rw [flatten_chunks]
        intro row member inside
        obtain ⟨externalId, own, same⟩ := List.mem_map.mp inside
        rw [fullDocumentId_inj] at same
        subst same
        exact of_decide_eq_true (List.mem_filter.mp member).2 own
      · rintro _ _ rfl
        rw [flatten_chunks]
        exact safe_call trivial (safe_call trivial (safe_pure rfl))

end Passes

section Sessions

/-- A pass over the source, as it is started. -/
structure Attempt where
  federated : Bool
  massDeleteAllowed : Bool
  extraction : Extraction

def Attempt.program (attempt : Attempt) : Prog StoreOp (fun op => Except String (StoreAnswer op)) (Except String Unit) :=
  (indexSourceLocked source calendarYear attempt.federated attempt.massDeleteAllowed attempt.extraction).run

/-- Passes that follow one another and may be cut anywhere; nothing else writes. -/
def passes (w : Stores) (events : List (SessionEvent Ending Empty Attempt)) : Stores :=
  (Runs.run (fun s => Session.next (perform source collate) (fun e : Empty => e.elim) (Attempt.program source calendarYear) s)
    ⟨w, none⟩ events).world

variable {source calendarYear collate} {w : Stores}

theorem covered_passes (covered : w.Covered source) (events : List (SessionEvent Ending Empty Attempt)) :
    (passes source calendarYear collate w events).Covered source :=
  Session.run_keeps (S := locked source collate (Covering source)) (fun e : Empty => e.elim)
    (Attempt.program source calendarYear) (fun _ _ => True) (Stores.Covered source) (fun _ _ _ => (safe_indexSourceLocked _ _ _).mono fun _ _ _ => trivial)
    nofun nofun (fun _ _ _ allowed here => covered_perform here allowed) (fun _ => trivial) events covered

/-- Where each row has its document, the counts are equal exactly if there are no others. -/
theorem count_iff_of_covered (covered : w.Covered source) : w.documents.rows.length = w.core.rows.length ↔
    (w.documents.rows.map fun row => fullDocumentId source row.externalId).Perm (w.core.rows.map SolrDocument.id) := by
  constructor
  · intro count
    have distinct : (w.documents.rows.map fun row => fullDocumentId source row.externalId).Nodup := by
      have ids := w.documents.distinct.map (f := fullDocumentId source) fun _ _ same => fullDocumentId_inj.mp same
      rwa [List.map_map] at ids
    have inside : (w.documents.rows.map fun row => fullDocumentId source row.externalId) ⊆ w.core.rows.map SolrDocument.id := by
      intro id member
      obtain ⟨row, own, rfl⟩ := List.mem_map.mp member
      obtain ⟨doc, found⟩ := Option.isSome_iff_exists.mp (covered row own)
      obtain ⟨there, same⟩ := Keyed.get_eq_some.mp found
      exact same ▸ List.mem_map_of_mem there
    exact (List.subperm_of_subset distinct inside).perm_of_length_le (by rw [List.length_map, List.length_map, count])
  · intro perm
    simpa using perm.length_eq

/-- However passes fail and wherever they are cut, each row keeps its document, so that the counts
tell whether the index holds a document that the database does not. -/
theorem counts_tell (covered : w.Covered source) (events : List (SessionEvent Ending Empty Attempt)) :
    let reached := passes source calendarYear collate w events
    reached.Covered source ∧ (reached.documents.rows.length = reached.core.rows.length ↔
      (reached.documents.rows.map fun row => fullDocumentId source row.externalId).Perm (reached.core.rows.map SolrDocument.id)) :=
  ⟨covered_passes covered events, count_iff_of_covered (covered_passes covered events)⟩

def sampleNote : DocumentRecord where
  externalId := "1"
  kind := "mail"
  title := "Minutes"
  bodyText := "Minutes of the meeting"
  contentType := "message/rfc822"
  originUrl := ""
  appUrl := ""
  filePath := "/mail/1.eml"
  sizeBytes := 22
  checksum := "c1"
  contentCreatedAt := none
  contentModifiedAt := none
  metadata := .null

/-- The push fails after it reached Solr, the pass ends, and the next one begins. -/
theorem counts_tell_after_cut :
    let reached := passes "mail" (fun _ => none) (id : String → String) .empty
      [.start ⟨false, false, ⟨[sampleNote], none⟩⟩, .step {}, .step ⟨some "timeout", fun _ => true⟩, .crash,
        .start ⟨false, false, ⟨[], none⟩⟩, .step {}]
    reached.Covered "mail" ∧ (reached.documents.rows.length = reached.core.rows.length ↔
      (reached.documents.rows.map fun row => fullDocumentId "mail" row.externalId).Perm (reached.core.rows.map SolrDocument.id)) :=
  counts_tell (fun _ member => absurd member List.not_mem_nil) _

end Sessions

section Agreement

variable {w : Stores} {extraction : Extraction} {externalId : String}

/-- Both stores have nothing of the document, or what one record was written as. -/
def Stores.AgreesAt (w : Stores) (externalId : String) : Prop :=
  match w.documents.get externalId with
  | none => w.core.get (fullDocumentId source externalId) = none
  | some row => ∃ record : DocumentRecord, record.externalId = externalId ∧ record.stored = row ∧
      w.core.get (fullDocumentId source externalId) = some (SolrDocument.project calendarYear source record)

/-- The pass has something to push for the document. -/
def Stores.Pushes (w : Stores) (extraction : Extraction) (externalId : String) : Prop :=
  ∃ record ∈ extraction.emitted, record.externalId = externalId ∧
    (w.documents.get externalId).map DocumentRecord.checksum ≠ some record.checksum

/-- The last record that is pushed for a document. -/
def Stores.last (w : Stores) (extraction : Extraction) (externalId : String) : Option DocumentRecord :=
  (w.changed extraction.emitted).reverse.find? fun record => record.externalId = externalId

variable {source calendarYear collate}

theorem last_isSome_iff : (w.last extraction externalId).isSome ↔ w.Pushes extraction externalId := by
  unfold Stores.last Stores.Pushes Stores.changed
  rw [List.find?_isSome]
  simp only [List.mem_reverse, List.mem_filter, decide_eq_true_eq]
  constructor
  · rintro ⟨record, ⟨own, differs⟩, rfl⟩
    exact ⟨record, own, rfl, differs⟩
  · rintro ⟨record, own, rfl, differs⟩
    exact ⟨record, ⟨own, differs⟩, rfl⟩

theorem mem_missing_iff : externalId ∈ w.missing extraction ↔ (w.documents.get externalId).isSome ∧ externalId ∉ extraction.seen := by
  unfold Stores.missing
  rw [List.mem_filter, decide_eq_true_eq]
  refine and_congr_left fun _ => ?_
  rw [Option.isSome_iff_exists, List.mem_map]
  exact exists_congr fun row => Keyed.get_eq_some.symm

theorem documents_synced : (w.synced source calendarYear extraction).documents.get externalId =
    if externalId ∈ w.missing extraction then none
    else ((w.last extraction externalId).map DocumentRecord.stored).or (w.documents.get externalId) := by
  unfold Stores.synced Stores.push Stores.last
  rw [Keyed.get_filter_not_mem, Keyed.get_putAll, ← List.map_reverse, List.find?_map]
  rfl

theorem core_synced : (w.synced source calendarYear extraction).core.get (fullDocumentId source externalId) =
    if externalId ∈ w.missing extraction then none
    else ((w.last extraction externalId).map (SolrDocument.project calendarYear source)).or
      (w.core.get (fullDocumentId source externalId)) := by
  have inside : fullDocumentId source externalId ∈ (w.missing extraction).map (fullDocumentId source) ↔
      externalId ∈ w.missing extraction :=
    List.mem_map_of_injective fun _ _ same => fullDocumentId_inj.mp same
  have own (record : DocumentRecord) : decide ((SolrDocument.project calendarYear source record).id = fullDocumentId source externalId) =
      decide (record.externalId = externalId) :=
    decide_eq_decide.mpr fullDocumentId_inj
  unfold Stores.synced Stores.push Stores.last
  rw [Keyed.get_filter_not_mem, Keyed.get_putAll, ← List.map_reverse, List.find?_map]
  simp only [inside, Function.comp_def, own]

theorem isSome_synced : ((w.synced source calendarYear extraction).documents.get externalId).isSome ↔ externalId ∈ extraction.seen := by
  rw [documents_synced]
  split
  · rename_i absent
    simpa using (mem_missing_iff.mp absent).2
  · rename_i kept
    rw [Option.isSome_or, Option.isSome_map, Bool.or_eq_true, last_isSome_iff]
    constructor
    · rintro (⟨record, own, rfl, -⟩ | there)
      · exact List.mem_map_of_mem own
      · exact not_not.mp fun unseen => kept (mem_missing_iff.mpr ⟨there, unseen⟩)
    · intro seen
      obtain ⟨record, own, same⟩ := List.mem_map.mp seen
      cases found : w.documents.get externalId with
      | some row => exact .inr rfl
      | none => exact .inl ⟨record, own, same, by rw [found]; exact Option.some_ne_none _ |>.symm⟩

/-- A pass that comes to its end leaves the documents that were emitted. It makes the stores agree
on a document where they did before, where it pushes the document, and where it removes the row. -/
theorem pass_agrees_iff (federated massDeleteAllowed : Bool) (choices : Nat → Ending) {reached : Stores}
    (done : (indexSourceLocked source calendarYear federated massDeleteAllowed extraction).run.outcome
      (perform source collate) choices w = (.ok (), reached)) :
    (∀ externalId, (reached.documents.get externalId).isSome ↔ externalId ∈ extraction.seen) ∧
      ∀ externalId, reached.AgreesAt source calendarYear externalId ↔ w.AgreesAt source calendarYear externalId ∨
        w.Pushes extraction externalId ∨ (w.documents.get externalId).isSome ∧ externalId ∉ extraction.seen := by
  have same := outcome_ok (safe_indexSourceLocked federated massDeleteAllowed extraction) choices done
  subst same
  refine ⟨fun externalId => isSome_synced, fun externalId => ?_⟩
  rw [← mem_missing_iff, ← last_isSome_iff]
  unfold Stores.AgreesAt
  rw [documents_synced, core_synced]
  by_cases removed : externalId ∈ w.missing extraction
  · simp [removed]
  · simp only [removed, if_false, or_false]
    cases pushed : w.last extraction externalId with
    | none => simp
    | some record =>
      have own := List.find?_some pushed
      simp only [Option.map_some, Option.some_or, Option.isSome_some, or_true, iff_true]
      exact ⟨record, of_decide_eq_true own, rfl, rfl⟩

/-- A pass from empty stores leaves the one document that was emitted, and the stores agree on it. -/
theorem pass_agrees_on_note : ∃ reached : Stores,
    (∀ externalId, (reached.documents.get externalId).isSome ↔ externalId ∈ (⟨[sampleNote], none⟩ : Extraction).seen) ∧
      ∀ externalId, reached.AgreesAt "mail" (fun _ => none) externalId ↔
        Stores.empty.AgreesAt "mail" (fun _ => none) externalId ∨ Stores.empty.Pushes ⟨[sampleNote], none⟩ externalId ∨
          (Stores.empty.documents.get externalId).isSome ∧ externalId ∉ (⟨[sampleNote], none⟩ : Extraction).seen :=
  ⟨_, @pass_agrees_iff String _ "mail" (fun _ => none) id .empty ⟨[sampleNote], none⟩ false false (fun _ => {}) _ rfl⟩

end Agreement

section Rebuilding

variable {source calendarYear collate} {w : Stores}

/-- A rebuild writes the index only. -/
def IndexOnly (_ : Stores) : StoreOp → Prop
  | .addDocuments _ | .deleteBySource | .commit | .documentsBatch _ _ => True
  | _ => False

theorem documents_effect {op : StoreOp} (allowed : IndexOnly w op) : (effect w op).documents = w.documents := by
  cases op <;> first | rfl | exact allowed.elim

theorem documents_perform {op : StoreOp} {c : Ending} (allowed : IndexOnly w op) :
    (perform source collate c w op).1.documents = w.documents := by
  unfold perform
  split
  · exact documents_effect allowed
  · unfold spoiled
    split
    · rfl
    · rfl
    · split
      · exact documents_effect allowed
      · rfl

variable (source collate) in
def Stores.batch (w : Stores) (after : Option String) : List DocumentRecord :=
  page (fun row => collate (fullDocumentId source row.externalId)) reindexBatchSize w.documents.rows (after.map collate)

variable (source collate) in
/-- The batches that a rebuild reads, one after the other. -/
def Stores.batches (w : Stores) (fuel : Nat) (after : Option String) : List DocumentRecord :=
  (pages (fun row => collate (fullDocumentId source row.externalId)) reindexBatchSize w.documents.rows fuel (after.map collate)).flatten

theorem batches_succ (w : Stores) (fuel : Nat) (after : Option String) : w.batches source collate (fuel + 1) after =
    if (w.batch source collate after).isEmpty then []
    else if (w.batch source collate after).length < reindexBatchSize then w.batch source collate after
    else w.batch source collate after ++ w.batches source collate fuel
      ((w.batch source collate after).getLast?.map fun row => fullDocumentId source row.externalId) := by
  unfold Stores.batches
  rw [pages]
  change List.flatten (if (w.batch source collate after).isEmpty then []
    else if (w.batch source collate after).length < reindexBatchSize then [w.batch source collate after]
    else w.batch source collate after :: _) = _
  split
  · rfl
  · split
    · exact List.flatten_singleton
    · rw [List.flatten_cons, Option.map_map]
      rfl

theorem safe_rebuildFrom (fuel : Nat) (after : Option String) (total : Nat) :
    Prog.Safe (locked source collate IndexOnly)
      (Prog.onOk fun result w' =>
        w' = { w with core := w.core.putAll ((w.batches source collate fuel after).map (SolrDocument.project calendarYear source)) } ∧
          match result with
          | some n => n = total + (w.batches source collate fuel after).length
          | none => fuel ≤ (w.batches source collate fuel after).length)
      (rebuildFrom source calendarYear fuel after total).run w := by
  induction fuel generalizing w after total with
  | zero => exact safe_pure ⟨rfl, Nat.zero_le _⟩
  | succ fuel ih =>
    rw [batches_succ]
    refine safe_call trivial ?_
    change Prog.Safe _ _ (ExceptT.run (if (w.batch source collate after).isEmpty then _ else _)) w
    split
    · exact safe_pure ⟨rfl, rfl⟩
    · refine safe_call trivial ?_
      change Prog.Safe _ _ (ExceptT.run (if (w.batch source collate after).length < reindexBatchSize then _ else _)) _
      split
      · exact safe_pure ⟨rfl, rfl⟩
      · let last := (w.batch source collate after).getLast?.map fun row => fullDocumentId source row.externalId
        have later := ih (w := effect w (.addDocuments ((w.batch source collate after).map (SolrDocument.project calendarYear source))))
          last (total + (w.batch source collate after).length)
        refine later.mono ?_
        rintro _ w' done result rfl
        obtain ⟨rfl, count⟩ := done result rfl
        refine ⟨?_, ?_⟩
        · rw [List.map_append, Keyed.putAll_append]
          rfl
        · rw [List.length_append]
          cases result with
          | some n => exact Eq.trans count (Nat.add_assoc ..)
          | none =>
            have more : fuel ≤ (w.batches source collate fuel last).length := count
            have positive : 0 < reindexBatchSize := by decide
            change fuel + 1 ≤ _ + (w.batches source collate fuel last).length
            omega

theorem safe_rebuildSource (fuel : Nat) :
    Prog.Safe (locked source collate IndexOnly)
      (Prog.onOk fun result w' =>
        w' = { w with core := Keyed.empty.putAll ((w.batches source collate fuel none).map (SolrDocument.project calendarYear source)) } ∧
          match result with
          | some n => n = 0 + (w.batches source collate fuel none).length
          | none => fuel ≤ (w.batches source collate fuel none).length)
      (rebuildSource source calendarYear fuel).run w := by
  refine safe_call trivial (safe_call trivial (safe_bind (safe_rebuildFrom fuel none 0) ?_))
  rintro result _ ⟨rfl, count⟩
  exact safe_call trivial (safe_pure ⟨rfl, count⟩)

/-- A collation that tells the ids apart puts every row into one batch, once. -/
theorem batches_perm (ordered : Function.Injective collate) {fuel : Nat} (enough : w.documents.rows.length < fuel) :
    (w.batches source collate fuel none).Perm w.documents.rows := by
  have all : past (fun row : DocumentRecord => collate (fullDocumentId source row.externalId)) w.documents.rows none =
      w.documents.rows :=
    List.filter_eq_self.mpr fun _ _ => rfl
  have distinct : (w.documents.rows.map fun row => collate (fullDocumentId source row.externalId)).Nodup := by
    have ids := w.documents.distinct.map (f := fun externalId => collate (fullDocumentId source externalId))
      fun _ _ same => fullDocumentId_inj.mp (ordered same)
    rwa [List.map_map] at ids
  have perm := pages_perm distinct (by decide : 0 < reindexBatchSize) fuel none (by rw [all]; exact enough)
  rwa [all] at perm

/-- A rebuild that reports a count has put the documents of all rows into the index, once each, and
nothing else. With more batches to spare than there are rows it reports one, unless it fails; and it
never changes a row. -/
theorem rebuild_exact (ordered : Function.Injective collate) {fuel : Nat} (enough : w.documents.rows.length < fuel)
    (choices : Nat → Ending) {result : Except String (Option Nat)} {reached : Stores}
    (done : (rebuildSource source calendarYear fuel).run.outcome (perform source collate) choices w = (result, reached)) :
    reached.documents = w.documents ∧ ∀ count, result = .ok count → count = some w.documents.rows.length ∧
      reached.core.rows.Perm (w.documents.rows.map (SolrDocument.project calendarYear source)) := by
  have safe : Prog.Safe (locked source collate IndexOnly) _ (rebuildSource source calendarYear fuel).run w :=
    safe_rebuildSource fuel
  constructor
  · have kept := safe.keeps (fun w' => w'.documents = w.documents)
      (fun _ _ _ allowed same => (documents_perform allowed).trans same) choices (fun _ => trivial) rfl
    change (Prog.outcome (perform source collate) _ choices w).2.documents = _ at kept
    rwa [done] at kept
  · rintro count rfl
    obtain ⟨rfl, counted⟩ := outcome_ok safe choices done
    have perm : (w.batches source collate fuel none).Perm w.documents.rows := batches_perm ordered enough
    constructor
    · rw [perm.length_eq] at counted
      cases count with
      | none => exact absurd enough (Nat.not_lt.mpr counted)
      | some n => exact congrArg some (Eq.trans counted (Nat.zero_add _))
    · have distinct : ((w.batches source collate fuel none).map (SolrDocument.project calendarYear source)).map SolrDocument.id |>.Nodup := by
        have ids := (perm.map DocumentRecord.externalId).nodup_iff.mpr w.documents.distinct
        have full := ids.map (f := fullDocumentId source) fun _ _ same => fullDocumentId_inj.mp same
        rwa [List.map_map] at full ⊢
      have rows := Keyed.rows_putAll Keyed.empty distinct fun _ _ _ there => absurd there List.not_mem_nil
      rw [rows]
      exact perm.map _

theorem rebuild_of_note : ∃ reached : Stores, reached.documents = Keyed.empty.put sampleNote.stored ∧
    ∀ count, (.ok (some 1) : Except String (Option Nat)) = .ok count → count = some 1 ∧
      reached.core.rows.Perm [SolrDocument.project (fun _ => none) "mail" sampleNote.stored] :=
  ⟨_, @rebuild_exact String _ "mail" (fun _ => none) id ⟨Keyed.empty.put sampleNote.stored, .empty⟩ Function.injective_id 2
    (by decide : 1 < 2) (fun _ => {}) _ _ rfl⟩

end Rebuilding

end NixHomeServer.Search.Indexer
