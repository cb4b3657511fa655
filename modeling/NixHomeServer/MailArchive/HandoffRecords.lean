import NixHomeServer.MailArchive.HandoffRuns
import Mathlib.Data.List.Nodup

/-! Every handoff names a content that Paperless was given, while the temporary copies of the
consume directory are not read. -/
namespace NixHomeServer.MailArchive.Paperless

open NixHomeServer.Library

section Runs

variable {attachment : String → Attachment} {md5 : String → String}
variable {s : System} {n : Nat} {key : String} {b : Batch} {stage : Stage}

variable (md5) in
/-- Paperless was given the content: a call published it, it was put into the consume directory
otherwise, or a document had its checksum. -/
def System.Given (s : System) (sha256 : String) : Prop :=
  sha256 ∈ s.published ∨ sha256 ∈ s.arrived ∨ md5 sha256 ∈ s.checksums

instance (s : System) (sha256 : String) : Decidable (s.Given md5 sha256) :=
  inferInstanceAs (Decidable (_ ∨ _ ∨ _))

def System.Had (s : System) (documents : List Document) : Prop :=
  ∀ checksum ∈ documentChecksums documents, checksum ∈ s.checksums

variable (md5) in
def Batch.Informed (s : System) (b : Batch) : Prop :=
  (∀ documents ∈ b.documents, s.Had documents) ∧ ∀ entry ∈ b.checksums, s.Given md5 entry.1

variable (attachment md5) in
/-- What a call has read and is about to record is of contents that Paperless was given. -/
def Informed (s : System) : Place → Prop
  | .indexing _ documents => ∀ opened ∈ documents, s.Had opened
  | .next b => b.Informed md5 s
  | .item key b stage => b.Informed md5 s ∧
    match stage with
    | .linked _ _ => s.Given md5 (attachment key).sha256
    | .recording row _ => s.Given md5 row.sha256
    | _ => True
  | _ => True

variable (attachment md5) in
structure Recorded (s : System) : Prop where
  rows : ∀ r ∈ s.handoffs, s.Given md5 r.2.sha256
  files : ∀ f ∈ s.consume, f.temporary = false → s.Given md5 f.sha256
  documents : s.Had s.documents
  snapshot : ∀ entry ∈ s.snapshot, s.Had entry.2
  places : ∀ m, Informed attachment md5 s (s.place m)

structure Grows (s t : System) : Prop where
  published : ∀ h ∈ s.published, h ∈ t.published
  arrived : ∀ h ∈ s.arrived, h ∈ t.arrived
  checksums : ∀ c ∈ s.checksums, c ∈ t.checksums

variable {t : System} {p : Place}

theorem Grows.given (grows : Grows s t) {sha256 : String} (given : s.Given md5 sha256) : t.Given md5 sha256 :=
  given.imp (grows.published _) (Or.imp (grows.arrived _) (grows.checksums _))

theorem Grows.had (grows : Grows s t) {documents : List Document} (had : s.Had documents) : t.Had documents :=
  fun checksum member => grows.checksums _ (had checksum member)

theorem Grows.batch (grows : Grows s t) (informed : b.Informed md5 s) : b.Informed md5 t :=
  ⟨fun documents opened => grows.had (informed.1 documents opened),
    fun entry member => grows.given (informed.2 entry member)⟩

theorem Grows.informed (grows : Grows s t) (informed : Informed attachment md5 s p) : Informed attachment md5 t p := by
  cases p with
  | indexing keys documents => exact fun opened member => grows.had (informed opened member)
  | next b => exact grows.batch informed
  | item key b stage =>
    refine ⟨grows.batch informed.1, ?_⟩
    cases stage with
    | linked | recording => exact grows.given informed.2
    | _ => trivial
  | _ => trivial

theorem System.place_goto_cases (s : System) (n : Nat) (p : Place) (m : Nat) :
    (s.goto n p).place m = p ∨ (s.goto n p).place m = s.place m := by
  simp only [System.place, System.goto, List.getElem?_set]
  split
  · rename_i same
    subst same
    split
    · exact Or.inl rfl
    · rename_i out
      rw [List.getElem?_eq_none (by omega)]
      exact Or.inr rfl
  · exact Or.inr rfl

theorem Recorded.goto (recorded : Recorded attachment md5 s) (n : Nat) (informed : Informed attachment md5 s p) :
    Recorded attachment md5 (s.goto n p) where
  rows := recorded.rows
  files := recorded.files
  documents := recorded.documents
  snapshot := recorded.snapshot
  places m := by
    rcases s.place_goto_cases n p m with same | same <;> rw [same]
    · exact informed
    · exact recorded.places m

/-- A step outside the calls, of which only the directory, the database or the snapshot is known. -/
theorem Recorded.grow (recorded : Recorded attachment md5 s) (grows : Grows s t) (calls : t.calls = s.calls)
    (rows : ∀ r ∈ t.handoffs, r ∈ s.handoffs ∨ t.Given md5 r.2.sha256)
    (files : ∀ f ∈ t.consume, f.temporary = false → f ∈ s.consume ∨ t.Given md5 f.sha256)
    (documents : t.Had t.documents) (snapshot : ∀ entry ∈ t.snapshot, t.Had entry.2) :
    Recorded attachment md5 t where
  rows r member := by
    rcases rows r member with old | new
    · exact grows.given (recorded.rows r old)
    · exact new
  files f member lasting := by
    rcases files f member lasting with old | new
    · exact grows.given (recorded.files f old lasting)
    · exact new
  documents := documents
  snapshot := snapshot
  places m := by
    have same : t.place m = s.place m := by simp only [System.place, calls]
    rw [same]
    exact grows.informed (recorded.places m)

/-- The directory changes, and no file stays or comes that Paperless was not given. -/
theorem Recorded.consume (recorded : Recorded attachment md5 s) (consume : List ConsumeFile)
    (files : ∀ f ∈ consume, f.temporary = false → f ∈ s.consume ∨ s.Given md5 f.sha256) :
    Recorded attachment md5 { s with consume := consume } :=
  recorded.grow ⟨fun _ h => h, fun _ h => h, fun _ h => h⟩ rfl (fun _ member => Or.inl member) files
    recorded.documents recorded.snapshot

theorem Grows.publish (s : System) (name sha256 : String) : Grows s { s with
    consume := { name := name, sha256 := sha256 } :: s.consume, published := sha256 :: s.published } :=
  ⟨fun _ h => List.mem_cons_of_mem _ h, fun _ h => h, fun _ h => h⟩

theorem Recorded.publish (recorded : Recorded attachment md5 s) (name sha256 : String) :
    Recorded attachment md5 { s with
      consume := { name := name, sha256 := sha256 } :: s.consume, published := sha256 :: s.published } := by
  refine recorded.grow (.publish s name sha256) rfl (fun _ member => Or.inl member) (fun f member _ => ?_)
    recorded.documents recorded.snapshot
  rcases List.mem_cons.mp member with rfl | old
  · exact Or.inr (Or.inl List.mem_cons_self)
  · exact Or.inl old

theorem Recorded.relock (recorded : Recorded attachment md5 s) (locks : String → Option Nat) :
    Recorded attachment md5 { s with locks := locks } :=
  recorded.grow ⟨fun _ h => h, fun _ h => h, fun _ h => h⟩ rfl (fun _ member => Or.inl member)
    (fun _ member _ => Or.inl member) recorded.documents recorded.snapshot

theorem Recorded.unlink (recorded : Recorded attachment md5 s) (name : String) :
    Recorded attachment md5 (s.unlink name) :=
  recorded.consume _ fun _ member _ => Or.inl ((List.mem_filter.mp member).1)

/-- A temporary copy is rewritten. -/
theorem Recorded.rewrite (recorded : Recorded attachment md5 s) (tmp sha256 : String) :
    Recorded attachment md5 { s with consume := s.consume.map fun f : ConsumeFile =>
      if f.name = tmp ∧ f.temporary then { f with sha256 := sha256 } else f } := by
  refine recorded.consume _ fun f member lasting => ?_
  obtain ⟨old, there, rfl⟩ := List.mem_map.mp member
  split at lasting
  · rename_i temporary
    cases temporary.2.symm.trans lasting
  · rename_i kept
    rw [if_neg kept]
    exact Or.inl there

theorem Batch.Informed.sent (informed : b.Informed md5 s) (key : String) {row : Handoff}
    (given : s.Given md5 row.sha256) : (b.sent key row).Informed md5 s := by
  refine ⟨informed.1, fun entry member => ?_⟩
  rcases List.mem_cons.mp member with rfl | old
  · exact given
  · exact informed.2 entry old

theorem latest_cases {α : Type} (key : α → Nat) (best : Option α) (rows : List α) {row : α}
    (found : rows.foldl (latest key) best = some row) : best = some row ∨ row ∈ rows := by
  induction rows generalizing best with
  | nil => exact Or.inl found
  | cons first rest ih =>
    rcases ih _ found with now | later
    · have chosen : latest key best first = best ∨ latest key best first = some first := by
        unfold latest
        split
        · exact Or.inr rfl
        · split
          · exact Or.inr rfl
          · exact Or.inl rfl
      rcases chosen with old | new
      · exact Or.inl (old.symm.trans now)
      · cases new.symm.trans now
        exact Or.inr List.mem_cons_self
    · exact Or.inr (List.mem_cons_of_mem _ later)

theorem bySha_mem {rows : List (String × Handoff)} {sha256 : String} {row : Handoff}
    (found : loadAttachmentPaperlessHandoffBySha rows sha256 = some row) :
    row.sha256 = sha256 ∧ ∃ r ∈ rows, r.2 = row := by
  rcases latest_cases _ none _ found with impossible | member
  · cases impossible
  · obtain ⟨among, same⟩ := List.mem_filter.mp member
    obtain ⟨r, there, rfl⟩ := List.mem_map.mp among
    exact ⟨beq_iff_eq.mp same, r, there, rfl⟩

theorem byChecksum_mem {documents : Option (List Document)} {checksum : String} {d : Document}
    (found : loadPaperlessDocumentByChecksum documents checksum = some d) :
    ∃ opened ∈ documents, checksum ∈ documentChecksums opened := by
  cases documents with
  | none => cases found
  | some opened =>
    rcases latest_cases _ none _ found with impossible | member
    · cases impossible
    · obtain ⟨there, matched⟩ := List.mem_filter.mp member
      refine ⟨opened, rfl, List.mem_flatMap.mpr ⟨d, there, ?_⟩⟩
      simp only [Bool.and_eq_true, Bool.or_eq_true, beq_iff_eq] at matched
      rcases matched.2 with same | same
      · exact same ▸ List.mem_cons_self
      · rw [same]
        exact List.mem_cons_of_mem _ List.mem_cons_self

theorem consumeFilename_mem {sha256 name : String} (found : b.consumeFilename? sha256 = some name) :
    ∃ entry ∈ b.checksums, entry.1 = sha256 := by
  obtain ⟨entry, there, _⟩ := Option.map_eq_some_iff.mp found
  have same := List.find?_some there
  exact ⟨entry, List.mem_of_find?_eq_some there, beq_iff_eq.mp same⟩

theorem Recorded.record (recorded : Recorded attachment md5 s) (key : String) {row : Handoff}
    (given : s.Given md5 row.sha256) :
    Recorded attachment md5 { s with handoffs := recordAttachmentPaperlessHandoff s.handoffs key row } := by
  refine recorded.grow ⟨fun _ h => h, fun _ h => h, fun _ h => h⟩ rfl (fun r member => ?_)
    (fun _ member _ => Or.inl member) recorded.documents recorded.snapshot
  rcases List.mem_cons.mp member with rfl | old
  · exact Or.inr given
  · exact Or.inl (List.mem_filter.mp old).1

theorem Recorded.workItem (recorded : Recorded attachment md5 s) (here : s.place n = .item key b stage)
    (input : Input) : Recorded attachment md5 (s.workItem attachment md5 n key b input stage) := by
  have informed := recorded.places n
  rw [here] at informed
  obtain ⟨batch, own⟩ := informed
  cases stage with
  | locking tries =>
    cases tries with
    | zero => exact recorded.goto n batch
    | succ tries =>
      simp only [System.workItem]
      split
      · exact (recorded.relock _).goto n ⟨batch, trivial⟩
      · split
        · exact recorded.goto n ⟨batch, trivial⟩
        · exact recorded.goto n batch
  | unlinking tries => exact (recorded.relock _).goto n ⟨batch, trivial⟩
  | syncing | loading | staging => exact recorded.goto n ⟨batch, trivial⟩
  | reserving => exact recorded.goto n ⟨batch, trivial⟩
  | byKey =>
    simp only [System.workItem]
    split <;> exact recorded.goto n ⟨batch, trivial⟩
  | bySha =>
    simp only [System.workItem]
    split
    · rename_i row found
      obtain ⟨same, r, member, rfl⟩ := bySha_mem found
      have given : s.Given md5 (attachment key).sha256 := same ▸ recorded.rows r member
      exact recorded.goto n ⟨batch, given⟩
    · exact recorded.goto n ⟨batch, trivial⟩
  | payload =>
    simp only [System.workItem]
    split
    · rename_i name found
      obtain ⟨entry, member, same⟩ := consumeFilename_mem found
      have given : s.Given md5 (attachment key).sha256 := same ▸ batch.2 entry member
      exact recorded.goto n ⟨batch, given⟩
    · exact recorded.goto n ⟨batch, trivial⟩
  | checksum =>
    simp only [System.workItem]
    split
    · rename_i d found
      obtain ⟨opened, member, listed⟩ := byChecksum_mem found
      exact recorded.goto n ⟨batch, Or.inr (Or.inr (batch.1 opened member _ listed))⟩
    · exact recorded.goto n ⟨batch, trivial⟩
  | linking target =>
    simp only [System.workItem]
    split
    · exact recorded.goto n ⟨batch, trivial⟩
    · split
      · exact recorded.goto n ⟨batch, trivial⟩
      · have after := recorded.publish target.name (attachment key).sha256
        exact after.goto n ⟨(Grows.publish s target.name _).batch batch, Or.inl List.mem_cons_self⟩
  | across target =>
    simp only [System.workItem]
    split
    · split
      · exact recorded.goto n ⟨batch, trivial⟩
      · rename_i tmp sha256 _
        have after := recorded.consume ({ name := tmp, sha256 := sha256, temporary := true } :: s.consume)
          fun f member lasting => by
            rcases List.mem_cons.mp member with rfl | old
            · cases lasting
            · exact Or.inl old
        exact after.goto n ⟨batch, trivial⟩
    · exact recorded
  | copying target tmp =>
    simp only [System.workItem]
    split
    · exact recorded.rewrite tmp _
    · exact (recorded.rewrite tmp _).goto n ⟨batch, trivial⟩
  | relinking target tmp =>
    simp only [System.workItem]
    split
    · split
      · exact (recorded.unlink tmp).goto n ⟨batch, trivial⟩
      · exact (recorded.unlink tmp).goto n ⟨batch, trivial⟩
    · split
      · have after := recorded.publish target.name (attachment key).sha256
        exact after.goto n ⟨(Grows.publish s target.name _).batch batch, Or.inl List.mem_cons_self⟩
      · exact recorded.goto n ⟨batch, trivial⟩
  | linked target tmp =>
    have after := recorded.consume (s.consume.filter fun f => some f.name != tmp)
      fun f member _ => Or.inl (List.mem_filter.mp member).1
    exact after.goto n ⟨batch, own⟩
  | recording row sent =>
    have after := recorded.record key own
    cases sent with
    | true => exact after.goto n ⟨batch.sent key own, trivial⟩
    | false => exact after.goto n ⟨batch, trivial⟩
  | releasing abort => cases abort <;> exact (recorded.relock _).goto n (by first | exact batch | trivial)

theorem Recorded.failItem (recorded : Recorded attachment md5 s) (here : s.place n = .item key b stage) :
    Recorded attachment md5 (s.failItem attachment n key b stage) := by
  have informed := recorded.places n
  rw [here] at informed
  obtain ⟨batch, own⟩ := informed
  cases stage with
  | locking | unlinking | syncing => exact recorded.goto n batch
  | reserving => exact recorded
  | copying _ tmp | relinking _ tmp => exact (recorded.unlink tmp).goto n ⟨batch, trivial⟩
  | releasing abort => cases abort <;> exact recorded.goto n (by first | exact batch | trivial)
  | _ => exact recorded.goto n ⟨batch, trivial⟩

/-- The calls' own reads of the snapshot and of the directory give them only what Paperless was given. -/
theorem Recorded.work (recorded : Recorded attachment md5 s) (input : Input)
    (met : Meets attachment md5 s (.work n input)) : Recorded attachment md5 (s.work attachment md5 n input) := by
  unfold System.work
  have informed := recorded.places n
  cases here : s.place n with
  | idle | returned => exact recorded
  | opening keys =>
    simp only [openPaperlessDatabase]
    split
    · exact recorded.goto n trivial
    · rename_i opened found
      refine recorded.goto n fun documents member => ?_
      split at found
      · split at found
        · cases found
        · rename_i modified taken snapshot
          split at found
          · cases found
          · cases found
            cases member
            exact recorded.snapshot _ snapshot
      · cases found
        cases member
  | indexing keys documents =>
    simp only [Meets, here] at met
    rw [here] at informed
    refine recorded.goto n ⟨informed, fun entry member => ?_⟩
    obtain ⟨f, listed, rfl⟩ := List.mem_map.mp member
    have there := (List.mem_filter.mp listed).1
    exact recorded.files f there (met f there)
  | next b =>
    rw [here] at informed
    simp only []
    split
    · exact recorded.goto n trivial
    · split
      · exact recorded.goto n informed
      · exact recorded.goto n ⟨informed, trivial⟩
  | item key b stage => exact recorded.workItem here input

theorem Recorded.fail (recorded : Recorded attachment md5 s) (n : Nat) :
    Recorded attachment md5 (s.fail attachment n) := by
  unfold System.fail
  cases here : s.place n with
  | idle | returned | next => exact recorded
  | opening | indexing => exact recorded.goto n trivial
  | item key b stage => exact recorded.failItem here

theorem Recorded.step (recorded : Recorded attachment md5 s) (event : Event)
    (met : Meets attachment md5 s event) : Recorded attachment md5 (s.step attachment md5 event) := by
  cases event with
  | call keys =>
    refine ⟨recorded.rows, recorded.files, recorded.documents, recorded.snapshot, fun m => ?_⟩
    rw [s.place_call]
    by_cases same : m = s.calls.length
    · subst same
      rw [Function.update_self]
      trivial
    · rw [Function.update_of_ne same]
      exact recorded.places m
  | work n input => exact recorded.work input met
  | fail n => exact recorded.fail n
  | crash n => exact recorded.goto n trivial
  | tick seconds =>
    exact recorded.grow ⟨fun _ h => h, fun _ h => h, fun _ h => h⟩ rfl (fun _ member => Or.inl member)
      (fun _ member _ => Or.inl member) recorded.documents recorded.snapshot
  | snapshot =>
    refine recorded.grow ⟨fun _ h => h, fun _ h => h, fun _ h => h⟩ rfl (fun _ member => Or.inl member)
      (fun _ member _ => Or.inl member) recorded.documents fun entry taken => ?_
    cases taken
    exact recorded.documents
  | take name => exact recorded.unlink name
  | arrive name sha256 =>
    simp only [System.step]
    split
    · exact recorded
    · refine recorded.grow ⟨fun _ h => h, fun _ h => List.mem_cons_of_mem _ h, fun _ h => h⟩ rfl
        (fun _ member => Or.inl member) (fun f member _ => ?_) recorded.documents recorded.snapshot
      rcases List.mem_cons.mp member with rfl | old
      · exact Or.inr (Or.inr (Or.inl List.mem_cons_self))
      · exact Or.inl old
  | store documents =>
    have grows : Grows s (s.step attachment md5 (.store documents)) :=
      ⟨fun _ h => h, fun _ h => h, fun _ h => List.mem_append_right _ h⟩
    exact recorded.grow grows rfl (fun _ member => Or.inl member) (fun _ member _ => Or.inl member)
      (fun _ member => List.mem_append_left _ member) fun entry taken => grows.had (recorded.snapshot entry taken)

theorem System.Safe.initial (configured : Bool) :
    System.Safe attachment md5 { configured := configured } where
  once := List.nodup_nil
  held _ _ holds := nomatch holds
  alone _ _ _ holds := nomatch holds
  apart _ _ _ _ publishing := nomatch publishing
  unseen _ := trivial

theorem Recorded.initial (configured : Bool) : Recorded attachment md5 { configured := configured } where
  rows _ member := nomatch member
  files _ member := nomatch member
  documents _ member := nomatch member
  snapshot _ member := nomatch member
  places _ := trivial

end Runs

section Inputs

def steps (n count : Nat) : List Event := List.replicate count (.work n .step)

def stored : List Document := [{ id := 1, checksum := "content" }]

/-- Two calls for different keys check before either publishes. -/
def overlapping : List Event :=
  [.snapshot, .call ["a"], .call ["b"]] ++ steps 0 10 ++ steps 1 10 ++ steps 0 5 ++ steps 1 5

end Inputs

end NixHomeServer.MailArchive.Paperless
