import NixHomeServer.Browsertrix.Recovery

/-! Durable publication, from any queue and catalogue that agree: with intents of any kind pending,
with crashes between all steps and with every step failing. -/
namespace NixHomeServer.Browsertrix

open NixHomeServer.Library

/-- A stopped worker over a queue and a catalogue that an earlier version may have left. -/
structure Upgraded (sha256 : Content → String) (s : System) : Prop where
  stopped : s.pc = .stopped
  rows : DbOk s.db
  catalogued : Catalogued sha256 s

section Runs

variable (sha256 : Content → String)

theorem Upgraded.durable {start : System} (upgraded : Upgraded sha256 start) : Durable sha256 start := by
  refine ⟨⟨upgraded.rows, ?_⟩, upgraded.catalogued, ?_⟩
  · rw [upgraded.stopped]
    trivial
  · rw [upgraded.stopped]
    trivial

theorem Upgraded.run {start : System} (upgraded : Upgraded sha256 start) (events : List Event) :
    Durable sha256 (Runs.run (System.step sha256) start events) :=
  Runs.run_invariant (System.step sha256) (Durable sha256) (fun _ event durable => durable.step sha256 event)
    start events (upgraded.durable sha256)

/-- What a run that spares a dead intent leaves of it. -/
theorem dead_run {s : System} {a : Nat} (durable : Durable sha256 s) (dead : Dead s.db a) (later : List Event)
    (spares : Runs.Along (System.step sha256) (Spares sha256 a) s later) :
    let t := Runs.run (System.step sha256) s later
    (s.db.archives a = none → t.db.archives a = none) ∧
      ∀ r name, name.archive = a → t.store.files r name = s.store.files r name := by
  have kept := Runs.run_invariant_along (System.step sha256) (Spares sha256 a)
    (fun t => Durable sha256 t ∧ Dead t.db a ∧ (s.db.archives a = none → t.db.archives a = none) ∧
      ∀ r name, name.archive = a → t.store.files r name = s.store.files r name)
    (fun t event spares before => by
      obtain ⟨durable, dead, rows, files⟩ := before
      obtain ⟨row, own⟩ := dead.silent sha256 durable event spares
      exact ⟨durable.step sha256 event, dead.step sha256 durable event spares, fun absent => row (rows absent),
        fun r name same => (own r name same).trans (files r name same)⟩)
    s later spares
  exact (kept ⟨durable, dead, fun absent => absent, fun _ _ _ => rfl⟩).2.2

/-- In every run from a stopped worker: a catalogue row has its file with its digest in the root of its
visibility; no destination or retained file is overwritten or removed; a pending intent stays so until it
is finalized or its job's discard invalidates it, and an uninterrupted recovery finalizes it where it can
publish it and the intents it takes up before; a finalization keeps the document that is there and
can be repeated; and an intent whose job was discarded before it was taken up brings no row and no file. -/
theorem durable_publication (start : System) (upgraded : Upgraded sha256 start) (events : List Event) :
    let s := Runs.run (System.step sha256) start events
    (∀ a row, s.db.archives a = some row → ∃ content,
      s.store.files (root row.document) (.payload a row.document.archiveFile) = some content ∧
        sha256 content = row.sha256) ∧
    (∀ event r name content, name.final = true → s.store.files r name = some content →
      (s.step sha256 event).store.files r name = some content) ∧
    (∀ event a intent, s.db.intents.get a = some intent → intent.completed = .pending →
      (s.step sha256 event).db.intents.get a = some intent ∨
        Published (s.step sha256 event).db a intent) ∧
    (∀ now number early a late, s.pc = .stopped → pendingIntentIds s.db = early ++ a :: late →
      (∀ c ∈ early ++ [a], Publishable sha256 s c) → (∀ r c, s.store.files r (.retained c number) = none) →
      ∃ n intent, s.db.intents.get a = some intent ∧ Published
        (Runs.run (System.step sha256) s (.start :: List.replicate n (.work now (.random number)))).db a intent) ∧
    (∀ db db' a intent, finalizeIntent db a intent = some db' →
      ∃ row, db'.archives a = some row ∧ row.pages = intent.report.pages ∧
        row.resources = intent.report.resources ∧ row.coverage = intent.coverage ∧
        (∀ old, db.archives a = some old → row.document = old.document) ∧
        (∃ again, finalizeIntent db' a intent = some again ∧ again.archives = db'.archives) ∧
        ∀ document, document.createdBy = row.owner → document.sha256 = row.sha256 →
          ∃ again, finalizeIntent (saveArchiveMetadata db' a document) a intent = some again ∧
            again.archives a = some { row with document := document }) ∧
    (∀ a later, Dead s.db a → Runs.Along (System.step sha256) (Spares sha256 a) s later →
      let t := Runs.run (System.step sha256) s later
      (s.db.archives a = none → t.db.archives a = none) ∧
        ∀ r name, name.archive = a → t.store.files r name = s.store.files r name) := by
  intro s
  have durable : Durable sha256 s := upgraded.run sha256 events
  refine ⟨durable.catalogued.files, fun event _ _ _ final found => files_kept sha256 s event final found, ?_,
    fun now number early a late stopped listed publishable unretained =>
      recover_finalizes durable stopped listed publishable unretained,
    fun db db' a intent result => finalize_again result,
    fun a later dead spares => dead_run sha256 durable dead later spares⟩
  intro event a intent found _
  rcases intent_kept sha256 durable event found with same | ⟨_, finalized, _⟩ | ⟨_, invalidated, refused⟩
  · exact Or.inl same
  · exact Or.inr (Or.inl finalized)
  · exact Or.inr (Or.inr ⟨invalidated, refused⟩)

end Runs

section Inputs

def copied : Content → String := fun _ => "0123456789abcdef0123456789abcdef0123456789abcdef0123456789abcdef"

def left (source : String) (job : Option Nat) : PublicationIntent where
  archive := { createdBy := "ann", archiveFile := "a.example 2024-01-01", archiveBytes := 1, sha256 := copied [] }
  report := { sha256 := copied [] }
  source := source
  jobId := job
  finalStatus := .completed

/-- Two pending intents without jobs; the source of the first one is gone. -/
def orphans : System where
  db := { intents := (Table.empty.insert (left "gone" none)).insert (left "kept" none) }
  store := { sources := fun path => if path = "kept" then some [1] else none }

/-- A pending intent of a cancelled job. -/
def cancelledEarlier : System where
  db := {
    jobs := Table.empty.insert {
      createdAt := 0, createdBy := "ann", status := .cancelled, request := { url := "https://a.example/" }
      runtime := { control := some .discard } }
    intents := Table.empty.insert (left "kept" (some 1)) }
  store := { sources := fun path => if path = "kept" then some [1] else none }

theorem left_catalogued {s : System} (archives : s.db.archives = fun _ => none)
    (intents : ∀ a intent, s.db.intents.get a = some intent → ∃ source job, intent = left source job ∧
      ∀ id, job = some id → Holds s.db id fun job => job.createdBy = "ann") : Catalogued copied s where
  files a row found := by
    rw [archives] at found
    cases found
  agrees a intent row _ found := by
    rw [archives] at found
    cases found
  drawn a row found := by
    rw [archives] at found
    cases found
  owners a intent found id owner := by
    obtain ⟨source, job, rfl, own⟩ := intents a intent found
    exact own id owner

theorem orphans_upgraded : Upgraded copied orphans := by
  have intents : ∀ a intent, orphans.db.intents.get a = some intent → ∃ source, intent = left source none := by
    intro a intent found
    rcases Table.get_insert_cases _ _ _ _ found with old | ⟨_, rfl⟩
    · rcases Table.get_insert_cases _ _ _ _ old with older | ⟨_, rfl⟩
      · cases older
      · exact ⟨_, rfl⟩
    · exact ⟨_, rfl⟩
  refine ⟨rfl, ⟨?_, ?_, ?_⟩, left_catalogued rfl ?_⟩
  · intro id job found
    cases found
  · intro a intent found
    obtain ⟨source, rfl⟩ := intents a intent found
    exact Or.inl rfl
  · intro a intent found id owner
    obtain ⟨source, rfl⟩ := intents a intent found
    cases owner
  · intro a intent found
    obtain ⟨source, rfl⟩ := intents a intent found
    exact ⟨source, none, rfl, fun id impossible => by cases impossible⟩

theorem cancelledEarlier_upgraded : Upgraded copied cancelledEarlier := by
  have intents : ∀ a intent, cancelledEarlier.db.intents.get a = some intent → intent = left "kept" (some 1) := by
    intro a intent found
    rcases Table.get_insert_cases _ _ _ _ found with old | ⟨_, rfl⟩
    · cases old
    · rfl
  refine ⟨rfl, ⟨?_, ?_, ?_⟩, left_catalogued rfl ?_⟩
  · intro id job found
    rcases Table.get_insert_cases _ _ _ _ found with old | ⟨_, rfl⟩
    · cases old
    · exact ⟨⟨fun _ => Or.inr rfl, fun _ => rfl⟩, fun _ => rfl, fun _ => rfl⟩
  · intro a intent found
    rw [intents a intent found]
    exact Or.inl rfl
  · intro a intent found id owner
    rw [intents a intent found] at owner
    cases owner
    decide
  · intro a intent found
    refine ⟨"kept", some 1, intents a intent found, fun id same => ?_⟩
    cases same
    exact .read (Table.get_insert_self _ _) rfl

/-- The first of two pending intents loses its source only after the recovery. -/
theorem recovery_of_the_rest :
    let s := Runs.run (System.step copied) orphans [.source "gone" (some [1]), .start, .work 0 .step, .crash none]
    ∃ n intent, s.db.intents.get 2 = some intent ∧ Published
      (Runs.run (System.step copied) s (.start :: List.replicate n (.work 0 (.random 0)))).db 2 intent := by
  have all := (durable_publication copied orphans orphans_upgraded
    [.source "gone" (some [1]), .start, .work 0 .step, .crash none]).2.2.2.1 0 0 [1] 2 [] (by decide) (by decide)
  refine all (fun c member => ?_) (fun r c => rfl)
  rcases List.mem_cons.mp member with rfl | member
  · exact ⟨left "gone" none, by decide, rfl, by decide, Or.inr ⟨[1], by decide, by decide⟩⟩
  · cases List.mem_singleton.mp member
    exact ⟨left "kept" none, by decide, rfl, by decide, Or.inr ⟨[1], by decide, by decide⟩⟩

/-- The recovery of an intent that is not the first ends with the error of the first, and the intent
of a cancelled job is published after the job's row was deleted. -/
theorem recovery_stops_and_publishes :
    (Upgraded copied orphans ∧ orphans.db.intents.get 2 = some (left "kept" none) ∧
      orphans.store.sources "kept" = some [1] ∧ copied [1] = (left "kept" none).archive.sha256 ∧
      let t := Runs.run (System.step copied) orphans (.start :: List.replicate 6 (.work 0 (.random 0)))
      t.pc = .stopped ∧ t.db.intents.get 2 = some (left "kept" none)) ∧
    (Upgraded copied cancelledEarlier ∧ Dead cancelledEarlier.db 1 ∧ cancelledEarlier.db.archives 1 = none ∧
      let t := Runs.run (System.step copied) cancelledEarlier
        (.delete 1 "ann" :: .start :: List.replicate 12 (.work 0 (.random 0)))
      t.db.archives 1 ≠ none) := by
  refine ⟨⟨orphans_upgraded, rfl, rfl, rfl, by decide +kernel, by decide +kernel⟩,
    ⟨cancelledEarlier_upgraded, ?_, rfl, by decide +kernel⟩⟩
  exact ⟨left "kept" (some 1), rfl, Or.inr ⟨rfl, 1, _, rfl, rfl, rfl⟩⟩

end Inputs

end NixHomeServer.Browsertrix
