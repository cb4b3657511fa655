import NixHomeServer.Browsertrix.Durable

/-! What every step of the system keeps of the files and the catalogue, and what becomes of an
intent: it stays pending until it is finalized or its job's discard invalidates it. -/
namespace NixHomeServer.Browsertrix

open NixHomeServer.Library

structure Durable (sha256 : Content → String) (s : System) : Prop where
  ok : SystemOk s
  catalogued : Catalogued sha256 s
  staged : Staged sha256 s.store s.pc

section Steps

variable (sha256 : Content → String) {s : System}

/-- A step of a placement leaves the database. -/
theorem work_placing {step : Placing} {a : Nat} {intent : PublicationIntent} {k : Return}
    (place : s.pc = .place step a intent k) (staged : Staged sha256 s.store s.pc) (now : Nat) (input : Input) :
    (work sha256 s now input).db = s.db ∧ Moves s.store a intent.archive (work sha256 s now input).store ∧
      Staged sha256 (work sha256 s now input).store (work sha256 s now input).pc := by
  have moves : Moves s.store a intent.archive
      (Browsertrix.place sha256 s.store a intent.archive intent.source input.number input.content step).1 :=
    place_moves step
  rw [place] at staged
  simp only [work, place]
  cases result : Browsertrix.place sha256 s.store a intent.archive intent.source input.number input.content step with
  | mk store placed =>
    rw [result] at moves
    obtain ⟨next, done⟩ := place_staged sha256 (k := k) staged result
    cases placed with
    | next step => exact ⟨rfl, moves, next step rfl⟩
    | done => exact ⟨rfl, moves, done rfl⟩
    | failed => exact ⟨rfl, moves, k.failed_quiet sha256 store⟩

theorem System.spilled_moves (torn : Option Content) :
    (s.spilled torn).store = s.store ∨ ∃ a archive, Moves s.store a archive (s.spilled torn).store := by
  unfold System.spilled
  split
  · exact Or.inr ⟨_, _, spill_moves _⟩
  · exact Or.inl rfl

/-- Nothing that stands at a destination or a retained name is overwritten or removed. -/
theorem files_kept (s : System) (event : Event) {r : Root} {name : FileName} {content : Content}
    (final : name.final = true) (found : s.store.files r name = some content) :
    (s.step sha256 event).store.files r name = some content := by
  have spilled : ∀ torn, (s.spilled torn).store.files r name = some content := by
    intro torn
    rcases s.spilled_moves torn with same | ⟨a, archive, moves⟩
    · rw [same]
      exact found
    · exact moves.kept final found
  cases event with
  | work now input =>
    by_cases placing : ∃ step a intent k, s.pc = .place step a intent k
    · obtain ⟨step, a, intent, k, place⟩ := placing
      simp only [System.step, work, place]
      have moves : Moves s.store a intent.archive
          (Browsertrix.place sha256 s.store a intent.archive intent.source input.number input.content step).1 :=
        place_moves step
      split <;> rename_i result <;> rw [result] at moves <;> exact moves.kept final found
    · push Not at placing
      rw [System.step, (work_silent sha256 s now input placing).store]
      exact found
  | fail torn => exact spilled torn
  | crash torn => exact spilled torn
  | outside at_root archive file content' =>
    simp only [System.step]
    split
    · rename_i free
      rw [Store.put_of_ne]
      · exact found
      · rintro ⟨rfl, rfl⟩
        cases free.symm.trans found
    · exact found
  | edit id document =>
    simp only [System.step]
    split <;> exact found
  | start =>
    simp only [System.step]
    split <;> exact found
  | _ => exact found

/-- Requests leave the catalogue, but for an edit. -/
theorem step_archives (event : Event) (user : ∀ now input, event ≠ .work now input)
    (other : ∀ id document, event ≠ .edit id document) :
    (s.step sha256 event).db.archives = s.db.archives := by
  cases event with
  | work now input => exact absurd rfl (user now input)
  | edit id document => exact absurd rfl (other id document)
  | create now owner request => exact (createUniqueCapture_inserted s.db now owner request).archives
  | batch now owner requests => exact (queueBatch_inserted s.db now owner requests).archives
  | control id owner stop =>
    simp only [System.step, requestControl]
    repeat' split
    all_goals rfl
  | resume id owner ext =>
    simp only [System.step, Browsertrix.resume]
    repeat' split
    all_goals rfl
  | cancel id =>
    simp only [System.step, requestCancel]
    repeat' split
    all_goals rfl
  | delete id owner =>
    simp only [System.step, deleteJob]
    repeat' split
    all_goals rfl
  | start =>
    simp only [System.step]
    split <;> rfl
  | fail torn | crash torn => simp only [System.step, System.spilled_db]
  | outside at_root archive name content =>
    simp only [System.step]
    split <;> rfl
  | _ => rfl

theorem Durable.step (durable : Durable sha256 s) (event : Event) : Durable sha256 (s.step sha256 event) := by
  have ok := step_ok sha256 durable.ok event
  by_cases user : ∃ now input, event = .work now input
  · obtain ⟨now, input, rfl⟩ := user
    by_cases placing : ∃ step a intent k, s.pc = .place step a intent k
    · obtain ⟨step, a, intent, k, place⟩ := placing
      obtain ⟨db, moves, staged⟩ := work_placing sha256 place durable.staged now input
      exact ⟨ok, durable.catalogued.moves sha256 db moves, staged⟩
    · push Not at placing
      have silent := work_silent sha256 s now input placing
      exact ⟨ok, durable.catalogued.publishes sha256 (work_publishes sha256 s now input)
        (work_stepped sha256 durable.ok now input).works durable.staged durable.ok silent.store, silent.quiet _⟩
  push Not at user
  have requests : Requests s.db (s.step sha256 event).db := by
    rcases step_cases (s := s) sha256 event with ⟨now, input, same⟩ | ⟨requests, _⟩
    · exact absurd same (user now input)
    · exact requests
  have kept : ∀ r name content, name.final = true → s.store.files r name = some content →
      (s.step sha256 event).store.files r name = some content :=
    fun r name content final found => files_kept sha256 s event final found
  by_cases editing : ∃ id document, event = .edit id document
  · obtain ⟨id, document, rfl⟩ := editing
    cases found : s.db.archives id with
    | none =>
      have same : s.step sha256 (.edit id document) = s := by simp only [System.step, found]
      rw [same]
      exact durable
    | some row =>
      have same : s.step sha256 (.edit id document) = { s with db := saveArchiveMetadata s.db id { document with
          createdBy := row.owner, sha256 := row.sha256
          archiveFile := row.document.archiveFile, visibility := row.document.visibility } } := by
        simp only [System.step, found]
      rw [same] at ok ⊢
      refine ⟨ok, durable.catalogued.saved sha256 found ?_ ?_ ?_ ?_ rfl rfl, durable.staged⟩ <;> rfl
  push Not at editing
  refine ⟨ok, durable.catalogued.requests sha256 durable.ok.db requests
    (step_archives sha256 event user editing) kept, ?_⟩
  cases event with
  | fail torn => exact Pc.failed_quiet sha256 _ _
  | crash torn => trivial
  | start =>
    simp only [System.step]
    split
    · trivial
    · exact durable.staged
  | outside at_root archive name content =>
    have same : (s.step sha256 (.outside at_root archive name content)).pc = s.pc := by
      simp only [System.step]
      split <;> rfl
    rw [same]
    refine durable.staged.files (fun r b content' => ?_) kept
    simp only [System.step]
    split
    · intro there
      rw [Store.put_of_ne _ (by rintro ⟨_, same⟩; cases same)] at there
      exact there
    · exact fun there => there
  | work now input => exact absurd rfl (user now input)
  | edit id document => exact absurd rfl (editing id document)
  | _ => exact durable.staged

end Steps

section Intents

variable (sha256 : Content → String) {s : System} {a : Nat} {intent : PublicationIntent}

/-- Only a cancellation and the worker change intents. -/
theorem step_intents (event : Event) (user : ∀ now input, event ≠ .work now input)
    (other : ∀ id, event ≠ .cancel id) : (s.step sha256 event).db.intents = s.db.intents := by
  cases event with
  | work now input => exact absurd rfl (user now input)
  | cancel id => exact absurd rfl (other id)
  | create now owner request => exact (createUniqueCapture_inserted s.db now owner request).intents
  | batch now owner requests => exact (queueBatch_inserted s.db now owner requests).intents
  | control id owner stop =>
    simp only [System.step, requestControl]
    repeat' split
    all_goals rfl
  | resume id owner ext =>
    simp only [System.step, Browsertrix.resume]
    repeat' split
    all_goals rfl
  | delete id owner =>
    simp only [System.step, deleteJob]
    repeat' split
    all_goals rfl
  | start =>
    simp only [System.step]
    split <;> rfl
  | fail torn | crash torn => simp only [System.step, System.spilled_db]
  | outside at_root archive name content =>
    simp only [System.step]
    split <;> rfl
  | edit id document =>
    simp only [System.step]
    split <;> rfl
  | _ => rfl

/-- A cancellation invalidates the pending intents of the job it discards. -/
theorem cancel_intents {db : Db} (id : Nat) (found : db.intents.get a = some intent) :
    (requestCancel db id).1.intents.get a = some intent ∨
      (intent.completed = .pending ∧ Refused (requestCancel db id).1 intent ∧
        (requestCancel db id).1.intents.get a = some { intent with completed := .invalidated }) := by
  unfold requestCancel
  cases row : db.jobs.get id with
  | none => exact Or.inl found
  | some job =>
    have accepted : ∀ next, ({ db with
          jobs := db.jobs.modify id fun job => job.discarded next
          intents := db.intents.mapRows fun _ intent => intent.invalidated id } : Db).intents.get a = some intent ∨
        (intent.completed = .pending ∧ Refused { db with
          jobs := db.jobs.modify id fun job => job.discarded next
          intents := db.intents.mapRows fun _ intent => intent.invalidated id } intent ∧
          ({ db with
          jobs := db.jobs.modify id fun job => job.discarded next
          intents := db.intents.mapRows fun _ intent => intent.invalidated id } : Db).intents.get a =
            some { intent with completed := .invalidated }) := by
      intro next
      by_cases own : intent.completed = .pending ∧ intent.jobId = some id
      · refine Or.inr ⟨own.1, ⟨id, job.discarded next, own.2, ?_, rfl⟩, ?_⟩
        · rw [Table.get_modify_self, row]
          rfl
        · simp only [Table.get_mapRows, found, Option.map_some, PublicationIntent.invalidated, if_pos own]
      · left
        simp only [Table.get_mapRows, found, Option.map_some, PublicationIntent.invalidated, if_neg own]
    simp only []
    cases job.status with
    | queued | paused | partly | starting | running => exact accepted _
    | _ => exact Or.inl found

/-- The discard that an admission finds is still there after it. -/
theorem Refused.works {s' : System} (ok : SystemOk s) (works : Works s.directories s.pc s.db s'.db)
    (refused : Refused s.db intent) : Refused s'.db intent := by
  obtain ⟨id, job, owner, found, discarded⟩ := refused
  obtain ⟨job', there⟩ := works.kept id job found
  exact ⟨id, job', owner, there, ((Holds.read found discarded).works_discarded ok.db works).2 job' there⟩

/-- An intent stays, or is finalized with its row, or is pending, its job was discarded and it is invalidated. -/
theorem intent_kept (durable : Durable sha256 s) (event : Event) (found : s.db.intents.get a = some intent) :
    let db := (s.step sha256 event).db
    db.intents.get a = some intent ∨
      ((∃ stored k, s.pc = .finalize a stored k) ∧
        db.intents.get a = some { intent with completed := .finalized } ∧ ∃ row, db.archives a = some row) ∨
      (intent.completed = .pending ∧ db.intents.get a = some { intent with completed := .invalidated } ∧
        Refused db intent) := by
  intro db
  by_cases user : ∃ now input, event = .work now input
  · obtain ⟨now, input, rfl⟩ := user
    have works := (work_stepped sha256 durable.ok now input).works
    rcases (work_publishes sha256 s now input).kept durable.ok found with
      same | ⟨stored, k, place, result, after⟩ | ⟨stored, k, place, pending, refused, after⟩
    · exact Or.inl same
    · refine Or.inr (Or.inl ⟨⟨stored, k, place⟩, after, stored.row (s.db.archives a), ?_⟩)
      show (work sha256 s now input).db.archives a = _
      rw [(finalize_some result).2.2.1, Function.update_self]
    · exact Or.inr (Or.inr ⟨pending, after, refused.works durable.ok works⟩)
  push Not at user
  by_cases cancelling : ∃ id, event = .cancel id
  · obtain ⟨id, rfl⟩ := cancelling
    rcases cancel_intents id found with same | ⟨pending, refused, after⟩
    · exact Or.inl same
    · exact Or.inr (Or.inr ⟨pending, after, refused⟩)
  push Not at cancelling
  left
  show (s.step sha256 event).db.intents.get a = some intent
  rw [step_intents sha256 event user cancelling]
  exact found

/-- The intent was invalidated, or is pending and its job was discarded. -/
def Dead (db : Db) (a : Nat) : Prop :=
  ∃ intent, db.intents.get a = some intent ∧
    (intent.completed = .invalidated ∨ intent.completed = .pending ∧ Refused db intent)

/-- An event that keeps the row of the job of a pending intent, and puts no file under the archive's name. -/
def Spares (a : Nat) (s : System) (event : Event) : Prop :=
  (∀ r name content, event ≠ .outside r a name content) ∧
    ∀ intent id, s.db.intents.get a = some intent → intent.completed = .pending → intent.jobId = some id →
      ∀ job, s.db.jobs.get id = some job → ∃ job', (s.step sha256 event).db.jobs.get id = some job'

theorem Dead.not_admitted (ok : SystemOk s) (dead : Dead s.db a) {stored : PublicationIntent}
    (admitted : Admitted s.db a stored) : False := by
  obtain ⟨intent, found, state⟩ := dead
  cases found.symm.trans admitted.1
  rcases state with invalidated | ⟨_, id, job, owner, row, discarded⟩
  · cases invalidated
  · have status : job.status = .packaging := ((admitted.2 id owner).2 job row).1
    rcases (ok.db.rows id job row).discarded.mp discarded with same | same <;> simp [status] at same

theorem Refused.kept (ok : SystemOk s) (event : Event) (refused : Refused s.db intent)
    (row : ∀ id, intent.jobId = some id → ∀ job, s.db.jobs.get id = some job →
      ∃ job', (s.step sha256 event).db.jobs.get id = some job') : Refused (s.step sha256 event).db intent := by
  obtain ⟨id, job, owner, found, discarded⟩ := refused
  obtain ⟨job', there⟩ := row id owner job found
  refine ⟨id, job', owner, there, ?_⟩
  have held : Holds s.db id Discarded := .read found discarded
  rcases step_cases (s := s) sha256 event with ⟨now, input, rfl⟩ | ⟨requests, _⟩
  · exact (held.works_discarded ok.db (work_stepped sha256 ok now input).works).2 job' there
  · exact (held.requests ok.db requests discarded_stable).2 job' there

theorem Dead.step (durable : Durable sha256 s) (dead : Dead s.db a) (event : Event) (spares : Spares sha256 a s event) :
    Dead (s.step sha256 event).db a := by
  have kept := dead
  obtain ⟨intent, found, state⟩ := dead
  rcases intent_kept sha256 durable event found with same | ⟨⟨stored, k, place⟩, _⟩ | ⟨_, after, _⟩
  · refine ⟨intent, same, state.imp_right fun both => ⟨both.1, ?_⟩⟩
    exact both.2.kept sha256 durable.ok event fun id owner job row => spares.2 intent id found both.1 owner job row
  · have admitted := durable.ok.pc
    rw [place] at admitted
    exact (kept.not_admitted durable.ok admitted.1).elim
  · exact ⟨_, after, Or.inl rfl⟩

theorem Dead.silent (durable : Durable sha256 s) (dead : Dead s.db a) (event : Event) (spares : Spares sha256 a s event) :
    (s.db.archives a = none → (s.step sha256 event).db.archives a = none) ∧
      ∀ r name, name.archive = a → (s.step sha256 event).store.files r name = s.store.files r name := by
  have apart : ∀ {step : Placing} {b : Nat} {stored : PublicationIntent} {k : Return},
      s.pc = .place step b stored k → a ≠ b := by
    intro step b stored k place same
    subst same
    have admitted := durable.ok.pc
    rw [place] at admitted
    exact dead.not_admitted durable.ok admitted.1
  have spilled : ∀ torn r name, name.archive = a → (s.spilled torn).store.files r name = s.store.files r name := by
    intro torn r name own
    cases place : s.pc with
    | place step b stored k =>
      simp only [System.spilled, place]
      exact (spill_moves step).others (by rw [own]; exact apart place)
    | _ => simp only [System.spilled, place]
  constructor
  · intro absent
    by_contra some
    obtain ⟨row, added⟩ := Option.ne_none_iff_exists'.mp some
    by_cases user : ∃ now input, event = .work now input
    · obtain ⟨now, input, rfl⟩ := user
      rcases (work_publishes sha256 s now input).archives added with ⟨old, was, _⟩ | ⟨stored, k, place, _⟩
      · cases absent.symm.trans was
      · have admitted := durable.ok.pc
        rw [place] at admitted
        exact dead.not_admitted durable.ok admitted.1
    · push Not at user
      rcases step_cases (s := s) sha256 event with ⟨now, input, same⟩ | ⟨requests, _⟩
      · exact user now input same
      · exact some (requests.archives a absent)
  · intro r name own
    cases event with
    | work now input =>
      by_cases placing : ∃ step b stored k, s.pc = .place step b stored k
      · obtain ⟨step, b, stored, k, place⟩ := placing
        exact (work_placing sha256 place durable.staged now input).2.1.others (by rw [own]; exact apart place)
      · push Not at placing
        rw [System.step, (work_silent sha256 s now input placing).store]
    | fail torn => exact spilled torn r name own
    | crash torn => exact spilled torn r name own
    | outside at_root archive file content =>
      have other : archive ≠ a := fun same => by
        subst same
        exact spares.1 at_root file content rfl
      simp only [System.step]
      split
      · rw [Store.put_of_ne]
        rintro ⟨_, rfl⟩
        exact other own
      · rfl
    | edit id document =>
      simp only [System.step]
      split <;> rfl
    | start =>
      simp only [System.step]
      split <;> rfl
    | _ => rfl

end Intents

theorem finalize_own (db : Db) (a : Nat) (intent : PublicationIntent)
    (owner : (intent.row (db.archives a)).owner = intent.archive.createdBy)
    (digest : (intent.row (db.archives a)).sha256 = intent.archive.sha256) :
    ∃ again, finalizeIntent db a intent = some again ∧
      again.archives = Function.update db.archives a (some (intent.row (db.archives a))) := by
  unfold finalizeIntent
  simp only [if_pos (And.intro owner digest)]
  exact ⟨_, rfl, rfl⟩

/-- A finalization leaves the document that is there, and writes the intent's pages, resources and
coverage; another one after it, or after an edit of the document, leaves the catalogue as it is. -/
theorem finalize_again {db db' : Db} {a : Nat} {intent : PublicationIntent}
    (result : finalizeIntent db a intent = some db') :
    ∃ row, db'.archives a = some row ∧ row.pages = intent.report.pages ∧ row.resources = intent.report.resources ∧
      row.coverage = intent.coverage ∧ (∀ old, db.archives a = some old → row.document = old.document) ∧
      (∃ again, finalizeIntent db' a intent = some again ∧ again.archives = db'.archives) ∧
      ∀ document, document.createdBy = row.owner → document.sha256 = row.sha256 →
        ∃ again, finalizeIntent (saveArchiveMetadata db' a document) a intent = some again ∧
          again.archives a = some { row with document := document } := by
  obtain ⟨owner, digest, archives, _⟩ := finalize_some result
  have found : db'.archives a = some (intent.row (db.archives a)) := by rw [archives, Function.update_self]
  refine ⟨intent.row (db.archives a), found, rfl, rfl, rfl, ?_, ?_, ?_⟩
  · intro old was
    rw [was]
    rfl
  · have same : intent.row (db'.archives a) = intent.row (db.archives a) := by
      rw [found]
      rfl
    obtain ⟨again, accepted, after⟩ := finalize_own db' a intent
      (by rw [same]; exact owner) (by rw [same]; exact digest)
    refine ⟨again, accepted, ?_⟩
    rw [after, same, archives, Function.update_idem]
  · intro document own hash
    have edited : (saveArchiveMetadata db' a document).archives a =
        some { intent.row (db.archives a) with document := document, sha256 := document.sha256 } := by
      rw [saved_row found own.symm, Function.update_self]
    have same : intent.row ((saveArchiveMetadata db' a document).archives a) =
        { intent.row (db.archives a) with document := document, sha256 := document.sha256 } := by
      rw [edited]
      rfl
    obtain ⟨again, accepted, after⟩ := finalize_own (saveArchiveMetadata db' a document) a intent
      (by rw [same]; exact owner) (by rw [same]; exact hash.trans digest)
    refine ⟨again, accepted, ?_⟩
    rw [after, same, Function.update_self, hash]

end NixHomeServer.Browsertrix
