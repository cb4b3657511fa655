import NixHomeServer.Browsertrix.Steps

/-! An accepted discard is final: whatever requests and the worker do afterwards, the job only
passes through its cancellation, publishes nothing and keeps its row until its checkpoint is gone. -/
namespace NixHomeServer.Browsertrix

open NixHomeServer.Library

/-- What is left of a job whose discard was accepted. -/
structure Ended (db : Db) (id : Nat) : Prop where
  row : Holds db id Discarded
  intents : ∀ a intent, db.intents.get a = some intent → intent.jobId = some id → intent.completed ≠ .pending

section Final

variable {s : System} {id : Nat} (sha256 : Content → String)

theorem Ended.requests {db db' : Db} (ok : DbOk db) (requests : Requests db db') (ended : Ended db id) :
    Ended db' id := by
  refine ⟨ended.row.requests ok requests discarded_stable, ?_⟩
  intro a intent' found owner
  cases was : db.intents.get a with
  | none =>
    rw [requests.absent a was] at found
    cases found
  | some intent =>
    rcases requests.invalidated a intent was with same | ⟨_, after, _⟩
    · cases same.symm.trans found
      exact ended.intents a intent' was owner
    · cases after.symm.trans found
      simp

theorem Ended.works {directories : Nat → Option (Option String)} {pc : Pc} {db db' : Db} (ok : DbOk db)
    (works : Works directories pc db db') (ended : Ended db id) : Ended db' id := by
  refine ⟨ended.row.works_discarded ok works, ?_⟩
  intro a intent' found owner pending
  rcases works.intents a intent' found with ⟨intent, was, same, _, still⟩ | ⟨_, fresh⟩
  · exact ended.intents a intent was (same.symm.trans owner) (still pending)
  · obtain ⟨_, job, there, free⟩ := fresh id owner
    exact free (ended.row.2 job there)

/-- No step brings an archive of an ended job into the catalogue. -/
theorem Ended.archives_works {directories : Nat → Option (Option String)} {pc : Pc} {db db' : Db}
    (works : Works directories pc db db') (ended : Ended db id) (a : Nat) (intent : PublicationIntent)
    (found : db'.intents.get a = some intent) (owner : intent.jobId = some id) (absent : db.archives a = none) :
    db'.archives a = none := by
  by_contra some
  obtain ⟨old, was, pending⟩ := works.archives a absent some
  rcases works.intents a intent found with ⟨other, there, same, _⟩ | ⟨_, fresh⟩
  · cases was.symm.trans there
    exact ended.intents a old was (same.symm.trans owner) pending
  · obtain ⟨_, job, row, free⟩ := fresh id owner
    exact free (ended.row.2 job row)

theorem Ended.step (ok : SystemOk s) (ended : Ended s.db id) (event : Event) :
    Ended (s.step sha256 event).db id ∧
      ∀ a intent, (s.step sha256 event).db.intents.get a = some intent → intent.jobId = some id →
        s.db.archives a = none → (s.step sha256 event).db.archives a = none := by
  rcases step_cases (s := s) sha256 event with ⟨now, input, rfl⟩ | ⟨requests, _⟩
  · have stepped := work_stepped sha256 ok now input
    exact ⟨ended.works ok.db stepped.works, ended.archives_works stepped.works⟩
  · exact ⟨ended.requests ok.db requests, fun a _ _ _ none => requests.archives a none⟩

/-- An intent keeps its job through every step. -/
theorem step_owner (ok : SystemOk s) (ended : Ended s.db id) (event : Event) (a : Nat) (intent : PublicationIntent)
    (found : (s.step sha256 event).db.intents.get a = some intent) (owner : intent.jobId = some id) :
    ∃ old, s.db.intents.get a = some old ∧ old.jobId = some id := by
  rcases step_cases (s := s) sha256 event with ⟨now, input, rfl⟩ | ⟨requests, _⟩
  · have stepped := work_stepped sha256 ok now input
    rcases stepped.works.intents a intent found with ⟨old, was, same, _⟩ | ⟨_, fresh⟩
    · exact ⟨old, was, same.symm.trans owner⟩
    · obtain ⟨_, job, row, free⟩ := fresh id owner
      exact absurd (ended.row.2 job row) free
  · cases was : s.db.intents.get a with
    | none =>
      rw [requests.absent a was] at found
      cases found
    | some old =>
      rcases requests.invalidated a old was with same | ⟨_, after, _⟩
      · cases same.symm.trans found
        exact ⟨intent, rfl, owner⟩
      · cases after.symm.trans found
        exact ⟨old, rfl, owner⟩

/-- What no run after an accepted discard changes. -/
structure Lasting (before s : System) (id : Nat) : Prop where
  ok : SystemOk s
  ended : Ended s.db id
  archives : ∀ a intent, s.db.intents.get a = some intent → intent.jobId = some id →
    before.db.archives a = none → s.db.archives a = none

theorem Lasting.step {before : System} (lasting : Lasting before s id) (event : Event) :
    Lasting before (s.step sha256 event) id := by
  obtain ⟨ended, archives⟩ := lasting.ended.step sha256 lasting.ok event
  refine ⟨step_ok sha256 lasting.ok event, ended, ?_⟩
  intro a intent found owner none
  obtain ⟨old, was, same⟩ := step_owner sha256 lasting.ok lasting.ended event a intent found owner
  exact archives a intent found owner (lasting.archives a old was same none)

theorem requestCancel_ended {db : Db} (accepted : (requestCancel db id).2 = true) :
    Ended (requestCancel db id).1 id ∧ (requestCancel db id).1.archives = db.archives := by
  unfold requestCancel at accepted ⊢
  cases found : db.jobs.get id with
  | none => simp [found] at accepted
  | some job =>
    simp only [found] at accepted ⊢
    have ended : ∀ next, Ended { db with
        jobs := db.jobs.modify id fun job => job.discarded next
        intents := db.intents.mapRows fun _ intent => intent.invalidated id } id := by
      intro next
      have drawn := Table.lt_next_of_get _ _ _ found
      refine ⟨⟨drawn, ?_⟩, ?_⟩
      · intro row there
        obtain ⟨old, _, rfl⟩ := Table.get_modify_cases _ _ _ _ _ there
        rw [if_pos rfl]
        rfl
      · intro a intent there owner pending
        simp only [Table.get_mapRows] at there
        obtain ⟨stored, _, rfl⟩ := Option.map_eq_some_iff.mp there
        unfold PublicationIntent.invalidated at owner pending
        split at pending
        · cases pending
        · rename_i other
          rw [if_neg other] at owner
          exact other ⟨pending, owner⟩
    cases status : job.status with
    | queued | paused | partly | starting | running => exact ⟨ended _, rfl⟩
    | _ => simp [status] at accepted

/-- A row that awaits its clean-up stays, and stays marked until its checkpoint directory is gone. -/
theorem flagged_step (ok : SystemOk s) (event : Event) {job : Job} (found : s.db.jobs.get id = some job)
    (flagged : job.discardCleanupPending = true) :
    ∃ job', (s.step sha256 event).db.jobs.get id = some job' ∧
      (job'.discardCleanupPending = true ∨ s.directories id = none) := by
  have row := ok.db.rows id job found
  have drawn := Table.lt_next_of_get _ _ _ found
  rcases step_cases (s := s) sha256 event with ⟨now, input, rfl⟩ | ⟨requests, _⟩
  · have works := (work_stepped sha256 ok now input).works
    obtain ⟨job', there⟩ := works.kept id job found
    refine ⟨job', there, ?_⟩
    rcases works.rows id job' there with ⟨old, was, worked⟩ | ⟨_, high, _⟩
    · cases found.symm.trans was
      exact worked.flagged row flagged
    · exact absurd drawn (Nat.not_lt.mpr high)
  · rcases requests.kept id job found with deletable | ⟨job', there⟩
    · simp [Job.deletable, flagged] at deletable
    · refine ⟨job', there, Or.inl ?_⟩
      rcases requests.rows id job' there with ⟨old, was, requested⟩ | ⟨high, _⟩
      · cases found.symm.trans was
        have ended := row.discarded.mp (row.flagged flagged)
        cases requested with
        | same => exact flagged
        | controlled _ accepted _ _ => rcases ended with status | status <;> simp [status] at accepted
        | resumed _ kept _ _ => exact absurd (row.flagged flagged) kept
        | ended accepted => rcases ended with status | status <;> simp [status] at accepted
        | ending accepted => rcases ended with status | status <;> simp [status] at accepted
      · exact absurd drawn (Nat.not_lt.mpr high)

/-- Nothing that a user can ask reaches a job that is packaging. -/
theorem packaging_refuses {db : Db} {job : Job} (found : db.jobs.get id = some job) (packaging : Packaging job)
    (owner : String) :
    requestCancel db id = (db, false) ∧ (∀ control, requestControl db id owner control = none) ∧
      ∀ ext, Browsertrix.resume db id owner ext = none := by
  have status : job.status = .packaging := packaging
  refine ⟨by simp [requestCancel, found, status], ?_, ?_⟩
  · intro control
    simp only [requestControl, found, status]
    split <;> rfl
  · intro ext
    have refused : job.extended ext = none := by
      unfold Job.extended
      rw [if_pos (Or.inr (Or.inl (by simp [status])))]
    simp only [Browsertrix.resume, found, refused]
    split <;> rfl

/-- In every run, once a job's discard was accepted: the job is from then on being cancelled or
cancelled and not resumable, or its row is gone; no archive of it comes into the catalogue; and a
mark for clean-up keeps its row and goes only when its checkpoint directory is gone. Before that, a
packaging job refuses every control, and the queue hands out its oldest queued job, which then starts. -/
theorem discard_is_final (events later : List Event) (id : Nat)
    (accepted : (requestCancel (Runs.run (System.step sha256) {} events).db id).2 = true) :
    let s := Runs.run (System.step sha256) {} events
    let s' := Runs.run (System.step sha256) (s.step sha256 (.cancel id)) later
    (∀ job, s'.db.jobs.get id = some job →
      (job.status = .cancelling ∨ job.status = .cancelled) ∧ job.runtime.canResume = false) ∧
    (∀ a intent, s'.db.intents.get a = some intent → intent.jobId = some id →
      s.db.archives a = none → s'.db.archives a = none) ∧
    (∀ event job, s'.db.jobs.get id = some job → job.discardCleanupPending = true →
      job.deletable = false ∧ ∃ job', (s'.step sha256 event).db.jobs.get id = some job' ∧
        (job'.discardCleanupPending = true ∨ s'.directories id = none)) ∧
    (∀ x job owner, s.db.jobs.get x = some job → job.status = .packaging →
      requestCancel s.db x = (s.db, false) ∧ (∀ control, requestControl s.db x owner control = none) ∧
        ∀ ext, Browsertrix.resume s.db x owner ext = none) ∧
    match claimNextQueuedJob s.db with
    | (db, none) => db = s.db ∧ ∀ x job, s.db.jobs.get x = some job → job.status ≠ .queued
    | (db, some x) => ∃ job, s.db.jobs.get x = some job ∧ job.status = .queued ∧
        db.jobs.get x = some { job with status := .starting } ∧
        ∀ y other, s.db.jobs.get y = some other → other.status = .queued → job.createdAt ≤ other.createdAt := by
  intro s s'
  have ok : SystemOk s := run_ok sha256 events
  obtain ⟨ended, same⟩ := requestCancel_ended accepted
  have lasting : Lasting s s' id := by
    apply Runs.run_invariant (System.step sha256) (fun t => Lasting s t id)
      (fun t event lasting => lasting.step sha256 event)
    refine ⟨step_ok sha256 ok _, ended, ?_⟩
    intro a intent _ _ absent
    show (requestCancel s.db id).1.archives a = none
    rw [same]
    exact absent
  refine ⟨?_, lasting.archives, ?_, fun x job owner found packaging => packaging_refuses found packaging owner, ?_⟩
  · intro job found
    have row := lasting.ok.db.rows id job found
    have discarded := lasting.ended.row.2 job found
    exact ⟨row.discarded.mp discarded, row.final discarded⟩
  · intro event job found flagged
    exact ⟨by simp [Job.deletable, flagged], flagged_step sha256 lasting.ok event found flagged⟩
  · obtain ⟨some_oldest, none_queued⟩ := oldestQueued_spec s.db
    simp only [claimNextQueuedJob]
    cases chosen : oldestQueued s.db with
    | none => exact ⟨rfl, none_queued chosen⟩
    | some x =>
      obtain ⟨job, found, queued, oldest⟩ := some_oldest x chosen
      refine ⟨job, found, queued, ?_, oldest⟩
      simp only [Db.modifyJob, Table.get_modify_self, found, Option.map_some]

/-- A queued capture is discarded, and then asked for again and cleared. -/
theorem discard_of_a_queued_job :
    let s := Runs.run (System.step fun _ => "") {} [.create 0 "ann" { url := "https://a.example/" }]
    let s' := Runs.run (System.step fun _ => "") (s.step (fun _ => "") (.cancel 1))
      [.resume 1 "ann" {}, .start, .work 1 .step, .work 1 .step, .clear "bob"]
    ∀ job, s'.db.jobs.get 1 = some job →
      (job.status = .cancelling ∨ job.status = .cancelled) ∧ job.runtime.canResume = false :=
  (discard_is_final (fun _ => "") [.create 0 "ann" { url := "https://a.example/" }]
    [.resume 1 "ann" {}, .start, .work 1 .step, .work 1 .step, .clear "bob"] 1 (by decide)).1

end Final

end NixHomeServer.Browsertrix
