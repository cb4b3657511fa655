import NixHomeServer.Browsertrix.Steps

/-! The steps of the worker that touch the publication intents or the catalogue, and
what an intent can become. -/
namespace NixHomeServer.Browsertrix

open NixHomeServer.Library

/-- The places whose step admits, finalizes or puts an intent. -/
def Pc.publishing : Pc → Bool
  | .admitting .. | .finalize .. | .put .. => true
  | _ => false

/-- What a step of the worker does to the intents and the catalogue. -/
inductive Publishes (s s' : System) : Prop
  | quiet (intents : s'.db.intents = s.db.intents) (archives : s'.db.archives = s.db.archives)
      (still : s'.db = s.db ∨ s.pc.publishing = false)
  | admitted (a : Nat) (intent : PublicationIntent) (k : Return) (place : s.pc = .admitting a intent k)
      (pass : Bool) (result : admitPendingPublication s.db a intent = some (s'.db, pass))
      (next : s'.pc = if pass then .place .destination a intent k else k.next)
  | finalized (a : Nat) (intent : PublicationIntent) (k : Return) (place : s.pc = .finalize a intent k)
      (result : finalizeIntent s.db a intent = some s'.db) (next : s'.pc = k.next)
  | put (intent : PublicationIntent) (k : Return) (place : s.pc = .put intent k)
      (digest : intent.archive.sha256.length = 64 ∧ intent.report.sha256 = intent.archive.sha256)
      (result : putIntent s.db intent = some s'.db) (next : s'.pc = .admitting s.db.intents.next intent k)
  | verified (archive : Nat) (row : ArchiveRow) (document : Archive) (place : s.pc.publishing = false)
      (found : s.db.archives archive = some row) (digest : row.sha256 = document.sha256)
      (result : s'.db = saveArchiveMetadata s.db archive { document with
        createdBy := row.owner, archiveFile := row.document.archiveFile, visibility := row.document.visibility })

theorem work_publishes (sha256 : Content → String) (s : System) (now : Nat) (input : Input) :
    Publishes s (work sha256 s now input) := by
  have quiet : s.pc.publishing = false → ∀ {s' : System}, s'.db.intents = s.db.intents →
      s'.db.archives = s.db.archives → Publishes s s' :=
    fun other _ intents archives => .quiet intents archives (Or.inr other)
  cases place : s.pc with
  | admitting a intent k =>
    simp only [work, place]
    cases result : admitPendingPublication s.db a intent with
    | none => exact .quiet rfl rfl (Or.inl rfl)
    | some both =>
      obtain ⟨db, pass⟩ := both
      cases pass with
      | false => exact .admitted a intent k place false result rfl
      | true => exact .admitted a intent k place true result rfl
  | finalize a intent k =>
    simp only [work, place]
    cases result : finalizeIntent s.db a intent with
    | none => exact .quiet rfl rfl (Or.inl rfl)
    | some db => exact .finalized a intent k place result rfl
  | put intent k =>
    simp only [work, place]
    by_cases refused : intent.archive.sha256.length ≠ 64 ∨ intent.report.sha256 ≠ intent.archive.sha256
    · rw [if_pos refused]
      exact .quiet rfl rfl (Or.inl rfl)
    · rw [if_neg refused]
      push Not at refused
      cases result : putIntent s.db intent with
      | none => exact .quiet rfl rfl (Or.inl rfl)
      | some db => exact .put intent k place refused result rfl
  | working id job =>
    have other : s.pc.publishing = false := by rw [place]; rfl
    simp only [work, place]
    split
    · exact quiet other rfl rfl
    · exact quiet other rfl rfl
    · split <;> exact quiet other rfl rfl
    · rename_i archive document _
      split
      · exact quiet other rfl rfl
      · rename_i row found
        obtain ⟨there, kept⟩ := Option.filter_eq_some_iff.mp found
        simp only [Bool.and_eq_true, beq_iff_eq] at kept
        exact .verified archive row document other there kept.2 rfl
    · exact quiet other rfl rfl
    · exact quiet other rfl rfl
    · exact quiet other rfl rfl
  | pending k =>
    have other : s.pc.publishing = false := by rw [place]; rfl
    cases k with
    | boot rest | reconcile _ rest =>
      cases rest with
      | nil =>
        simp only [work, place]
        exact quiet other rfl rfl
      | cons id rest =>
        simp only [work, place]
        split <;> exact quiet other rfl rfl
    | _ =>
      simp only [work, place]
      exact quiet other rfl rfl
  | dispatch =>
    have other : s.pc.publishing = false := by rw [place]; rfl
    simp only [work, place]
    exact quiet other (dispatchDueSchedules_inserted s.db now).intents (dispatchDueSchedules_inserted s.db now).archives
  | claim =>
    have other : s.pc.publishing = false := by rw [place]; rfl
    simp only [work, place, claimNextQueuedJob]
    split
    · rename_i same
      split at same <;> cases same
      exact quiet other rfl rfl
    · rename_i same
      split at same <;> cases same
      exact quiet other rfl rfl
  | begin id job rt =>
    have other : s.pc.publishing = false := by rw [place]; rfl
    have same : (beginCapture s.db id rt).1.intents = s.db.intents ∧
        (beginCapture s.db id rt).1.archives = s.db.archives := by
      unfold beginCapture
      split
      · exact ⟨rfl, rfl⟩
      · split <;> exact ⟨rfl, rfl⟩
    simp only [work, place]
    split <;> rename_i result <;> rw [result] at same <;> exact quiet other same.1 same.2
  | operate id job =>
    have other : s.pc.publishing = false := by rw [place]; rfl
    have same : (beginFileOperation s.db id job.createdBy).1.intents = s.db.intents ∧
        (beginFileOperation s.db id job.createdBy).1.archives = s.db.archives := by
      unfold beginFileOperation
      split
      · exact ⟨rfl, rfl⟩
      · split
        · exact ⟨rfl, rfl⟩
        · split <;> exact ⟨rfl, rfl⟩
    simp only [work, place]
    split <;> rename_i result <;> rw [result] at same <;> exact quiet other same.1 same.2
  | package id job rt outcome =>
    have other : s.pc.publishing = false := by rw [place]; rfl
    simp only [work, place]
    by_cases unready : outcome.policyReady = false
    · rw [if_pos unready]
      exact quiet other rfl rfl
    rw [if_neg unready]
    by_cases unpackaged : outcome.packaged = false
    · rw [if_pos unpackaged]
      exact quiet other rfl rfl
    rw [if_neg unpackaged]
    have same : ∀ db frozen, preparePublication s.db id rt = some (db, frozen) →
        db.intents = s.db.intents ∧ db.archives = s.db.archives := by
      intro db frozen result
      unfold preparePublication at result
      split at result
      · cases result
      · split at result <;> cases result <;> exact ⟨rfl, rfl⟩
    cases result : preparePublication s.db id rt with
    | none => exact quiet other rfl rfl
    | some both =>
      obtain ⟨db, frozen⟩ := both
      cases frozen <;> exact quiet other (same db _ result).1 (same db _ result).2
  | list ids jobs boot =>
    have other : s.pc.publishing = false := by rw [place]; rfl
    cases ids with
    | nil =>
      simp only [work, place]
      exact quiet other rfl rfl
    | cons id ids =>
      simp only [work, place]
      split <;> exact quiet other rfl rfl
  | each jobs boot =>
    have other : s.pc.publishing = false := by rw [place]; rfl
    cases jobs with
    | nil =>
      simp only [work, place]
      exact quiet other rfl rfl
    | cons job jobs =>
      simp only [work, place]
      split
      · exact quiet other rfl rfl
      · split <;> exact quiet other rfl rfl
  | crawling id job rt reason =>
    have other : s.pc.publishing = false := by rw [place]; rfl
    cases input with
    | poll limit =>
      simp only [work, place]
      split <;> exact quiet other rfl rfl
    | _ =>
      simp only [work, place]
      exact quiet other rfl rfl
  | _ =>
    have other : s.pc.publishing = false := by rw [place]; rfl
    simp only [work, place]
    repeat' split
    all_goals exact quiet other rfl rfl

section Intents

variable {db db' : Db} {a : Nat} {intent : PublicationIntent}

/-- An admission changes no intent but the refused one, and that one is then not pending. -/
theorem admit_some {pass : Bool} (result : admitPendingPublication db a intent = some (db', pass)) :
    db'.archives = db.archives ∧
    (∀ b stored, db'.intents.get b = some stored → stored.completed ≠ .invalidated →
      db.intents.get b = some stored) ∧
    (pass = false → ∀ stored, db'.intents.get a = some stored → stored.completed ≠ .pending) := by
  have same : (∀ b stored, db.intents.get b = some stored → stored.completed ≠ .invalidated →
      db.intents.get b = some stored) := fun _ _ found _ => found
  unfold admitPendingPublication at result
  by_cases pending : (db.intents.get a).any (fun stored => stored.completed == .pending) = true
  · rw [if_pos pending] at result
    cases owner : intent.jobId with
    | none =>
      simp only [owner, Option.some.injEq, Prod.mk.injEq] at result
      obtain ⟨rfl, rfl⟩ := result
      exact ⟨rfl, same, fun impossible => by cases impossible⟩
    | some id =>
      simp only [owner] at result
      cases found : db.jobs.get id with
      | none =>
        simp only [found, Option.some.injEq, Prod.mk.injEq] at result
        obtain ⟨rfl, rfl⟩ := result
        exact ⟨rfl, same, fun impossible => by cases impossible⟩
      | some job =>
        simp only [found] at result
        split at result
        · cases result
        split at result
        · cases result
          refine ⟨rfl, ?_, ?_⟩
          · intro b stored there kept
            obtain ⟨old, was, rfl⟩ := Table.get_modify_cases _ _ _ _ _ there
            split at kept
            · exact absurd rfl kept
            · rename_i other
              rw [if_neg other]
              exact was
          · intro _ stored there
            obtain ⟨old, was, rfl⟩ := Table.get_modify_cases _ _ _ _ _ there
            rw [if_pos rfl]
            simp
        · cases result
          exact ⟨rfl, same, fun impossible => by cases impossible⟩
  · rw [if_neg pending] at result
    cases result
    refine ⟨rfl, same, fun _ stored found still => pending ?_⟩
    simp [found, still]

/-- An intent after an admission is one from before it, but for its mark. -/
theorem admit_origin {pass : Bool} (result : admitPendingPublication db a intent = some (db', pass)) :
    db'.intents.next = db.intents.next ∧ ∀ b stored', db'.intents.get b = some stored' →
      ∃ stored completed, db.intents.get b = some stored ∧ stored' = { stored with completed := completed } := by
  have same : ∀ b stored', db.intents.get b = some stored' →
      ∃ stored completed, db.intents.get b = some stored ∧ stored' = { stored with completed := completed } :=
    fun _ stored' found => ⟨stored', stored'.completed, found, rfl⟩
  unfold admitPendingPublication at result
  split at result
  · cases owner : intent.jobId with
    | none =>
      simp only [owner, Option.some.injEq, Prod.mk.injEq] at result
      rw [← result.1]
      exact ⟨rfl, same⟩
    | some id =>
      simp only [owner] at result
      cases row : db.jobs.get id with
      | none =>
        simp only [row, Option.some.injEq, Prod.mk.injEq] at result
        rw [← result.1]
        exact ⟨rfl, same⟩
      | some job =>
        simp only [row] at result
        split at result
        · cases result
        split at result
        · cases result
          refine ⟨rfl, fun b stored' found => ?_⟩
          obtain ⟨old, was, rfl⟩ := Table.get_modify_cases _ _ _ _ _ found
          split
          · exact ⟨old, .invalidated, was, rfl⟩
          · exact ⟨old, old.completed, was, rfl⟩
        · cases result
          exact ⟨rfl, same⟩
  · cases result
    exact ⟨rfl, same⟩

theorem finalize_some (result : finalizeIntent db a intent = some db') :
    let row := intent.row (db.archives a)
    row.owner = intent.archive.createdBy ∧ row.sha256 = intent.archive.sha256 ∧
    db'.archives = Function.update db.archives a (some row) ∧
    db'.intents = db.intents.modify a (fun stored => { stored with completed := .finalized }) ∧
    db'.jobs = match intent.jobId with
      | none => db.jobs
      | some job => db.jobs.modify job fun row => row.finalized a intent := by
  unfold finalizeIntent at result
  simp only [] at result
  split at result
  · rename_i own
    cases result
    exact ⟨own.1, own.2, rfl, rfl, rfl⟩
  · cases result

end Intents

section Publishes

variable {s s' : System} {a : Nat} {intent : PublicationIntent}

/-- A pending intent was pending before, and was not the one just finalized, or was just put. -/
theorem Publishes.pending (publishes : Publishes s s') (found : s'.db.intents.get a = some intent)
    (pending : intent.completed = .pending) :
    s.db.intents.get a = some intent ∨ ∃ stored k, s.pc = .put stored k ∧ a = s.db.intents.next ∧
      intent = { stored with completed := .pending } ∧ putIntent s.db stored = some s'.db := by
  cases publishes with
  | quiet same _ =>
    rw [same] at found
    exact Or.inl found
  | admitted b refused k place pass result _ =>
    exact Or.inl ((admit_some result).2.1 a intent found (by rw [pending]; simp))
  | finalized b final k place result _ =>
    rw [(finalize_some result).2.2.2.1] at found
    obtain ⟨old, was, rfl⟩ := Table.get_modify_cases _ _ _ _ _ found
    split at pending
    · cases pending
    · rename_i other
      rw [if_neg other]
      exact Or.inl was
  | put stored k place _ result _ =>
    obtain ⟨same, _⟩ := putIntent_some result
    rw [same] at found
    rcases Table.get_insert_cases _ _ _ _ found with old | ⟨rfl, rfl⟩
    · exact Or.inl old
    · exact Or.inr ⟨stored, k, place, rfl, rfl, result⟩
  | verified b row document _ _ _ result =>
    rw [result] at found
    exact Or.inl found

/-- An intent is one from before the step, but for its mark, or was just put. -/
theorem Publishes.origin (publishes : Publishes s s') (found : s'.db.intents.get a = some intent) :
    (∃ stored completed, s.db.intents.get a = some stored ∧ intent = { stored with completed := completed }) ∨
      ∃ stored k, s.pc = .put stored k ∧ a = s.db.intents.next ∧ intent = { stored with completed := .pending } ∧
        putIntent s.db stored = some s'.db := by
  cases publishes with
  | quiet same _ _ =>
    rw [same] at found
    exact Or.inl ⟨intent, intent.completed, found, rfl⟩
  | admitted b refused k place pass result _ => exact Or.inl ((admit_origin result).2 a intent found)
  | finalized b final k place result _ =>
    rw [(finalize_some result).2.2.2.1] at found
    obtain ⟨old, was, rfl⟩ := Table.get_modify_cases _ _ _ _ _ found
    split
    · exact Or.inl ⟨old, .finalized, was, rfl⟩
    · exact Or.inl ⟨old, old.completed, was, rfl⟩
  | put stored k place _ result _ =>
    rw [(putIntent_some result).1] at found
    rcases Table.get_insert_cases _ _ _ _ found with old | ⟨rfl, rfl⟩
    · exact Or.inl ⟨intent, intent.completed, old, rfl⟩
    · exact Or.inr ⟨stored, k, place, rfl, rfl, result⟩
  | verified b row document _ _ _ result =>
    rw [result] at found
    exact Or.inl ⟨intent, intent.completed, found, rfl⟩

theorem Publishes.next (publishes : Publishes s s') : s.db.intents.next ≤ s'.db.intents.next := by
  cases publishes with
  | quiet same _ _ => exact Nat.le_of_eq (by rw [same])
  | admitted b refused k place pass result _ => exact Nat.le_of_eq (admit_origin result).1.symm
  | finalized b final k place result _ => exact Nat.le_of_eq (by rw [(finalize_some result).2.2.2.1, Table.next_modify])
  | put stored k place _ result _ =>
    rw [(putIntent_some result).1]
    exact Nat.le_succ _
  | verified b row document _ _ _ result =>
    rw [result]
    exact Nat.le_refl _

/-- A finalized intent was finalized before, or is finalized by this step. -/
theorem Publishes.finalized_cases (publishes : Publishes s s') (found : s'.db.intents.get a = some intent)
    (finalized : intent.completed = .finalized) :
    s.db.intents.get a = some intent ∨ ∃ stored k old, s.pc = .finalize a stored k ∧
      s.db.intents.get a = some old ∧ intent = { old with completed := .finalized } ∧
      finalizeIntent s.db a stored = some s'.db := by
  cases publishes with
  | quiet same _ =>
    rw [same] at found
    exact Or.inl found
  | admitted b refused k place pass result _ =>
    exact Or.inl ((admit_some result).2.1 a intent found (by rw [finalized]; simp))
  | finalized b final k place result _ =>
    rw [(finalize_some result).2.2.2.1] at found
    obtain ⟨old, was, rfl⟩ := Table.get_modify_cases _ _ _ _ _ found
    by_cases same : a = b
    · subst same
      rw [if_pos rfl]
      exact Or.inr ⟨final, k, old, place, was, rfl, result⟩
    · rw [if_neg same]
      exact Or.inl was
  | put stored k place _ result _ =>
    obtain ⟨same, _⟩ := putIntent_some result
    rw [same] at found
    rcases Table.get_insert_cases _ _ _ _ found with old | ⟨rfl, rfl⟩
    · exact Or.inl old
    · cases finalized
  | verified b row document _ _ _ result =>
    rw [result] at found
    exact Or.inl found

/-- The intent just finalized is no longer pending. -/
theorem finalize_ends {final : PublicationIntent}
    (result : finalizeIntent s.db a final = some s'.db) (found : s'.db.intents.get a = some intent) :
    intent.completed = .finalized := by
  rw [(finalize_some result).2.2.2.1] at found
  obtain ⟨old, _, rfl⟩ := Table.get_modify_cases _ _ _ _ _ found
  rw [if_pos rfl]

/-- The job of the intent was discarded, and its row is there. -/
def Refused (db : Db) (intent : PublicationIntent) : Prop :=
  ∃ id job, intent.jobId = some id ∧ db.jobs.get id = some job ∧ Discarded job

/-- An admission leaves the intents as they are or invalidates the one whose job was discarded. -/
theorem admit_keeps {db db' : Db} {pass : Bool} (ok : DbOk db) (known : Known db a intent)
    (result : admitPendingPublication db a intent = some (db', pass)) {b : Nat} {stored : PublicationIntent}
    (found : db.intents.get b = some stored) : db'.intents.get b = some stored ∨
      (b = a ∧ stored.completed = .pending ∧ Refused db stored ∧
        db'.intents.get b = some { stored with completed := .invalidated }) := by
  unfold admitPendingPublication at result
  split at result
  · rename_i pending
    have there := known.pending pending
    cases owner : intent.jobId with
    | none =>
      simp only [owner, Option.some.injEq, Prod.mk.injEq] at result
      rw [← result.1]
      exact Or.inl found
    | some id =>
      simp only [owner] at result
      cases row : db.jobs.get id with
      | none =>
        simp only [row, Option.some.injEq, Prod.mk.injEq] at result
        rw [← result.1]
        exact Or.inl found
      | some job =>
        simp only [row] at result
        split at result
        · cases result
        split at result
        · rename_i ended
          cases result
          have discarded : Discarded job := by
            rcases ended with status | status | control
            · exact (ok.rows id job row).discarded.mpr (Or.inl status)
            · exact (ok.rows id job row).discarded.mpr (Or.inr status)
            · exact control
          by_cases same : b = a
          · subst same
            cases found.symm.trans there
            exact Or.inr ⟨rfl, rfl, ⟨id, job, owner, row, discarded⟩, by rw [Table.get_modify_self, found]; rfl⟩
          · exact Or.inl (by rw [Table.get_modify_of_ne _ _ _ _ same]; exact found)
        · cases result
          exact Or.inl found
  · cases result
    exact Or.inl found

/-- A step of the worker finalizes an intent, invalidates it on its admission, or leaves it as it is. -/
theorem Publishes.kept (publishes : Publishes s s') (ok : SystemOk s) (found : s.db.intents.get a = some intent) :
    s'.db.intents.get a = some intent ∨
      (∃ stored k, s.pc = .finalize a stored k ∧ finalizeIntent s.db a stored = some s'.db ∧
        s'.db.intents.get a = some { intent with completed := .finalized }) ∨
      (∃ stored k, s.pc = .admitting a stored k ∧ intent.completed = .pending ∧ Refused s.db intent ∧
        s'.db.intents.get a = some { intent with completed := .invalidated }) := by
  have before := ok.pc
  cases publishes with
  | quiet same _ _ =>
    rw [same]
    exact Or.inl found
  | admitted b refused k place pass result _ =>
    rw [place] at before
    rcases admit_keeps ok.db before.1 result found with same | ⟨rfl, pending, job, after⟩
    · exact Or.inl same
    · exact Or.inr (Or.inr ⟨refused, k, place, pending, job, after⟩)
  | finalized b final k place result _ =>
    rw [(finalize_some result).2.2.2.1]
    by_cases same : a = b
    · subst same
      exact Or.inr (Or.inl ⟨final, k, place, result, by rw [Table.get_modify_self, found]; rfl⟩)
    · rw [Table.get_modify_of_ne _ _ _ _ same]
      exact Or.inl found
  | put stored k place _ result _ =>
    rw [(putIntent_some result).1]
    exact Or.inl (Table.get_insert_of_get _ _ _ _ found)
  | verified b row document _ _ _ result =>
    rw [result]
    exact Or.inl found

end Publishes

end NixHomeServer.Browsertrix
