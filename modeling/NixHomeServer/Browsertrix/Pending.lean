import NixHomeServer.Browsertrix.Intents

/-! The pending intents of a job: a job has at most one, it then is packaging or failed, and a
job whose archive was finalized as completed has none and stays completed. -/
namespace NixHomeServer.Browsertrix

open NixHomeServer.Library

def NoPending (db : Db) (id : Nat) : Prop :=
  ∀ a intent, db.intents.get a = some intent → intent.completed = .pending → intent.jobId ≠ some id

/-- An archive of the job was finalized as completed. -/
def Concluded (db : Db) (id : Nat) : Prop :=
  db.intents.select (fun _ intent => intent.jobId == some id && intent.finalStatus == .completed &&
    intent.completed == .finalized) ≠ []

instance (db : Db) (id : Nat) : Decidable (Concluded db id) := inferInstanceAs (Decidable (_ ≠ _))

/-- What a pending intent leaves its job in. -/
def Waiting (job : Job) : Prop := job.status = .packaging ∨ job.status = .failed

structure QueueOk (db : Db) : Prop where
  calm : ∀ a intent, db.intents.get a = some intent → intent.completed = .pending →
    ∀ id, intent.jobId = some id → Holds db id (fun job => ¬Discarded job)
  waiting : ∀ a intent, db.intents.get a = some intent → intent.completed = .pending →
    ∀ id, intent.jobId = some id → Holds db id Waiting
  single : ∀ a b first second, db.intents.get a = some first → db.intents.get b = some second →
    first.completed = .pending → second.completed = .pending →
    ∀ id, first.jobId = some id → second.jobId = some id → a = b
  concluded : ∀ id, Concluded db id → Holds db id Finished

/-- The job of the row has no pending intent. -/
def Idle (db : Db) (id : Nat) : Prop := Holds db id fun _ => NoPending db id

/-- No archive of the row's job was finalized as completed. -/
def Unconcluded (db : Db) (id : Nat) : Prop := Holds db id fun _ => ¬Concluded db id

def Boot (db : Db) (ids : List Nat) : Prop :=
  ∀ a intent, db.intents.get a = some intent → intent.completed = .pending → a ∈ ids

/-- What is true of the pending intents at a place of the worker. -/
def Return.Waits (db : Db) : Return → List Nat → Prop
  | .boot rest, now => Boot db (now ++ rest)
  | .reconcile id _, _ => Holds db id Packaging ∧ Idle db id
  | _, _ => True

def PlaceOk (db : Db) : Pc → Prop
  | .pending k => k.Waits db []
  | .admitting a _ k | .place _ a _ k | .finalize a _ k => k.Waits db [a]
  | .interrupt => Boot db []
  | .inspect id _ _ _ | .estimate id _ _ _ | .working id _ | .document id _
  | .put _ (.captured id _ _) | .put _ (.operated id) => Idle db id
  | .status id _ _ => Idle db id ∧ Unconcluded db id
  | .fail id => Unconcluded db id
  | _ => True

theorem concluded_iff {db : Db} {id : Nat} : Concluded db id ↔ ∃ a intent, db.intents.get a = some intent ∧
    intent.jobId = some id ∧ intent.finalStatus = .completed ∧ intent.completed = .finalized := by
  unfold Concluded
  rw [ne_eq, Table.select_eq_nil]
  push Not
  simp only [Bool.not_eq_false, Bool.and_eq_true, beq_iff_eq, and_assoc]

/-- The rows of a queue are rows of an earlier one, or new. -/
structure Later (db db' : Db) : Prop where
  next : db.jobs.next ≤ db'.jobs.next
  rows : ∀ id job', db'.jobs.get id = some job' → (∃ job, db.jobs.get id = some job) ∨ db.jobs.next ≤ id

theorem Requests.later {db db' : Db} (requests : Requests db db') : Later db db' := by
  refine ⟨requests.next, fun id job' found => ?_⟩
  rcases requests.rows id job' found with ⟨job, was, _⟩ | ⟨high, _⟩
  · exact Or.inl ⟨job, was⟩
  · exact Or.inr high

theorem Works.later {directories : Nat → Option (Option String)} {pc : Pc} {db db' : Db}
    (works : Works directories pc db db') : Later db db' := by
  refine ⟨works.next, fun id job' found => ?_⟩
  rcases works.rows id job' found with ⟨job, was, _⟩ | ⟨_, high, _⟩
  · exact Or.inl ⟨job, was⟩
  · exact Or.inr high

/-- What does not speak of the row, kept where the row is kept. -/
theorem Holds.later {db db' : Db} {id : Nat} {p q : Prop} (later : Later db db') (kept : p → q)
    (held : Holds db id fun _ => p) : Holds db' id fun _ => q := by
  refine ⟨Nat.lt_of_lt_of_le held.1 later.next, fun job' found => ?_⟩
  rcases later.rows id job' found with ⟨job, was⟩ | high
  · exact kept (held.2 job was)
  · exact absurd held.1 (Nat.not_lt.mpr high)

section Db

variable {db db' : Db} {id : Nat} {p : Job → Prop}

theorem QueueOk.idle (ok : QueueOk db) (held : Holds db id p) (apart : ∀ job, p job → ¬Waiting job) :
    Idle db id := by
  refine ⟨held.1, fun job found a intent there pending owner => ?_⟩
  exact apart job (held.2 job found) ((ok.waiting a intent there pending id owner).2 job found)

theorem QueueOk.unconcluded (ok : QueueOk db) (held : Holds db id p) (apart : ∀ job, p job → ¬Finished job) :
    Unconcluded db id :=
  ⟨held.1, fun job found concluded => apart job (held.2 job found) ((ok.concluded id concluded).2 job found)⟩

theorem starting_apart (job : Job) (starting : Starting job) : ¬Waiting job ∧ ¬Finished job := by
  rcases starting with same | same <;> simp [Waiting, Finished, same]

theorem running_apart (job : Job) (running : Running job) : ¬Waiting job ∧ ¬Finished job := by
  rcases running with same | same <;> simp [Waiting, Finished, same]

theorem packaging_apart (job : Job) (packaging : Packaging job) : ¬Finished job := by
  have same : job.status = .packaging := packaging
  simp [Finished, same]

theorem waiting_stable : Stable Waiting := by
  intro job job' _ requested waiting
  cases requested with
  | same => exact waiting
  | controlled _ accepted _ _ =>
    rcases waiting with status | status <;> simp [status] at accepted
  | resumed _ _ accepted _ =>
    rcases waiting with status | status <;> simp [status] at accepted
  | ended accepted =>
    rcases waiting with status | status <;> simp [status] at accepted
  | ending accepted =>
    rcases waiting with status | status <;> simp [status] at accepted

theorem Requests.stored (requests : Requests db db') {a : Nat} {intent : PublicationIntent}
    (found : db'.intents.get a = some intent) (kept : intent.completed ≠ .invalidated) :
    db.intents.get a = some intent := by
  cases was : db.intents.get a with
  | none =>
    rw [requests.absent a was] at found
    cases found
  | some old =>
    rcases requests.invalidated a old was with same | ⟨_, after, _⟩
    · exact (same.symm.trans found).symm ▸ rfl
    · cases after.symm.trans found
      exact absurd rfl kept

theorem Requests.noPending (requests : Requests db db') (idle : NoPending db id) : NoPending db' id := by
  intro a intent found pending
  exact idle a intent (requests.stored found (by rw [pending]; simp)) pending

theorem Requests.unconcluded (requests : Requests db db') (open_job : ¬Concluded db id) : ¬Concluded db' id := by
  intro concluded
  obtain ⟨a, intent, found, owner, completed, finalized⟩ := concluded_iff.mp concluded
  exact open_job (concluded_iff.mpr ⟨a, intent, requests.stored found (by rw [finalized]; simp), owner, completed, finalized⟩)

theorem QueueOk.requests (ok : QueueOk db) (rows : DbOk db) (requests : Requests db db') : QueueOk db' where
  calm a intent found pending id owner := by
    obtain ⟨bound, free⟩ := ok.calm a intent (requests.stored found (by rw [pending]; simp)) pending id owner
    refine ⟨Nat.lt_of_lt_of_le bound requests.next, fun row' there discarded => ?_⟩
    rcases requests.rows id row' there with ⟨row, before, _⟩ | ⟨high, _⟩
    · exact requests.discards id row row' before there (free row before) discarded a intent found owner pending
    · omega
  waiting a intent found pending id owner :=
    (ok.waiting a intent (requests.stored found (by rw [pending]; simp)) pending id owner).requests rows requests
      waiting_stable
  single a b first second found there pending pending' id owner owner' :=
    ok.single a b first second (requests.stored found (by rw [pending]; simp))
      (requests.stored there (by rw [pending']; simp)) pending pending' id owner owner'
  concluded id concluded := by
    have before : Concluded db id := by
      by_contra other
      exact requests.unconcluded other concluded
    exact (ok.concluded id before).requests rows requests finished_stable

theorem Return.Waits.requests (requests : Requests db db') (rows : DbOk db) {k : Return} {now : List Nat}
    (waits : k.Waits db now) : k.Waits db' now := by
  cases k with
  | boot rest =>
    intro a intent found pending
    exact waits a intent (requests.stored found (by rw [pending]; simp)) pending
  | reconcile id rest =>
    exact ⟨waits.1.requests rows requests packaging_stable, waits.2.later requests.later requests.noPending⟩
  | _ => trivial

theorem PlaceOk.requests (requests : Requests db db') (rows : DbOk db) {pc : Pc} (before : PlaceOk db pc) :
    PlaceOk db' pc := by
  have idle : ∀ {id : Nat}, Idle db id → Idle db' id := fun held => held.later requests.later requests.noPending
  have unconcluded : ∀ {id : Nat}, Unconcluded db id → Unconcluded db' id := fun held =>
    held.later requests.later requests.unconcluded
  cases pc with
  | pending k | admitting _ _ k | place _ _ _ k | finalize _ _ k => exact Return.Waits.requests requests rows before
  | interrupt =>
    intro a intent found pending
    exact before a intent (requests.stored found (by rw [pending]; simp)) pending
  | inspect _ _ _ _ | estimate _ _ _ _ | working _ _ | document _ _ => exact idle before
  | put _ k =>
    cases k with
    | captured _ _ _ | operated _ => exact idle before
    | _ => trivial
  | status _ _ _ => exact ⟨idle before.1, unconcluded before.2⟩
  | fail _ => exact unconcluded before
  | _ => trivial

end Db

section Rows

variable {gone admits : Prop} {records : Option JobStatus} {job job' : Job}

/-- A job keeps what its pending intent leaves it in through every step that sets no other status. -/
theorem Worked.waiting (worked : Worked gone admits records job job') (free : ¬Discarded job)
    (waiting : Waiting job) (sets : ∀ next, records = some next → next = .failed) : Waiting job' := by
  cases worked with
  | same => exact waiting
  | claimed queued => exact (by simp [Waiting, queued] at waiting)
  | begun rt starting _ _ _ _ => exact (by simp [Waiting, starting] at waiting)
  | preserved rt place _ => exact waiting
  | frozen rt running _ _ _ => exact Or.inl rfl
  | operating starting _ => exact Or.inl rfl
  | dropped discarded => exact absurd discarded free
  | refused discarded => exact absurd discarded free
  | admitted _ _ => exact Or.inl rfl
  | finalized a intent here packaging final =>
    have failed := sets _ here
    rcases final with same | same | same <;> simp [same] at failed
  | stored rt place _ _ => exact waiting
  | status status here _ _ => exact Or.inr (sets status here)
  | interrupted here _ _ => exact Or.inr (sets _ here)
  | restored saved paused _ => exact (by simp [Waiting, paused] at waiting)
  | cleaned _ discarded => exact absurd discarded free

/-- A completed job stays completed through every step that admits no intent of it and sets no other status. -/
theorem Worked.finished (worked : Worked gone admits records job job') (row : RowOk job) (finished : Finished job)
    (other : ¬admits) (sets : ∀ next, records = some next → next = .completed) : Finished job' := by
  have status : job.status = .completed := finished
  have free : ¬Discarded job := by
    intro discarded
    rcases row.discarded.mp discarded with same | same <;> simp [status] at same
  cases worked with
  | same => exact finished
  | claimed queued => simp [status] at queued
  | begun rt starting _ _ _ _ => simp [status] at starting
  | preserved rt place _ => exact finished
  | frozen rt running _ _ _ => simp [status] at running
  | operating starting _ => simp [status] at starting
  | dropped discarded => exact absurd discarded free
  | refused discarded => exact absurd discarded free
  | admitted here _ => exact absurd here other
  | finalized a intent here packaging _ =>
    have same : job.status = .packaging := packaging
    simp [status] at same
  | stored rt place _ _ => exact finished
  | status next here _ _ => exact sets next here
  | interrupted here _ _ => exact sets _ here
  | restored saved paused _ => exact finished
  | cleaned _ discarded => exact absurd discarded free

end Rows

theorem Pc.records_cases {pc : Pc} {id : Nat} {job : Job} {next : JobStatus}
    (records : pc.records id job = some next) :
    (∃ a intent k, pc = .finalize a intent k ∧ intent.jobId = some id) ∨
      (∃ after, pc = .status id next after) ∨ (pc = .fail id ∧ next = .failed) ∨
      (pc = .interrupt ∧ ¬Finished job) := by
  unfold Pc.records at records
  split at records
  · split at records
    · rename_i owner
      exact Or.inl ⟨_, _, _, rfl, owner⟩
    · cases records
  · split at records
    · rename_i same
      cases records
      subst same
      exact Or.inr (Or.inl ⟨_, rfl⟩)
    · cases records
  · split at records
    · rename_i same
      cases records
      subst same
      exact Or.inr (Or.inr (Or.inl ⟨rfl, rfl⟩))
    · cases records
  · refine Or.inr (Or.inr (Or.inr ⟨rfl, ?_⟩))
    intro finished
    have status : job.status = .completed := finished
    simp [status] at records
  · cases records

section Work

variable {s s' : System}

/-- At the finalization of one intent its job has no other pending one. -/
theorem finalizing (queue : QueueOk s.db) (ok : SystemOk s) {a b : Nat} {intent other : PublicationIntent}
    {k : Return} {id : Nat} (place : s.pc = .finalize a intent k) (owner : intent.jobId = some id)
    (found : s.db.intents.get b = some other) (pending : other.completed = .pending)
    (same : other.jobId = some id) : b = a := by
  have before := ok.pc
  rw [place] at before
  exact queue.single b a other _ found before.1.1 pending rfl id same owner

theorem Publishes.waiting (publishes : Publishes s s') (works : Works s.directories s.pc s.db s'.db)
    (ok : SystemOk s) (queue : QueueOk s.db) (placed : PlaceOk s.db s.pc) {a : Nat}
    {intent : PublicationIntent} (found : s'.db.intents.get a = some intent) (pending : intent.completed = .pending)
    {id : Nat} (owner : intent.jobId = some id) : Holds s'.db id Waiting := by
  rcases publishes.pending found pending with old | ⟨stored, k, place, rfl, rfl, result⟩
  · have held := queue.waiting a intent old pending id owner
    have free := queue.calm a intent old pending id owner
    refine ⟨Nat.lt_of_lt_of_le held.1 works.next, fun job' there => ?_⟩
    rcases works.rows id job' there with ⟨job, was, worked⟩ | ⟨_, high, _⟩
    · by_cases changed : s'.db = s.db
      · rw [changed] at there
        exact held.2 job' there
      refine worked.waiting (free.2 job was) (held.2 job was) fun next records => ?_
      rcases Pc.records_cases records with ⟨b, final, k, place, same⟩ | ⟨after, place⟩ | ⟨_, same⟩ | ⟨place, _⟩
      · have here := finalizing queue ok place same old pending owner
        subst here
        cases publishes with
        | quiet _ _ still =>
          rcases still with still | other
          · exact absurd still changed
          · rw [place] at other
            cases other
        | finalized c other k' place' result _ =>
          cases place.symm.trans place'
          have ended := finalize_ends result found
          rw [pending] at ended
          cases ended
        | admitted _ _ _ place' _ _ _ => cases place.symm.trans place'
        | put _ _ place' _ _ _ => cases place.symm.trans place'
        | verified _ _ _ other _ _ _ =>
          rw [place] at other
          cases other
      · rw [place] at placed
        exact absurd owner (placed.1.2 job was a intent old pending)
      · exact same
      · rw [place] at placed
        cases placed a intent old pending
    · exact absurd held.1 (Nat.not_lt.mpr high)
  · obtain ⟨same, allowed⟩ := putIntent_some result
    obtain ⟨job, there, _, packaging, _⟩ := allowed id owner
    rw [same]
    exact .read there (Or.inl packaging)

/-- Where an intent is put, its job has no pending one. -/
theorem put_idle (ok : SystemOk s) (placed : PlaceOk s.db s.pc) {intent : PublicationIntent} {k : Return} {id : Nat}
    (place : s.pc = .put intent k) (owner : intent.jobId = some id) (result : putIntent s.db intent = some s'.db) :
    NoPending s.db id := by
  obtain ⟨job, found, _⟩ := (putIntent_some result).2 id owner
  have before := ok.pc
  rw [place] at before placed
  cases k with
  | captured x rt final =>
    cases owner.symm.trans before.2.2.2.1
    exact placed.2 job found
  | operated x =>
    cases owner.symm.trans before.2.1
    exact placed.2 job found
  | _ => exact before.elim

theorem Publishes.single (publishes : Publishes s s') (ok : SystemOk s) (queue : QueueOk s.db)
    (placed : PlaceOk s.db s.pc) {a b : Nat} {first second : PublicationIntent}
    (found : s'.db.intents.get a = some first) (there : s'.db.intents.get b = some second)
    (pending : first.completed = .pending) (pending' : second.completed = .pending) {id : Nat}
    (owner : first.jobId = some id) (owner' : second.jobId = some id) : a = b := by
  rcases publishes.pending found pending with old | ⟨stored, k, place, rfl, rfl, result⟩
  · rcases publishes.pending there pending' with old' | ⟨stored, k, place, rfl, rfl, result⟩
    · exact queue.single a b first second old old' pending pending' id owner owner'
    · exact absurd owner (put_idle ok placed place owner' result a first old pending)
  · rcases publishes.pending there pending' with old' | ⟨_, _, _, rfl, _⟩
    · exact absurd owner' (put_idle ok placed place owner result b second old' pending')
    · rfl

/-- An intent of a completed job that the worker admits is not pending any more. -/
theorem admit_concluded (queue : QueueOk s.db) (ok : SystemOk s) {a : Nat} {intent : PublicationIntent}
    {k : Return} {id : Nat} {job : Job} (place : s.pc = .admitting a intent k) (owner : intent.jobId = some id)
    (found : s.db.jobs.get id = some job) (finished : Finished job) {db : Db} {pass : Bool}
    (result : admitPendingPublication s.db a intent = some (db, pass)) : db = s.db := by
  have before := ok.pc
  rw [place] at before
  unfold admitPendingPublication at result
  split at result
  · rename_i pending
    have stored := before.1.pending pending
    have waiting := (queue.waiting a _ stored rfl id owner).2 job found
    have status : job.status = .completed := finished
    simp [Waiting, status] at waiting
  · cases result
    rfl

theorem Publishes.concluded (publishes : Publishes s s') (works : Works s.directories s.pc s.db s'.db)
    (ok : SystemOk s) (queue : QueueOk s.db) (placed : PlaceOk s.db s.pc) {id : Nat}
    (concluded : Concluded s'.db id) : Holds s'.db id Finished := by
  obtain ⟨a, intent, found, owner, completed, finalized⟩ := concluded_iff.mp concluded
  rcases publishes.finalized_cases found finalized with old | ⟨stored, k, before, place, was, rfl, result⟩
  · have already : Concluded s.db id := concluded_iff.mpr ⟨a, intent, old, owner, completed, finalized⟩
    have held := queue.concluded id already
    refine ⟨Nat.lt_of_lt_of_le held.1 works.next, fun job' there => ?_⟩
    rcases works.rows id job' there with ⟨job, was, worked⟩ | ⟨_, high, _⟩
    · have finished := held.2 job was
      by_cases changed : s'.db = s.db
      · rw [changed] at there
        exact held.2 job' there
      refine worked.finished (ok.db.rows id job was) finished (fun admits => ?_) fun next records => ?_
      · obtain ⟨b, admitted, k, place, same⟩ := Pc.admits_iff.mp admits
        cases publishes with
        | quiet _ _ still =>
          rcases still with still | other
          · exact changed still
          · rw [place] at other
            cases other
        | admitted c other k' place' pass result _ =>
          cases place.symm.trans place'
          exact changed (admit_concluded queue ok place same was finished result)
        | finalized _ _ _ place' _ _ => cases place.symm.trans place'
        | put _ _ place' _ _ _ => cases place.symm.trans place'
        | verified _ _ _ other _ _ _ =>
          rw [place] at other
          cases other
      · rcases Pc.records_cases records with ⟨b, final, k, place, same⟩ | ⟨after, place⟩ | ⟨place, _⟩ | ⟨_, running⟩
        · have before := ok.pc
          rw [place] at before
          exact absurd finished (packaging_apart job ((before.1.packaging same).2 job was))
        · rw [place] at placed
          exact absurd already (placed.2.2 job was)
        · rw [place] at placed
          exact absurd already (placed.2 job was)
        · exact absurd finished running
    · exact absurd held.1 (Nat.not_lt.mpr high)
  · have admitted := ok.pc
    rw [place] at admitted
    cases was.symm.trans admitted.1.1
    have owned := admitted.1.2 id owner
    have same := (finalize_some result).2.2.2.2
    rw [show stored.jobId = some id from owner] at same
    refine ⟨Nat.lt_of_lt_of_le owned.1 works.next, fun job' there => ?_⟩
    rw [same] at there
    obtain ⟨job, was, rfl⟩ := Table.get_modify_cases _ _ _ _ _ there
    rw [if_pos rfl, Job.finalized, if_pos (owned.2 job was).2]
    exact completed

theorem Publishes.calm (publishes : Publishes s s') (works : Works s.directories s.pc s.db s'.db)
    (ok : SystemOk s) (queue : QueueOk s.db) {a : Nat} {intent : PublicationIntent}
    (found : s'.db.intents.get a = some intent) (pending : intent.completed = .pending)
    {id : Nat} (owner : intent.jobId = some id) : Holds s'.db id (fun job => ¬Discarded job) := by
  have before : Holds s.db id (fun job => ¬Discarded job) := by
    rcases publishes.pending found pending with old | ⟨stored, k, place, rfl, rfl, result⟩
    · exact queue.calm a intent old pending id owner
    · obtain ⟨job, there, _, _, free⟩ := (putIntent_some result).2 id owner
      exact .read there free
  exact before.works works fun job _ there worked free discarded =>
    free ((worked.discarded (ok.db.rows id job there)).mp discarded)

theorem QueueOk.publishes (queue : QueueOk s.db) (publishes : Publishes s s')
    (works : Works s.directories s.pc s.db s'.db) (ok : SystemOk s) (placed : PlaceOk s.db s.pc) :
    QueueOk s'.db where
  calm _ _ found pending _ owner := publishes.calm works ok queue found pending owner
  waiting _ _ found pending _ owner := publishes.waiting works ok queue placed found pending owner
  single _ _ _ _ found there pending pending' _ owner owner' :=
    publishes.single ok queue placed found there pending pending' owner owner'
  concluded _ concluded := publishes.concluded works ok queue placed concluded

end Work

section Places

variable {db db' : Db} {id : Nat} {a : Nat} {intent : PublicationIntent} {k : Return}

theorem Idle.quiet (later : Later db db') (same : db'.intents = db.intents) (idle : Idle db id) : Idle db' id := by
  refine Holds.later later (fun before => ?_) idle
  unfold NoPending
  rw [same]
  exact before

theorem Unconcluded.quiet (later : Later db db') (same : db'.intents = db.intents)
    (unconcluded : Unconcluded db id) : Unconcluded db' id := by
  refine Holds.later later (fun before => ?_) unconcluded
  unfold Concluded
  rw [same]
  exact before

theorem Later.modify (db : Db) (id : Nat) (f : Job → Job) : Later db (db.modifyJob id f) := by
  refine ⟨Nat.le_refl _, fun x job' found => ?_⟩
  obtain ⟨job, was, _⟩ := Table.get_modify_cases _ _ _ _ _ found
  exact Or.inl ⟨job, was⟩

/-- The status a job is given while it is starting or running. -/
theorem PlaceOk.status {p : Job → Prop} (queue : QueueOk db) (held : Holds db id p)
    (apart : ∀ job, p job → ¬Waiting job ∧ ¬Finished job) (status : JobStatus) (after : After) :
    PlaceOk db (.status id status after) :=
  ⟨queue.idle held fun job holds => (apart job holds).1,
    queue.unconcluded held fun job holds => (apart job holds).2⟩

theorem Return.Waits.failed {now : List Nat} (queue : QueueOk db) (before : k.Ok db a intent) (waits : k.Waits db now) :
    PlaceOk db k.failed := by
  cases k with
  | boot _ => trivial
  | reconcile _ _ => exact queue.unconcluded waits.1 packaging_apart
  | captured _ _ _ => exact queue.unconcluded (before.2.2.2.2.packaging before.1) packaging_apart
  | operated _ => exact queue.unconcluded (before.2.packaging before.1) packaging_apart

theorem Return.Waits.next (waits : k.Waits db []) : PlaceOk db k.next := by
  cases k with
  | boot _ | reconcile _ _ => exact waits
  | captured id rt final =>
    simp only [Return.next]
    split <;> trivial
  | operated _ => trivial

theorem Worked.packaging {gone admits : Prop} {job job' : Job} (worked : Worked gone admits none job job')
    (free : ¬Discarded job) (packaging : Packaging job) : Packaging job' := by
  have status : job.status = .packaging := packaging
  cases worked with
  | same => exact packaging
  | claimed queued => simp [status] at queued
  | begun rt starting _ _ _ _ => simp [status] at starting
  | preserved rt place _ => exact packaging
  | frozen rt running _ _ _ => rfl
  | operating starting _ => rfl
  | dropped discarded => exact absurd discarded free
  | refused discarded => exact absurd discarded free
  | admitted _ _ => rfl
  | finalized a intent here _ _ => cases here
  | stored rt place _ _ => exact packaging
  | status _ here _ _ => cases here
  | interrupted here _ _ => cases here
  | restored saved paused _ => exact packaging
  | cleaned _ discarded => exact absurd discarded free

end Places

section Publication

variable {s : System} {a : Nat} {intent : PublicationIntent} {k : Return} (sha256 : Content → String)
  (now : Nat) (input : Input)

/-- A job that is reconciling stays packaging while intents of other jobs are published. -/
theorem reconciling (ok : SystemOk s) {id : Nat} {s' : System} (works : Works s.directories s.pc s.db s'.db)
    (publishes : Publishes s s') (held : Holds s.db id Packaging) (idle : Idle s.db id)
    (silent : ∀ job, s.db.jobs.get id = some job → NoPending s.db id → s.pc.records id job = none)
    (unput : ∀ intent k, s.pc ≠ .put intent k) : Holds s'.db id Packaging ∧ Idle s'.db id := by
  constructor
  · refine held.works works fun job job' found worked packaging => ?_
    rw [silent job found (idle.2 job found)] at worked
    refine worked.packaging (fun discarded => ?_) packaging
    have status : job.status = .packaging := packaging
    rcases (ok.db.rows id job found).discarded.mp discarded with same | same <;> simp [status] at same
  · refine Holds.later works.later (fun before b stored found pending => ?_) idle
    rcases publishes.pending found pending with old | ⟨put, k, place, _⟩
    · exact before b stored old pending
    · exact absurd place (unput put k)

theorem admit_placed (ok : SystemOk s) (queue : QueueOk s.db) (placed : PlaceOk s.db s.pc)
    (place : s.pc = .admitting a intent k) : PlaceOk (work sha256 s now input).db (work sha256 s now input).pc := by
  have works := (work_stepped sha256 ok now input).works
  have publishes := work_publishes sha256 s now input
  have before := ok.pc
  rw [place] at before placed
  have failed : PlaceOk s.db k.failed := Return.Waits.failed queue before.2 placed
  have carried : ∀ id rest, k = .reconcile id rest →
      Holds (work sha256 s now input).db id Packaging ∧ Idle (work sha256 s now input).db id := by
    intro id rest same
    subst same
    refine reconciling ok works publishes placed.1 placed.2 (fun job _ _ => ?_) (fun _ _ put => ?_)
    · rw [place]
      rfl
    · cases place.symm.trans put
  revert carried works publishes
  simp only [work, place]
  cases result : admitPendingPublication s.db a intent with
  | none => exact fun _ _ _ => failed
  | some both =>
    obtain ⟨db, pass⟩ := both
    obtain ⟨_, stored, refused⟩ := admit_some result
    have pending : ∀ b other, db.intents.get b = some other → other.completed = .pending →
        s.db.intents.get b = some other := fun b other found still => stored b other found (by rw [still]; simp)
    cases pass with
    | true =>
      intro _ _ carried
      cases k with
      | boot rest => exact fun b other found still => placed b other (pending b other found still) still
      | reconcile id rest => exact carried id rest rfl
      | _ => trivial
    | false =>
      intro _ _ carried
      apply Return.Waits.next
      cases k with
      | boot rest =>
        intro b other found still
        rcases List.mem_cons.mp (placed b other (pending b other found still) still) with same | member
        · subst same
          exact absurd still (refused rfl other found)
        · exact member
      | reconcile id rest => exact carried id rest rfl
      | _ => trivial

theorem finalize_placed (ok : SystemOk s) (queue : QueueOk s.db) (placed : PlaceOk s.db s.pc)
    (place : s.pc = .finalize a intent k) : PlaceOk (work sha256 s now input).db (work sha256 s now input).pc := by
  have works := (work_stepped sha256 ok now input).works
  have publishes := work_publishes sha256 s now input
  have before := ok.pc
  rw [place] at before placed
  have failed : PlaceOk s.db k.failed := Return.Waits.failed queue before.2 placed
  have carried : ∀ id rest, k = .reconcile id rest →
      Holds (work sha256 s now input).db id Packaging ∧ Idle (work sha256 s now input).db id := by
    intro id rest same
    subst same
    refine reconciling ok works publishes placed.1 placed.2 (fun job _ none => ?_) (fun _ _ put => ?_)
    · rw [place]
      exact if_neg (none a _ before.1.1 rfl)
    · cases place.symm.trans put
  revert carried works publishes
  simp only [work, place]
  cases result : finalizeIntent s.db a intent with
  | none => exact fun _ _ _ => failed
  | some db =>
    intro _ _ carried
    apply Return.Waits.next
    cases k with
    | boot rest =>
      intro b other found still
      have same := (finalize_some result).2.2.2.1
      rw [same] at found
      obtain ⟨old, was, rfl⟩ := Table.get_modify_cases _ _ _ _ _ found
      split at still
      · cases still
      · rename_i distinct
        rcases List.mem_cons.mp (placed b old was still) with same | member
        · exact absurd same distinct
        · exact member
    | reconcile id rest => exact carried id rest rfl
    | _ => trivial

theorem pending_placed (ok : SystemOk s) (queue : QueueOk s.db) (placed : PlaceOk s.db s.pc) (place : s.pc = .pending k) :
    PlaceOk (work sha256 s now input).db (work sha256 s now input).pc := by
  have before := ok.pc
  rw [place] at before placed
  cases k with
  | boot rest =>
    cases rest with
    | nil =>
      simp only [work, place]
      exact placed
    | cons a rest =>
      simp only [work, place]
      have later : pendingIntent s.db a = none → Boot s.db rest := by
        intro absent b other there still
        rcases List.mem_cons.mp (placed b other there still) with same | member
        · subst same
          simp [pendingIntent, there, still] at absent
        · exact member
      cases found : pendingIntent s.db a with
      | some intent => exact placed
      | none => exact later found
  | reconcile id rest =>
    cases rest with
    | nil =>
      simp only [work, place]
      exact ⟨placed.2, queue.unconcluded placed.1 packaging_apart⟩
    | cons a rest =>
      simp only [work, place]
      cases found : pendingIntent s.db a with
      | some intent => exact placed
      | none => exact placed
  | _ => exact before.elim

end Publication

section Places

variable {s : System} {id : Nat} {job : Job} {rt : JobRuntime} (sha256 : Content → String) (now : Nat) (input : Input)

theorem capture_placed {outcome : Outcome} (ok : SystemOk s) (queue : QueueOk s.db)
    (place : s.pc = .package id job rt outcome) :
    PlaceOk (work sha256 s now input).db (work sha256 s now input).pc := by
  have before := ok.pc
  rw [place] at before
  have running : Holds s.db id Running := before.1
  have failed : PlaceOk s.db (.fail id) := queue.unconcluded running fun job holds => (running_apart job holds).2
  have status : ∀ status after, PlaceOk s.db (.status id status after) := PlaceOk.status queue running running_apart
  simp only [work, place]
  by_cases unready : outcome.policyReady = false
  · rw [if_pos unready]
    exact failed
  rw [if_neg unready]
  by_cases unpackaged : outcome.packaged = false
  · rw [if_pos unpackaged]
    cases rt.canResume <;> exact status _ _
  rw [if_neg unpackaged]
  unfold preparePublication
  cases found : s.db.jobs.get id with
  | none => exact failed
  | some row =>
    simp only []
    rcases running.2 row found with same | same
    · simp only [same]
      exact (queue.idle running fun job holds => (running_apart job holds).1).quiet (Later.modify ..) rfl
    · simp only [same]
      exact status _ _

theorem operate_placed (ok : SystemOk s) (queue : QueueOk s.db) (place : s.pc = .operate id job) :
    PlaceOk (work sha256 s now input).db (work sha256 s now input).pc := by
  have before := ok.pc
  rw [place] at before
  have idle : Idle s.db id := queue.idle before.1 fun job holds => (starting_apart job holds).1
  simp only [work, place, beginFileOperation]
  cases found : s.db.jobs.get id with
  | none => trivial
  | some row =>
    simp only []
    by_cases free : row.createdBy = job.createdBy ∧ row.status = .starting ∧ row.runtime.control = none
    · rw [if_pos free]
      exact idle.quiet (Later.modify ..) rfl
    · rw [if_neg free]
      by_cases ended : row.createdBy = job.createdBy ∧ row.status = .cancelling
      · rw [if_pos ended]
        trivial
      · rw [if_neg ended]
        trivial

theorem working_placed (ok : SystemOk s) (queue : QueueOk s.db) (placed : PlaceOk s.db s.pc)
    (place : s.pc = .working id job) : PlaceOk (work sha256 s now input).db (work sha256 s now input).pc := by
  have before := ok.pc
  have after := placed
  rw [place] at before placed
  have packaging : Holds s.db id Packaging := before.1
  have idle : Idle s.db id := placed
  have failed : PlaceOk s.db (.fail id) := queue.unconcluded packaging packaging_apart
  simp only [work, place]
  split
  · exact idle
  · exact idle
  · split
    · exact failed
    · exact idle
  · split
    · exact failed
    · exact idle
  · exact ⟨idle, failed⟩
  · exact ⟨packaging, idle⟩
  · exact after

theorem work_placed (ok : SystemOk s) (queue : QueueOk s.db) (placed : PlaceOk s.db s.pc) :
    PlaceOk (work sha256 s now input).db (work sha256 s now input).pc := by
  have before := ok.pc
  have starting : ∀ {id : Nat}, Holds s.db id Starting → PlaceOk s.db (.fail id) ∧
      ∀ status after, PlaceOk s.db (.status id status after) := fun held =>
    ⟨queue.unconcluded held fun job holds => (starting_apart job holds).2, .status queue held starting_apart⟩
  have running : ∀ {id : Nat}, Holds s.db id Running → PlaceOk s.db (.fail id) ∧
      ∀ status after, PlaceOk s.db (.status id status after) := fun held =>
    ⟨queue.unconcluded held fun job holds => (running_apart job holds).2, .status queue held running_apart⟩
  cases place : s.pc with
  | pending k => exact pending_placed sha256 now input ok queue placed place
  | admitting a intent k => exact admit_placed sha256 now input ok queue placed place
  | place step a intent k =>
    rw [place] at before placed
    simp only [work, place]
    split
    · exact placed
    · exact placed
    · exact Return.Waits.failed queue before.2 placed
  | finalize a intent k => exact finalize_placed sha256 now input ok queue placed place
  | stopped | interrupt | clock _ _ _ | restore _ _ _ | cleanup _ _ _ | cleaned _ _ _ | top | dispatch
  | reason _ _ _ _ | tidy _ _ | record _ _ | inbox _ | fail _ =>
    simp only [work, place]
    trivial
  | checkpoint _ _ | claim | begin _ _ _ | settle _ _ _ _ | scratch _ =>
    simp only [work, place]
    split <;> trivial
  | list ids jobs boot =>
    cases ids with
    | nil =>
      simp only [work, place]
      trivial
    | cons id ids =>
      simp only [work, place]
      split <;> trivial
  | each jobs boot =>
    cases jobs with
    | nil =>
      simp only [work, place]
      cases boot <;> trivial
    | cons copy jobs =>
      simp only [work, place]
      split
      · trivial
      · split <;> trivial
  | claimed id =>
    simp only [work, place]
    split
    · trivial
    · split <;> trivial
  | prepare id job =>
    rw [place] at before
    simp only [work, place]
    split
    · exact (starting before.1).1
    · split
      · exact (starting before.1).1
      · trivial
  | before id job =>
    rw [place] at before
    simp only [work, place]
    split
    · exact (starting before.1).1
    · split
      · exact (starting before.1).2 _ _
      · split
        · exact (starting before.1).2 _ _
        · trivial
  | reread id =>
    rw [place] at before
    simp only [work, place]
    split
    · exact (starting before).1
    · exact (starting before).2 _ _
  | crawling id job rt reason =>
    rw [place] at before
    cases input with
    | poll limit =>
      simp only [work, place]
      split
      · exact (running before.1).1
      · trivial
    | _ =>
      simp only [work, place]
      trivial
  | drop id rt =>
    rw [place] at before
    simp only [work, place]
    obtain ⟨idle, unconcluded⟩ := (running before.1).2 .cancelled .top
    exact ⟨idle.quiet (Later.modify ..) rfl, unconcluded.quiet (Later.modify ..) rfl⟩
  | latest id job rt outcome =>
    rw [place] at before
    simp only [work, place]
    split
    · exact (running before.1).1
    · split
      · exact (running before.1).2 _ _
      · split <;> trivial
  | package id job rt outcome => exact capture_placed sha256 now input ok queue place
  | inspect id job rt final =>
    rw [place] at placed
    cases input with
    | inspected archive report source coverage =>
      simp only [work, place]
      split <;> exact placed
    | _ =>
      simp only [work, place]
      exact placed
  | estimate id rt intent final =>
    rw [place] at placed
    simp only [work, place]
    exact Idle.quiet (Later.modify ..) rfl placed
  | put intent k =>
    rw [place] at before placed
    have failed : PlaceOk s.db k.failed := by
      cases k with
      | captured id rt final => exact queue.unconcluded before.1 packaging_apart
      | operated id => exact queue.unconcluded before.1 packaging_apart
      | _ => exact before.elim
    simp only [work, place]
    split
    · exact failed
    · split
      · exact failed
      · cases k with
        | captured id rt final => trivial
        | operated id => trivial
        | _ => exact before.elim
  | published id rt =>
    rw [place] at before
    simp only [work, place]
    split
    · rename_i absent
      exact ⟨before.1.1, fun job found => by cases absent.symm.trans found⟩
    · trivial
  | operate id job => exact operate_placed sha256 now input ok queue place
  | working id job => exact working_placed sha256 now input ok queue placed place
  | document id rt =>
    rw [place] at before placed
    simp only [work, place]
    have unconcluded := queue.unconcluded before.1 packaging_apart
    exact ⟨Idle.quiet (Later.modify ..) rfl placed, unconcluded.quiet (Later.modify ..) rfl⟩
  | status id status after =>
    rw [place] at placed
    simp only [work, place]
    cases after with
    | fail => exact placed.2.quiet (Later.modify ..) rfl
    | _ => trivial

end Places

end NixHomeServer.Browsertrix
