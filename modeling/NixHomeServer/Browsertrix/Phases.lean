import NixHomeServer.Browsertrix.Rows

/-! The facts about rows and intents that the worker relies on at each place of its program, and
what keeps them: requests, which undo none of them, and its own transactions. -/
namespace NixHomeServer.Browsertrix

open NixHomeServer.Library

/-- The id was drawn, and the row that is under it, if there is one, has the property. -/
def Holds (db : Db) (id : Nat) (p : Job → Prop) : Prop :=
  id < db.jobs.next ∧ ∀ job, db.jobs.get id = some job → p job

def Starting (job : Job) : Prop := job.status = .starting ∨ job.status = .cancelling

def Running (job : Job) : Prop := job.status = .running ∨ job.status = .cancelling

def Packaging (job : Job) : Prop := job.status = .packaging

def Finished (job : Job) : Prop := job.status = .completed

def Recovered (job : Job) : Prop :=
  job.status = .paused ∨ job.status = .queued ∨ job.status = .cancelled

def Discarded (job : Job) : Prop := job.runtime.control = some .discard

def OfKind (operation : Operation) (job : Job) : Prop := job.runtime.operation = operation

/-- The statuses that a publication ends with. -/
def Final (status : JobStatus) : Prop := status = .completed ∨ status = .partly ∨ status = .paused

/-- A property of rows that no request undoes. -/
def Stable (p : Job → Prop) : Prop := ∀ job job', RowOk job → Requested job job' → p job → p job'

theorem starting_stable : Stable Starting := by
  intro job job' _ requested starting
  cases requested with
  | same => exact starting
  | controlled control _ _ _ =>
    rcases starting with status | status <;> simp [Starting, Job.controlled, Job.store, status]
  | resumed _ _ accepted _ =>
    rcases starting with status | status <;> simp [status] at accepted
  | ended accepted =>
    rcases starting with status | status <;> simp [status] at accepted
  | ending _ => exact Or.inr rfl

theorem running_stable : Stable Running := by
  intro job job' _ requested running
  cases requested with
  | same => exact running
  | controlled control _ _ _ =>
    rcases running with status | status <;> simp [Running, Job.controlled, Job.store, status]
  | resumed _ _ accepted _ =>
    rcases running with status | status <;> simp [status] at accepted
  | ended accepted =>
    rcases running with status | status <;> simp [status] at accepted
  | ending _ => exact Or.inr rfl

theorem packaging_stable : Stable Packaging := by
  intro job job' _ requested packaging
  have status : job.status = .packaging := packaging
  cases requested with
  | same => exact packaging
  | controlled _ accepted _ _ => simp [status] at accepted
  | resumed _ _ accepted _ => simp [status] at accepted
  | ended accepted => simp [status] at accepted
  | ending accepted => simp [status] at accepted

theorem finished_stable : Stable Finished := by
  intro job job' _ requested finished
  have status : job.status = .completed := finished
  cases requested with
  | same => exact finished
  | controlled _ accepted _ _ => simp [status] at accepted
  | resumed _ _ accepted _ => simp [status] at accepted
  | ended accepted => simp [status] at accepted
  | ending accepted => simp [status] at accepted

theorem recovered_stable : Stable Recovered := by
  intro job job' _ requested recovered
  cases requested with
  | same => exact recovered
  | controlled control accepted _ _ =>
    rcases recovered with status | status | status <;>
      simp [Recovered, Job.controlled, Job.store, status] at accepted ⊢
  | resumed _ _ _ _ => exact Or.inr (Or.inl rfl)
  | ended _ => exact Or.inr (Or.inr rfl)
  | ending accepted =>
    rcases recovered with status | status | status <;> simp [status] at accepted

theorem discarded_stable : Stable Discarded := by
  intro job job' ok requested discarded
  cases requested with
  | same => exact discarded
  | controlled _ accepted _ _ =>
    rcases ok.discarded.mp discarded with status | status <;> simp [status] at accepted
  | resumed _ kept _ _ => exact absurd discarded kept
  | ended _ => rfl
  | ending _ => rfl

theorem kind_stable (operation : Operation) : Stable (OfKind operation) := by
  intro job job' _ requested same
  cases requested <;> exact same

theorem owner_stable (owner : String) : Stable (fun job => job.createdBy = owner) := by
  intro job job' _ requested same
  cases requested <;> exact same

/-- The rows and the intents of the queue, whatever the worker does. -/
structure DbOk (db : Db) : Prop where
  rows : ∀ id job, db.jobs.get id = some job → RowOk job
  finals : ∀ a intent, db.intents.get a = some intent → Final intent.finalStatus
  owned : ∀ a intent, db.intents.get a = some intent → ∀ id, intent.jobId = some id → id < db.jobs.next

theorem Holds.requests {db db' : Db} {id : Nat} {p : Job → Prop} (ok : DbOk db) (requests : Requests db db')
    (stable : Stable p) (held : Holds db id p) : Holds db' id p := by
  obtain ⟨bound, all⟩ := held
  refine ⟨Nat.lt_of_lt_of_le bound requests.next, ?_⟩
  intro job' found
  rcases requests.rows id job' found with ⟨job, was, requested⟩ | ⟨high, _⟩
  · exact stable job job' (ok.rows id job was) requested (all job was)
  · omega

theorem Holds.mono {db : Db} {id : Nat} {p q : Job → Prop} (held : Holds db id p) (weaker : ∀ job, p job → q job) :
    Holds db id q := ⟨held.1, fun job found => weaker job (held.2 job found)⟩

/-- A transaction on one row, seen from any row. -/
theorem Holds.modify {db : Db} {id x : Nat} {f : Job → Job} {p q : Job → Prop} (held : Holds db x p)
    (kept : ∀ job, db.jobs.get x = some job → p job → q (if x = id then f job else job)) :
    Holds (db.modifyJob id f) x q := by
  refine ⟨held.1, ?_⟩
  intro job' found
  obtain ⟨job, was, rfl⟩ := Table.get_modify_cases _ _ _ _ _ found
  exact kept job was (held.2 job was)

theorem Holds.modify_self {db : Db} {id : Nat} {f : Job → Job} {p q : Job → Prop} (held : Holds db id p)
    (kept : ∀ job, db.jobs.get id = some job → p job → q (f job)) : Holds (db.modifyJob id f) id q := by
  apply held.modify
  intro job found holds
  rw [if_pos rfl]
  exact kept job found holds

theorem Holds.modify_keep {db : Db} {id x : Nat} {f : Job → Job} {p : Job → Prop} (held : Holds db x p)
    (kept : ∀ job, db.jobs.get id = some job → p job → p (f job)) : Holds (db.modifyJob id f) x p := by
  apply held.modify
  intro job found holds
  split
  · rename_i same
    subst same
    exact kept job found holds
  · exact holds

theorem DbOk.requests {db db' : Db} (ok : DbOk db) (requests : Requests db db') : DbOk db' := by
  have stored : ∀ a intent', db'.intents.get a = some intent' → ∃ intent, db.intents.get a = some intent ∧
      intent'.finalStatus = intent.finalStatus ∧ intent'.jobId = intent.jobId ∧
      (intent'.completed = .pending → intent.completed = .pending) := by
    intro a intent' found
    cases was : db.intents.get a with
    | none =>
      rw [requests.absent a was] at found
      cases found
    | some intent =>
      rcases requests.invalidated a intent was with same | ⟨_, after, _⟩
      · cases same.symm.trans found
        exact ⟨intent', rfl, rfl, rfl, id⟩
      · cases after.symm.trans found
        exact ⟨intent, rfl, rfl, rfl, fun impossible => by cases impossible⟩
  constructor
  · intro id job' found
    rcases requests.rows id job' found with ⟨job, was, requested⟩ | ⟨_, fresh⟩
    · exact requested.ok (ok.rows id job was)
    · exact fresh.ok
  · intro a intent' found
    obtain ⟨intent, was, final, _, _⟩ := stored a intent' found
    rw [final]
    exact ok.finals a intent was
  · intro a intent' found id job
    obtain ⟨intent, was, _, same, _⟩ := stored a intent' found
    exact Nat.lt_of_lt_of_le (ok.owned a intent was id (same.symm.trans job)) requests.next

/-- The stored intent is this one, completed or not. -/
def Known (db : Db) (a : Nat) (intent : PublicationIntent) : Prop :=
  ∃ completed, db.intents.get a = some { intent with completed := completed }

/-- The stored intent is this one and pending, and its job is packaging. -/
def Admitted (db : Db) (a : Nat) (intent : PublicationIntent) : Prop :=
  db.intents.get a = some { intent with completed := .pending } ∧
    ∀ id, intent.jobId = some id → Holds db id (fun job => Packaging job ∧ job.createdBy = intent.archive.createdBy)

theorem Known.requests {db db' : Db} {a : Nat} {intent : PublicationIntent} (requests : Requests db db')
    (known : Known db a intent) : Known db' a intent := by
  obtain ⟨completed, found⟩ := known
  rcases requests.invalidated a _ found with same | ⟨_, after, _⟩
  · exact ⟨completed, same⟩
  · exact ⟨.invalidated, after⟩

theorem Admitted.requests {db db' : Db} {a : Nat} {intent : PublicationIntent} (ok : DbOk db)
    (requests : Requests db db') (admitted : Admitted db a intent) : Admitted db' a intent := by
  obtain ⟨found, packaging⟩ := admitted
  refine ⟨?_, ?_⟩
  · rcases requests.invalidated a _ found with same | ⟨_, _, owner, job, owned, row, status⟩
    · exact same
    · exact absurd ((packaging owner owned).2 job row).1 status
  · intro id owned
    refine (packaging id owned).requests ok requests ?_
    intro job job' row requested both
    exact ⟨packaging_stable job job' row requested both.1, owner_stable _ job job' row requested both.2⟩

/-- What a publication returns to, with the facts it needs there. -/
def Return.Ok (db : Db) (a : Nat) (intent : PublicationIntent) : Return → Prop
  | .boot _ => True
  | .reconcile id _ => id < db.jobs.next
  | .captured id rt final =>
    intent.jobId = some id ∧ final = intent.finalStatus ∧ rt.control ≠ some .discard ∧
      Holds db id (OfKind rt.operation) ∧ Admitted db a intent
  | .operated id => intent.jobId = some id ∧ Admitted db a intent

/-- The rows that a listing is over. -/
def Listed (boot : Bool) (job : Job) : Prop := if boot then Recovered job else Discarded job

/-- A copy of a row that was read for recovery or clean-up. -/
def Copied (db : Db) (boot : Bool) (copy : Nat × Job) : Prop :=
  Holds db copy.1 (Listed boot) ∧ Holds db copy.1 (OfKind copy.2.runtime.operation) ∧
    (Discarded copy.2 → Holds db copy.1 Discarded)

/-- What is true of the queue and the checkpoint directories at a place of the worker. -/
def PcOk (db : Db) (directories : Nat → Option (Option String)) : Pc → Prop
  | .stopped | .interrupt | .top | .dispatch | .claim => True
  | .pending (.boot _) => True
  | .pending (.reconcile id _) => id < db.jobs.next
  | .pending _ => False
  | .admitting a intent k => Known db a intent ∧ k.Ok db a intent
  | .place _ a intent k | .finalize a intent k => Admitted db a intent ∧ k.Ok db a intent
  | .list ids jobs boot => (∀ id ∈ ids, Holds db id (Listed boot)) ∧ ∀ copy ∈ jobs, Copied db boot copy
  | .each jobs boot => ∀ copy ∈ jobs, Copied db boot copy
  | .clock id job rest =>
    Holds db id Recovered ∧ Holds db id (OfKind job.runtime.operation) ∧ ∀ copy ∈ rest, Copied db true copy
  | .checkpoint _ rest | .restore _ _ rest => ∀ copy ∈ rest, Copied db true copy
  | .cleanup id rest boot => Holds db id Discarded ∧ ∀ copy ∈ rest, Copied db boot copy
  | .cleaned id rest boot =>
    directories id = none ∧ Holds db id Discarded ∧ ∀ copy ∈ rest, Copied db boot copy
  | .claimed id | .reread id => Holds db id Starting
  | .prepare id job | .before id job | .operate id job =>
    Holds db id Starting ∧ Holds db id (OfKind job.runtime.operation) ∧ (Discarded job → Holds db id Discarded)
  | .begin id _ rt =>
    Holds db id Starting ∧ Holds db id (OfKind rt.operation) ∧ rt.control = none ∧ rt.canResume = false
  | .crawling id _ rt reason =>
    Holds db id Running ∧ Holds db id (OfKind rt.operation) ∧ (reason = some .discard → Holds db id Discarded)
  | .settle id _ rt _ =>
    Holds db id Running ∧ Holds db id (OfKind rt.operation) ∧
      (rt.stopReason = some .discard → Holds db id Discarded)
  | .drop id rt => Holds db id Running ∧ Holds db id (OfKind rt.operation) ∧ Holds db id Discarded
  | .latest id _ rt _ | .reason id _ rt _ | .package id _ rt _ =>
    Holds db id Running ∧ Holds db id (OfKind rt.operation)
  | .inspect id _ rt final =>
    Holds db id Packaging ∧ Holds db id (OfKind rt.operation) ∧ rt.control ≠ some .discard ∧ Final final
  | .estimate id rt intent final =>
    Holds db id Packaging ∧ Holds db id (OfKind rt.operation) ∧ rt.control ≠ some .discard ∧
      intent.jobId = some id ∧ intent.finalStatus = final ∧ Final final
  | .put intent (.captured id rt final) =>
    Holds db id Packaging ∧ Holds db id (OfKind rt.operation) ∧ rt.control ≠ some .discard ∧
      intent.jobId = some id ∧ intent.finalStatus = final ∧ Final final
  | .put intent (.operated id) =>
    Holds db id Packaging ∧ intent.jobId = some id ∧ intent.finalStatus = .completed
  | .put _ _ => False
  | .tidy id rt | .published id rt =>
    Holds db id Finished ∧ Holds db id (OfKind rt.operation) ∧ rt.control ≠ some .discard
  | .record id rt =>
    Holds db id Finished ∧ Holds db id (OfKind rt.operation) ∧ rt.control ≠ some .discard ∧ rt.canResume = false
  | .working id job => Holds db id Packaging ∧ Holds db id (OfKind job.runtime.operation) ∧ ¬Discarded job
  | .document id rt => Holds db id Packaging ∧ Holds db id (OfKind rt.operation) ∧ rt.control ≠ some .discard
  | .status id status _ =>
    id < db.jobs.next ∧ ((status = .paused ∨ status = .completed ∨ status = .failed) ∨
      status = .cancelled ∧ Holds db id Discarded)
  | .inbox id | .scratch id | .fail id => id < db.jobs.next

structure SystemOk (s : System) : Prop where
  db : DbOk s.db
  pc : PcOk s.db s.directories s.pc

theorem listed_stable (boot : Bool) : Stable (Listed boot) := by
  cases boot with
  | true => exact recovered_stable
  | false => exact discarded_stable

theorem Copied.requests {db db' : Db} {boot : Bool} {copy : Nat × Job} (ok : DbOk db)
    (requests : Requests db db') (copied : Copied db boot copy) : Copied db' boot copy :=
  ⟨copied.1.requests ok requests (listed_stable boot), copied.2.1.requests ok requests (kind_stable _),
    fun discarded => (copied.2.2 discarded).requests ok requests discarded_stable⟩

theorem Return.Ok.requests {db db' : Db} {a : Nat} {intent : PublicationIntent} {k : Return} (ok : DbOk db)
    (requests : Requests db db') (before : k.Ok db a intent) : k.Ok db' a intent := by
  cases k with
  | boot _ => trivial
  | reconcile id _ => exact Nat.lt_of_lt_of_le before requests.next
  | captured id rt final =>
    obtain ⟨job, same, control, kind, admitted⟩ := before
    exact ⟨job, same, control, kind.requests ok requests (kind_stable _), admitted.requests ok requests⟩
  | operated id => exact ⟨before.1, before.2.requests ok requests⟩

/-- Requests, and whatever leaves missing directories missing, keep the facts of the worker's place. -/
theorem PcOk.requests {db db' : Db} {directories directories' : Nat → Option (Option String)} {pc : Pc}
    (ok : DbOk db) (requests : Requests db db')
    (missing : ∀ id, directories id = none → directories' id = none) (before : PcOk db directories pc) :
    PcOk db' directories' pc := by
  have bound : ∀ {id : Nat}, id < db.jobs.next → id < db'.jobs.next :=
    fun low => Nat.lt_of_lt_of_le low requests.next
  have rest : ∀ {boot : Bool} {copies : List (Nat × Job)}, (∀ copy ∈ copies, Copied db boot copy) →
      ∀ copy ∈ copies, Copied db' boot copy :=
    fun all copy member => (all copy member).requests ok requests
  have keep : ∀ {id : Nat} {p : Job → Prop}, Stable p → Holds db id p → Holds db' id p :=
    fun stable held => held.requests ok requests stable
  cases pc with
  | stopped | interrupt | top | dispatch | claim => trivial
  | pending k =>
    cases k with
    | boot _ => trivial
    | reconcile id _ => exact bound before
    | _ => exact before
  | admitting a intent k => exact ⟨before.1.requests requests, before.2.requests ok requests⟩
  | place _ a intent k | finalize a intent k =>
    exact ⟨before.1.requests ok requests, before.2.requests ok requests⟩
  | list ids jobs boot =>
    exact ⟨fun id member => keep (listed_stable boot) (before.1 id member), rest before.2⟩
  | each jobs boot => exact rest before
  | clock id job copies =>
    exact ⟨keep recovered_stable before.1, keep (kind_stable _) before.2.1, rest before.2.2⟩
  | checkpoint _ copies | restore _ _ copies => exact rest before
  | cleanup id copies boot => exact ⟨keep discarded_stable before.1, rest before.2⟩
  | cleaned id copies boot =>
    exact ⟨missing id before.1, keep discarded_stable before.2.1, rest before.2.2⟩
  | claimed id | reread id => exact keep starting_stable before
  | prepare id job | before id job | operate id job =>
    exact ⟨keep starting_stable before.1, keep (kind_stable _) before.2.1,
      fun discarded => keep discarded_stable (before.2.2 discarded)⟩
  | begin id job rt => exact ⟨keep starting_stable before.1, keep (kind_stable _) before.2.1, before.2.2⟩
  | crawling id _ _ _ | settle id _ _ _ =>
    exact ⟨keep running_stable before.1, keep (kind_stable _) before.2.1,
      fun discard => keep discarded_stable (before.2.2 discard)⟩
  | drop id _ =>
    exact ⟨keep running_stable before.1, keep (kind_stable _) before.2.1, keep discarded_stable before.2.2⟩
  | latest id _ _ _ | reason id _ _ _ | package id _ _ _ =>
    exact ⟨keep running_stable before.1, keep (kind_stable _) before.2⟩
  | inspect id _ _ _ | estimate id _ _ _ =>
    exact ⟨keep packaging_stable before.1, keep (kind_stable _) before.2.1, before.2.2⟩
  | put intent k =>
    cases k with
    | captured id rt final => exact ⟨keep packaging_stable before.1, keep (kind_stable _) before.2.1, before.2.2⟩
    | operated id => exact ⟨keep packaging_stable before.1, before.2⟩
    | _ => exact before
  | tidy id _ | published id _ | record id _ =>
    exact ⟨keep finished_stable before.1, keep (kind_stable _) before.2.1, before.2.2⟩
  | working id _ | document id _ =>
    exact ⟨keep packaging_stable before.1, keep (kind_stable _) before.2.1, before.2.2⟩
  | status id status _ =>
    exact ⟨bound before.1, before.2.imp_right fun both => ⟨both.1, keep discarded_stable both.2⟩⟩
  | inbox id | scratch id | fail id => exact bound before

end NixHomeServer.Browsertrix
