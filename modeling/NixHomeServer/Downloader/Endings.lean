import NixHomeServer.Downloader.Hands
import NixHomeServer.Downloader.Marks

/-! How jobs end. Whether what is finished stays finished, and whether what has
been cancelled ends as cancelled, depends on who writes a job's status when. -/
namespace NixHomeServer.Downloader

open NixHomeServer.Library

def Status.underWay : Status → Bool
  | .probing | .running | .postprocessing => true
  | _ => false

/-- The status that a worker's request writes. -/
def Ask.writes : Ask → Option Status
  | .starting => some .running
  | .finishing => some .postprocessing
  | .alerting _ => some .alert
  | .ending how => some how.status
  | .failing => some .failed
  | _ => none

/-- The status in which the job is once the worker has its answer, where the answer changes it. -/
def Ask.brings (ask : Ask) : Reply → Option Status
  | .failed => none
  | _ => ask.writes

/-- The status in which a worker looks here, where there is only one. -/
def Check.stage : Check → Option Status
  | .downloaded => some .running
  | _ => none

/-- The status in which a worker asks this, where there is only one. -/
def Ask.stage : Ask → Option Status
  | .checking check | .checked check _ => check.stage
  | .finishing => some .running
  | .splitMarking | .moveMarking => some .postprocessing
  | _ => none

/-- The status in which a worker waits for this, where there is only one. -/
def Act.stage : Act → Option Status
  | .downloading _ | .interrupting _ => some .running
  | .splitting | .copying => some .postprocessing
  | _ => none

/-- A worker goes on with its job in this status. -/
def Next.Stands (status : Status) : Next → Prop
  | .ask task asked => task.status = status ∧ ∀ s ∈ asked.stage, status = s
  | .act task awaited => task.status = status ∧ ∀ s ∈ awaited.stage, status = s
  | .spent => True

section Stages

variable (c : Config) (stopped : Bool) (t : Task)

theorem Task.begin_stands (job : Job) : (Task.begin c job).Stands .probing := by
  unfold Task.begin
  dsimp only
  split
  · exact ⟨rfl, nofun⟩
  · split <;> exact ⟨rfl, nofun⟩

theorem Task.fail_stands : (t.fail stopped).Stands t.status := by
  unfold Task.fail
  split <;> exact ⟨rfl, nofun⟩

theorem Task.record_stands (files : Nat) : (t.record files).Stands t.status := by
  cases files <;> exact ⟨rfl, nofun⟩

theorem Task.proceed_stands (check : Check) (stage : ∀ s ∈ check.stage, t.status = s) :
    (t.proceed check).Stands t.status := by
  cases check with
  | sourced source =>
    unfold Task.proceed
    dsimp only
    split <;> exact ⟨rfl, nofun⟩
  | unduplicated source =>
    unfold Task.proceed
    dsimp only
    split <;> exact ⟨rfl, nofun⟩
  | downloaded => exact ⟨rfl, stage⟩
  | _ => exact ⟨rfl, nofun⟩

theorem Task.abortIfCancelled_stands (check : Check) (status : Option Status)
    (stage : ∀ s ∈ check.stage, t.status = s) :
    (t.abortIfCancelled stopped check status).Stands t.status := by
  unfold Task.abortIfCancelled
  split
  · exact ⟨rfl, nofun⟩
  · split
    · exact ⟨rfl, nofun⟩
    · exact t.proceed_stands check stage

theorem Ask.brings_eq {ask : Ask} {reply : Reply} (good : reply ≠ .failed) : ask.brings reply = ask.writes := by
  cases reply with
  | failed => exact absurd rfl good
  | _ => rfl

theorem Task.answered_stands (ask : Ask) (reply : Reply) (stage : ∀ s ∈ ask.stage, t.status = s) :
    (t.answered c stopped ask reply).Stands ((ask.brings reply).getD t.status) := by
  by_cases failed : reply = .failed
  · subst failed
    cases ask with
    | failing => trivial
    | _ => exact t.fail_stands stopped
  · rw [Ask.brings_eq failed]
    unfold Task.answered
    split
    · trivial
    · exact absurd rfl failed
    · exact ⟨rfl, nofun⟩
    · exact ⟨rfl, stage⟩
    · exact t.abortIfCancelled_stands stopped _ none stage
    · exact t.abortIfCancelled_stands stopped _ _ stage
    · exact ⟨rfl, nofun⟩
    · split <;> exact ⟨rfl, nofun⟩
    · exact ⟨rfl, nofun⟩
    · exact ⟨rfl, nofun⟩
    · trivial
    · exact ⟨rfl, nofun⟩
    · exact ⟨rfl, nofun⟩
    · exact ⟨rfl, nofun⟩
    · dsimp only
      split <;> exact ⟨rfl, fun _ same => Option.some.inj same⟩
    · dsimp only
      split <;> exact ⟨rfl, fun _ same => Option.some.inj same⟩
    · exact ⟨rfl, stage⟩
    · exact ⟨rfl, stage⟩
    · exact t.record_stands _
    · exact ⟨rfl, nofun⟩
    · trivial

theorem Task.happened_stands (act : Act) (outcome : Outcome) (stage : ∀ s ∈ act.stage, t.status = s) :
    (t.happened stopped act outcome).Stands t.status := by
  unfold Task.happened
  split
  · exact t.fail_stands stopped
  · exact ⟨rfl, nofun⟩
  · exact ⟨rfl, nofun⟩
  · exact ⟨rfl, nofun⟩
  · exact ⟨rfl, stage⟩
  · exact ⟨rfl, stage⟩
  · split
    · exact ⟨rfl, stage⟩
    · exact t.fail_stands stopped
  · exact t.fail_stands stopped
  · exact ⟨rfl, nofun⟩
  · trivial
  · split
    · trivial
    · exact ⟨rfl, nofun⟩
  · trivial
  · exact ⟨rfl, nofun⟩
  · split <;> exact ⟨rfl, nofun⟩
  · exact ⟨rfl, nofun⟩
  · exact ⟨rfl, nofun⟩
  · exact ⟨rfl, stage⟩
  · exact t.record_stands _
  · exact t.record_stands 0
  · exact ⟨rfl, nofun⟩

end Stages

/-- A worker that does not copy anything any more: it waits for its download to be terminated, or it
is about to mark its job as cancelled. -/
def Act.leaves : Act → Bool
  | .downloading _ | .interrupting .cancelled => true
  | _ => false

/-- The signal ends the download, and what it has left behind can be removed. -/
def Act.Obeys (stopped : Bool) (outcome : Outcome) : Act → Prop
  | .downloading _ => outcome = .signalled ∧ stopped = false
  | .interrupting _ => outcome ≠ .error
  | _ => True

instance (stopped : Bool) (outcome : Outcome) (act : Act) : Decidable (act.Obeys stopped outcome) := by
  unfold Act.Obeys
  split <;> infer_instance

/-- A worker marks the job as cancelled. -/
def Waiter.leaves (id : Nat) : Waiter → Bool
  | .worker task (.ending .cancelled) => task.job.id == id
  | _ => false

/-- The job that was running when the call read it, and that the call has cancelled with this answer. -/
def Waiter.interrupts : Waiter → Reply → Option Nat
  | .call (.hydrating .cancel job _), .done =>
    if job.status = .running || job.status = .postprocessing then some job.id else none
  | _, _ => none

/-- The job that the call has marked as cancelled. -/
def Waiter.withdraws : Waiter → Reply → Option Nat
  | .call (.cancelling job), .done | .call (.declining job), .done => some job.id
  | _, _ => none

/-- A request that writes a job's status finds the job in the status in which it was asked. -/
def Waiter.Due (db : Db) : Waiter → Prop
  | .worker task ask => ∀ status ∈ ask.writes, ∀ m ∈ db.mark task.job.id, m.status = task.status ∨ m.status = status
  | .putBack id => ∀ m ∈ db.mark id, m.status = .probing
  | .call (.cancelling job) =>
    ∀ m ∈ db.mark job.id, m.status ≠ .postprocessing ∧ m.status ≠ .completed ∧ m.status ≠ .failed
  | .call (.declining job) => ∀ m ∈ db.mark job.id, m = ⟨.alert, job.alerts⟩
  | .call (.requeueing job _) => ∀ m ∈ db.mark job.id, m.status = .alert → m.alerts = job.alerts
  | _ => True

instance (db : Db) (w : Waiter) : Decidable (w.Due db) := by
  unfold Waiter.Due
  split <;> infer_instance

namespace Queue

/-- The worker at the job is on its way out. -/
def Leaving (q : Queue) (id : Nat) : Prop :=
  (∃ x ∈ q.outside, x.1.job.id = id ∧ x.2.leaves = true) ∨ ∃ w ∈ q.posted, w.leaves id = true

/-- The job is cancelled, or its worker is on its way out. -/
def Quits (q : Queue) (id : Nat) : Prop :=
  ∀ m ∈ q.db.mark id, m.status = .cancelled ∨ (m.status = .running ∧ q.Leaving id)

/-- The alerts that the database answers with this step, as the calls have read them. -/
def answers (q : Queue) : Event → List (Nat × Nat)
  | .database _ => match q.posted with
    | .call (.declining job) :: _ => if (q.db.mark job.id).isSome then [(job.id, job.alerts)] else []
    | .call (.requeueing job _) :: _ =>
      if (q.db.mark job.id).any (·.status = .alert) then [(job.id, job.alerts)] else []
    | _ => []
  | _ => []

/-- The alert of the job that a call answers or cancels with this step. -/
def closes (q : Queue) : Event → List (Nat × Nat)
  | .database _ => match q.posted with
    | .call (.cancelling job) :: _ | .call (.declining job) :: _ | .call (.requeueing job _) :: _ =>
      match q.db.mark job.id with
      | some ⟨.alert, n⟩ => [(job.id, n)]
      | _ => []
    | _ => []
  | _ => []

/-- The job for which a call to cancel returns with this step. -/
def cancels (q : Queue) : Event → Option Nat
  | .deliver => q.answered.head?.bind fun x => (x.1.interrupts x.2).or (x.1.withdraws x.2)
  | _ => none

instance (q : Queue) (id : Nat) : Decidable (q.Leaving id) := inferInstanceAs (Decidable (_ ∨ _))

instance (q : Queue) (id : Nat) : Decidable (q.Quits id) := by
  unfold Quits
  infer_instance

end Queue

/-- The queue, with the alerts that have been answered or cancelled and the jobs whose cancelling has
returned. -/
structure Watch where
  queue : Queue
  closed : List (Nat × Nat) := []
  cancelled : List Nat := []
  deriving DecidableEq, Repr

namespace Watch

def step (c : Config) (x : Watch) (event : Event) : Watch where
  queue := x.queue.step c event
  closed := x.closed ++ x.queue.answers event ++ x.queue.closes event
  cancelled := x.cancelled ++ (x.queue.cancels event).toList

def start (c : Config) (now : Nat) (db : Db) : Watch := { queue := Queue.start c now db }

/-- What is written to the table is due, a call interrupts a download only, and a download that has
been interrupted is ended by the signal. -/
def Meets (x : Watch) : Event → Prop
  | .database _ => ∀ w ∈ x.queue.posted.head?, w.Due x.queue.db
  | .deliver => ∀ y ∈ x.queue.answered.head?, ∀ id ∈ y.1.interrupts y.2,
    (x.queue.db.mark id).isSome = true ∧ x.queue.Quits id
  | .happen i outcome => ∀ worker ∈ x.queue.outside[i]?, worker.1.job.id ∈ x.cancelled →
    worker.2.Obeys x.queue.stopped outcome
  | _ => True

instance (x : Watch) (event : Event) : Decidable (x.Meets event) := by
  cases event <;> unfold Meets <;> infer_instance

/-- Finished is final, an alert is answered once, and what has been cancelled ends as cancelled. -/
structure Final (c : Config) (x : Watch) (events : List Event) : Prop where
  ends : ∀ early middle late, events = early ++ middle ++ late → ∀ id m m',
    (Runs.run (step c) x early).queue.db.mark id = some m → m.status.terminal = true →
    (Runs.run (step c) x (early ++ middle)).queue.db.mark id = some m' → m'.status = m.status
  once : ∀ early event late, events = early ++ event :: late →
    ∀ alert ∈ (Runs.run (step c) x early).queue.answers event, alert ∉ (Runs.run (step c) x early).closed
  cancelled : ∀ early late, events = early ++ late → ∀ id ∈ (Runs.run (step c) x early).cancelled,
    (Runs.run (step c) x early).queue.Quits id ∧
      ∀ task, (task, .copying) ∈ (Runs.run (step c) x early).queue.outside → task.job.id ≠ id

end Watch

section Writes

variable {db : Db} {w : Waiter} {id now : Nat}

theorem query_writes {status : Status} (asks : w.query = .setStatus id status) :
    (∃ task ask, w = .worker task ask ∧ task.job.id = id ∧ ask.writes = some status) ∨
      (status = .cancelled ∧ ∃ job, job.id = id ∧ (w = .call (.cancelling job) ∨ w = .call (.declining job))) ∨
      (w = .putBack id ∧ status = .queued) := by
  cases w with
  | putBack other =>
    cases asks
    exact Or.inr (Or.inr ⟨rfl, rfl⟩)
  | call asked =>
    cases asked <;> cases asks
    · exact Or.inr (Or.inl ⟨rfl, _, rfl, Or.inl rfl⟩)
    · exact Or.inr (Or.inl ⟨rfl, _, rfl, Or.inr rfl⟩)
  | worker task ask => cases ask <;> cases asks <;> exact Or.inl ⟨task, _, rfl, rfl, rfl⟩
  | _ => cases asks

def Waiter.works : Waiter → Bool
  | .worker _ _ => true
  | _ => false

/-- What a request that is due can do to the status of one job. -/
inductive Turns (db : Db) (w : Waiter) (reply : Reply) (id : Nat) : Option Mark → Option Mark → Prop
  | same (m : Option Mark) : Turns db w reply id m m
  | worker (task : Task) (ask : Ask) (s s' : Status) (n n' : Nat) (is : w = .worker task ask)
    (at_id : task.job.id = id) (writes : ask.writes = some s') (finds : s = task.status ∨ s = s') (grows : n ≤ n')
    (raises : s' = .alert → n < n') : Turns db w reply id (some ⟨s, n⟩) (some ⟨s', n'⟩)
  | other (s s' : Status) (n : Nat) (is : w.works = false)
    (finds : s = .queued ∨ s = .alert ∨ s = .probing ∨ s = .running)
    (turns : s' = .cancelled ∨ (s ≠ .running ∧ (s' = .queued ∨ s' = .probing))) :
    Turns db w reply id (some ⟨s, n⟩) (some ⟨s', n⟩)
  | created (m : Mark) (new : id = db.next) : Turns db w reply id none (some m)
  | deleted (m : Mark) (spent : m.status.terminal = true) : Turns db w reply id (some m) none

theorem open_cases {s : Status} (open_ : s ≠ .postprocessing ∧ s ≠ .completed ∧ s ≠ .failed) :
    s = .cancelled ∨ s = .queued ∨ s = .alert ∨ s = .probing ∨ s = .running := by
  cases s <;> revert open_ <;> decide

theorem due_turns (unique : db.Unique) (due : w.Due db) (now id : Nat) :
    Turns db w (db.handle now w.query).2 id (db.mark id) ((db.handle now w.query).1.mark id) := by
  have moves := Db.handle_moves unique now w.query id
  generalize before : db.mark id = m at moves
  generalize (db.handle now w.query).1.mark id = m' at moves ⊢
  cases moves with
  | same => exact .same _
  | written status s n asks done =>
    have there : (⟨s, n⟩ : Mark) ∈ db.mark id := before
    rcases query_writes asks with ⟨task, ask, rfl, rfl, writes⟩ | ⟨rfl, job, rfl, rfl | rfl⟩ | ⟨rfl, rfl⟩
    · refine .worker task ask s status n n rfl rfl writes (due status writes _ there) (Nat.le_refl n) fun raised => ?_
      subst raised
      cases ask with
      | alerting alert => cases asks
      | ending how => cases how <;> cases writes
      | _ => cases writes
    · rcases open_cases (due _ there) with rfl | finds
      · exact .same _
      · exact .other _ _ _ rfl finds (Or.inl rfl)
    · have waits : s = .alert := congrArg Mark.status (due _ there)
      exact .other _ _ _ rfl (Or.inr (Or.inl waits)) (Or.inl rfl)
    · obtain rfl : s = .probing := due _ there
      exact .other _ _ _ rfl (Or.inr (Or.inr (Or.inl rfl))) (Or.inr ⟨nofun, Or.inl rfl⟩)
  | raised alert s n asks done =>
    have there : (⟨s, n⟩ : Mark) ∈ db.mark id := before
    obtain ⟨task, rfl, rfl⟩ := Queue.query_setAlert asks
    exact .worker task _ s .alert n (n + 1) rfl rfl rfl (due .alert rfl _ there) (Nat.le_succ n)
      fun _ => Nat.lt_succ_self n
  | requeued request n asks =>
    obtain ⟨job, rfl, -⟩ := Queue.query_requeue asks
    exact .other _ _ _ rfl (Or.inr (Or.inl rfl)) (Or.inr ⟨nofun, Or.inl rfl⟩)
  | claimed n asks =>
    obtain rfl := Queue.query_claim asks
    exact .other _ _ _ rfl (Or.inl rfl) (Or.inr ⟨nofun, Or.inr rfl⟩)
  | created m new => exact .created m new
  | deleted m spent => exact .deleted m spent

theorem handle_setStatus {m : Mark} (there : db.mark id = some m) (now : Nat) (status : Status) :
    (db.handle now (.setStatus id status)).2 = .done ∧
      (db.handle now (.setStatus id status)).1.mark id = some ⟨status, m.alerts⟩ := by
  obtain ⟨job, found, rfl⟩ := Option.map_eq_some_iff.mp there
  have written := @Db.mark_modify db now id (Db.setStatus status) (fun _ => rfl) id
  rw [if_pos rfl, found] at written
  unfold Db.handle Db.withEvent
  dsimp only
  rw [found]
  exact ⟨rfl, written⟩

theorem handle_requeue {n : Nat} (there : db.mark id = some ⟨.alert, n⟩) (now : Nat) (request : CreateJobRequest) :
    (db.handle now (.requeue id request)).1.mark id = some ⟨.queued, n⟩ := by
  obtain ⟨job, found, mark⟩ := Option.map_eq_some_iff.mp there
  obtain ⟨waits, rfl⟩ := Mark.mk.inj mark
  have written := @Db.mark_modify db now id
    (fun job => { job with status := .queued, request := request, alert := none }) (fun _ => rfl) id
  rw [if_pos rfl, found] at written
  unfold Db.handle
  dsimp only
  rw [found]
  dsimp only
  rw [if_pos waits]
  exact written

theorem handle_absent (absent : db.mark id = none) (now : Nat) (status : Status) :
    db.handle now (.setStatus id status) = (db, .failed) := by
  have none := Option.map_eq_none_iff.mp absent
  unfold Db.handle Db.withEvent
  dsimp only
  rw [none]

theorem mark_known (known : db.Known) {m : Mark} (there : db.mark id = some m) : id < db.next := by
  obtain ⟨job, found, -⟩ := Option.map_eq_some_iff.mp there
  obtain ⟨member, same⟩ := Db.find_some found
  exact same ▸ known job member

/-- The row of a job whose worker has brought it to this status. -/
structure Carries (db : Db) (id : Nat) (status : Status) : Prop where
  known : id < db.next
  running : status = .running → ∀ m ∈ db.mark id, m.status = .running ∨ m.status = .cancelled
  moving : status = .postprocessing → ∃ n, db.mark id = some ⟨.postprocessing, n⟩

/-- What its worker does not write leaves the row to the worker. -/
theorem Carries.turns {db' : Db} {reply : Reply} {status : Status} (carries : Carries db id status)
    (turns : Turns db w reply id (db.mark id) (db'.mark id)) (next : db.next ≤ db'.next)
    (others : ∀ task ask, w = .worker task ask → task.job.id = id → ask.writes = none) : Carries db' id status := by
  have before := carries.running
  have moved := carries.moving
  refine ⟨Nat.lt_of_lt_of_le carries.known next, ?_, ?_⟩
  · rintro runs m there
    rw [there] at turns
    generalize db.mark id = old at turns before moved
    cases turns with
    | same => exact before runs m rfl
    | worker task ask s s' n n' is at_id writes => exact absurd ((others task ask is at_id).symm.trans writes) nofun
    | other s s' n is finds goes =>
      rcases before runs _ rfl with was | was
      · obtain rfl : s = .running := was
        rcases goes with rfl | ⟨kept, _⟩
        · exact Or.inr rfl
        · exact absurd rfl kept
      · obtain rfl : s = .cancelled := was
        exact absurd finds (by decide)
    | created m new => exact absurd new (Nat.ne_of_lt carries.known)
  · intro moves
    obtain ⟨n, was⟩ := moved moves
    rw [was] at turns
    generalize db'.mark id = after at turns
    cases turns with
    | same => exact ⟨n, rfl⟩
    | worker task ask s s' n n' is at_id writes => exact absurd ((others task ask is at_id).symm.trans writes) nofun
    | other s s' n is finds => exact absurd finds (by decide)
    | deleted m spent => cases spent

theorem query_of_writes (task : Task) {ask : Ask} {status : Status} (writes : ask.writes = some status) :
    ask.query task = .setStatus task.job.id status ∨ status = .alert := by
  cases ask <;> cases writes
  all_goals first
    | exact Or.inl rfl
    | exact Or.inr rfl

/-- The worker's own request. -/
theorem Carries.answered {task : Task} {ask : Ask} (due : (Waiter.worker task ask).Due db)
    (unique : db.Unique) (now : Nat) (carries : Carries db task.job.id task.status) :
    Carries (db.handle now (ask.query task)).1 task.job.id
      ((ask.brings (db.handle now (ask.query task)).2).getD task.status) := by
  have turns := due_turns unique due now task.job.id
  have next := Db.handle_next now db (ask.query task)
  cases writes : ask.writes with
  | none =>
    have same : ask.brings (db.handle now (ask.query task)).2 = none := by
      cases (db.handle now (ask.query task)).2 <;> first
        | exact writes
        | rfl
    rw [same]
    refine carries.turns turns next fun task' ask' is _ => ?_
    cases is
    exact writes
  | some status =>
    have there := Nat.lt_of_lt_of_le carries.known next
    rcases query_of_writes task writes with asks | rfl
    · cases found : db.mark task.job.id with
      | some m =>
        obtain ⟨done, after⟩ := handle_setStatus found now status
        rw [asks, done]
        have brings : ask.brings .done = some status := writes
        rw [brings]
        refine ⟨asks ▸ there, fun runs m' same => Or.inl ?_, fun moves => ⟨m.alerts, moves ▸ after⟩⟩
        rw [after] at same
        exact Option.some.inj same ▸ runs
      | none =>
        rw [asks, handle_absent found now status]
        exact carries
    · cases ask with
      | alerting alert =>
        unfold Ask.query Db.handle Db.withEvent
        dsimp only
        split
        · exact ⟨carries.known, nofun, nofun⟩
        · exact carries
      | ending how => cases how <;> cases writes
      | _ => cases writes

/-- A worker at its job: what it waits for, and the status that its row has then. -/
structure Task.Sound (db : Db) (t : Task) (stage : Option Status) (status : Status) : Prop where
  underWay : t.status.underWay = true
  stage : ∀ s ∈ stage, t.status = s
  carries : Carries db t.job.id status

end Writes

namespace Queue

section Ends

variable {c : Config} {q q' : Queue}

/-- Every worker is at the status to which it has brought its job. -/
structure Stages (q : Queue) : Prop where
  posted : ∀ t ask, .worker t ask ∈ q.posted → t.Sound q.db ask.stage t.status
  answered : ∀ t ask reply, (.worker t ask, reply) ∈ q.answered → t.Sound q.db ask.stage ((ask.brings reply).getD t.status)
  outside : ∀ x ∈ q.outside, x.1.Sound q.db x.2.stage x.1.status

/-- The worker in front is the only one at its job. -/
theorem Hands.alone (hands : Hands idle q) {w : Waiter} {rest : List Waiter} (front : q.posted = w :: rest)
    {id : Nat} (holds : w.holds id = true) : (∀ v ∈ rest, v.holds id = false) ∧
      (∀ x ∈ q.answered, x.1.holds id = true → x.1.settles id x.2 = true) ∧ ∀ x ∈ q.outside, x.1.job.id ≠ id := by
  have one := hands.one id
  have total : q.tally (.holds id) = ({ q with posted := rest } : Queue).tally (.holds id) + 1 := by
    simp only [tally, front, Tally.holds, List.map_cons, List.sum_cons, holds, Bool.true_or, Bool.toNat_true]
    omega
  have none : ({ q with posted := rest } : Queue).tally (.holds id) = 0 := by
    simp only [idle] at one
    omega
  obtain ⟨posted, answered, outside⟩ := tally_eq_zero.mp none
  refine ⟨fun v member => ?_, fun x member held => ?_, fun x member same => ?_⟩
  · have zero : (v.holds id || v.returns id).toNat = 0 := posted v member
    cases held : v.holds id with
    | false => rfl
    | true =>
      rw [held, Bool.true_or] at zero
      cases zero
  · have zero : (x.1.holds id && !x.1.settles id x.2).toNat = 0 := answered x member
    rw [held, Bool.true_and] at zero
    cases settles : x.1.settles id x.2 with
    | true => rfl
    | false =>
      rw [settles] at zero
      cases zero
  · have zero : (x.1.job.id == id).toNat = 0 := outside x member
    rw [beq_iff_eq.mpr same] at zero
    cases zero

theorem Stages.database (stages : Stages q) (hands : Hands idle q) (unique : q.db.Unique) {w : Waiter}
    {rest : List Waiter} (front : q.posted = w :: rest) (now : Nat) (due : w.Due q.db) : Stages { q with
      db := (q.db.handle now w.query).1
      posted := rest
      answered := q.answered ++ [(w, (q.db.handle now w.query).2)] } := by
  have next := Db.handle_next now q.db w.query
  have apart : ∀ {id status}, Carries q.db id status → w.holds id = false →
      Carries (q.db.handle now w.query).1 id status := by
    intro id status carries free
    refine carries.turns (due_turns unique due now id) next fun task ask is same => ?_
    subst is
    have held : (task.job.id == id) = false := free
    rw [beq_iff_eq.mpr same] at held
    cases held
  refine ⟨fun t ask member => ?_, fun t ask reply member => ?_, fun x member => ?_⟩
  · have old := stages.posted t ask (front ▸ List.mem_cons_of_mem _ member)
    refine ⟨old.underWay, old.stage, apart old.carries (Bool.eq_false_iff.mpr fun holds => ?_)⟩
    have free := (hands.alone front holds).1 _ member
    rw [Waiter.holds, beq_self_eq_true] at free
    cases free
  · cases List.mem_append.mp member with
    | inl there =>
      have old := stages.answered t ask reply there
      refine ⟨old.underWay, old.stage, ?_⟩
      cases holds : w.holds t.job.id with
      | false => exact apart old.carries holds
      | true =>
        have settles := (hands.alone front holds).2.1 _ there (beq_self_eq_true t.job.id)
        rcases settles_cases t ask reply with ⟨alert, rfl, rfl⟩ | never
        · exact ⟨Nat.lt_of_lt_of_le old.carries.known next, (fun same => by cases same), fun same => by cases same⟩
        · exact absurd (settles.symm.trans (never t.job.id)) (by simp)
    | inr new =>
      obtain ⟨rfl, rfl⟩ := Prod.mk.inj (List.mem_singleton.mp new)
      have old := stages.posted t ask (front ▸ List.mem_cons_self)
      exact ⟨old.underWay, old.stage, old.carries.answered due unique now⟩
  · have old := stages.outside x member
    exact ⟨old.underWay, old.stage, apart old.carries (Bool.eq_false_iff.mpr fun holds =>
      (hands.alone front holds).2.2 x member rfl)⟩

theorem mem_spared {x : Task × Act} (more : Extends q q') (member : x ∈ q'.outside) :
    ∃ y ∈ q.outside, spared y = spared x := by
  have there := List.mem_map_of_mem (f := spared) member
  rw [more.outside] at there
  exact List.mem_map.mp there

theorem spared_stage {x y : Task × Act} (same : spared x = spared y) :
    x.1 = y.1 ∧ x.2.stage = y.2.stage ∧ x.2.leaves = y.2.leaves := by
  obtain ⟨task, act⟩ := x
  obtain ⟨task', act'⟩ := y
  obtain ⟨tasks, acts⟩ := Prod.mk.inj same
  have stage : ∀ act : Act, act.spared.stage = act.stage ∧ act.spared.leaves = act.leaves := by
    intro act
    cases act <;> exact ⟨rfl, rfl⟩
  exact ⟨tasks, (stage act).1.symm.trans ((congrArg Act.stage acts).trans (stage act').1),
    (stage act).2.symm.trans ((congrArg Act.leaves acts).trans (stage act').2)⟩

theorem Stages.extend (stages : Stages q) (more : Extends q q') : Stages q' := by
  obtain ⟨added, posted, all⟩ := more.posted
  refine ⟨fun t ask member => ?_, fun t ask reply member => ?_, fun x member => ?_⟩
  · rw [posted] at member
    rw [more.db]
    cases List.mem_append.mp member with
    | inl old => exact stages.posted t ask old
    | inr new => exact absurd (all _ new) nofun
  · rw [more.answered] at member
    rw [more.db]
    exact stages.answered t ask reply member
  · obtain ⟨y, there, same⟩ := mem_spared more member
    obtain ⟨task, stage, -⟩ := spared_stage same
    rw [more.db, ← task, ← stage]
    exact stages.outside y there

theorem Stages.post (stages : Stages q) {w : Waiter} (sound : ∀ t ask, w = .worker t ask → t.Sound q.db ask.stage t.status) :
    Stages (q.post w) := by
  refine ⟨fun t ask member => ?_, stages.answered, stages.outside⟩
  cases List.mem_append.mp member with
  | inl old => exact stages.posted t ask old
  | inr new => exact sound t ask (List.mem_singleton.mp new).symm

theorem Stages.put (stages : Stages q) {w : Waiter} (idle : w.works = false) : Stages (q.post w) :=
  stages.post fun t ask is => by
    rw [is] at idle
    cases idle

/-- A worker goes on at the status to which it has brought its job. -/
theorem Stages.follow (stages : Stages q) {next : Next} {job : Job} {status : Status}
    (goes : next.job = some job ∨ next = .spent) (stands : next.Stands status)
    (underWay : next = .spent ∨ status.underWay = true) (carries : Carries q.db job.id status) :
    Stages (q.follow c next) := by
  cases next with
  | ask task asked =>
    have same : task.job = job := by
      cases goes with
      | inl same => exact Option.some.inj same
      | inr spent => cases spent
    obtain ⟨rfl, stage⟩ := stands
    refine stages.post fun t ask is => ?_
    cases is
    exact ⟨underWay.resolve_left nofun, stage, same ▸ carries⟩
  | act task awaited =>
    have same : task.job = job := by
      cases goes with
      | inl same => exact Option.some.inj same
      | inr spent => cases spent
    obtain ⟨rfl, stage⟩ := stands
    refine ⟨stages.posted, stages.answered, fun x member => ?_⟩
    cases List.mem_append.mp member with
    | inl old => exact stages.outside x old
    | inr new =>
      rw [List.mem_singleton.mp new]
      exact ⟨underWay.resolve_left nofun, stage, same ▸ carries⟩
  | spent => exact stages.extend ((Extends.flags q (q.active - 1) q.pumping q.pumpRequested).trans (pump_extends c _))

theorem brings_cases (ask : Ask) (reply : Reply) : ask.brings reply = none ∨ ask.brings reply = some .running ∨
    ask.brings reply = some .postprocessing ∨ ∀ c stopped t, Task.answered c stopped t ask reply = .spent := by
  by_cases failed : reply = .failed
  · exact Or.inl (failed ▸ rfl)
  · rw [Ask.brings_eq failed]
    cases ask with
    | starting => exact Or.inr (Or.inl rfl)
    | finishing => exact Or.inr (Or.inr (Or.inl rfl))
    | failing => exact Or.inr (Or.inr (Or.inr fun _ _ _ => rfl))
    | alerting alert =>
      refine Or.inr (Or.inr (Or.inr fun _ _ _ => ?_))
      cases reply with
      | failed => exact absurd rfl failed
      | _ => rfl
    | ending how =>
      refine Or.inr (Or.inr (Or.inr fun _ _ _ => ?_))
      cases reply with
      | failed => exact absurd rfl failed
      | _ => rfl
    | _ => exact Or.inl rfl

theorem Stages.resume (stages : Stages q) (hands : Hands idle q) {w : Waiter} {reply : Reply}
    {rest : List (Waiter × Reply)} (front : q.answered = (w, reply) :: rest) :
    Stages ({ q with answered := rest }.resume c w reply) := by
  have picked : Stages { q with answered := rest } :=
    ⟨stages.posted, fun t ask reply member => stages.answered t ask reply (front ▸ List.mem_cons_of_mem _ member),
      stages.outside⟩
  have ends := picked.extend (endPump_extends c _)
  cases w with
  | claim =>
    cases reply with
    | claimed id =>
      cases id with
      | some id => exact picked.put rfl
      | none => exact ends
    | _ => exact ends
  | read id =>
    cases reply with
    | row job =>
      cases job with
      | some job => exact picked.put rfl
      | none => exact ends
    | _ => exact ends
  | hydrate job =>
    cases reply with
    | done =>
      by_cases stops : q.stopped = true
      · have goes : ({ q with answered := rest } : Queue).resume c (.hydrate job) .done =
            { q with answered := rest }.post (.putBack job.id) := if_pos stops
        rw [goes]
        exact picked.put rfl
      · have goes : ({ q with answered := rest } : Queue).resume c (.hydrate job) .done =
            { q with answered := rest }.startJob c job := if_neg stops
        have known : job.id < q.db.next := by
          refine Nat.lt_of_not_le fun new => ?_
          have none := (hands.fresh job.id new).1
          have zero : (job.id == job.id && !false).toNat = 0 :=
            (tally_eq_zero.mp (Nat.eq_zero_of_add_eq_zero_right none)).2.1 (.hydrate job, .done)
              (front ▸ List.mem_cons_self)
          rw [beq_self_eq_true] at zero
          cases zero
        rw [goes]
        have begun := picked.extend (Extends.flags _ (q.active + 1) q.pumping q.pumpRequested)
        have started := begun.follow (c := c) (Or.inl (Task.begin_job c job)) (Task.begin_stands c job) (Or.inr rfl)
          ⟨known, nofun, nofun⟩
        exact started.extend (claimNext_extends c _)
    | _ => exact ends
  | putBack id => exact ends
  | call asked => exact picked.extend (returned_extends c _ asked reply)
  | worker task ask =>
    have sound := stages.answered task ask reply (front ▸ List.mem_cons_self)
    refine picked.follow (task.answered_job c _ ask reply) (task.answered_stands c _ ask reply sound.stage) ?_
      sound.carries
    rcases brings_cases ask reply with none | runs | moves | spent
    · rw [none]
      exact Or.inr sound.underWay
    · rw [runs]
      exact Or.inr rfl
    · rw [moves]
      exact Or.inr rfl
    · exact Or.inl (spent c _ task)
  | progress id => exact picked

theorem Stages.step (stages : Stages q) (hands : Hands idle q) (unique : q.db.Unique) (event : Event)
    (due : ∀ now, event = .database now → ∀ w ∈ q.posted.head?, w.Due q.db) : Stages (q.step c event) := by
  cases event with
  | enqueue user tag request => exact stages.extend (enqueue_extends c q user tag request)
  | call purpose id user => exact stages.put rfl
  | clearHistory username => exact stages.put rfl
  | database now =>
    have due := due now rfl
    unfold Queue.step
    dsimp only
    cases front : q.posted with
    | nil => exact stages
    | cons w rest => exact stages.database hands unique front now (due w (by rw [front]; rfl))
  | deliver =>
    unfold Queue.step
    dsimp only
    cases front : q.answered with
    | nil => exact stages
    | cons x rest => exact stages.resume hands front
  | happen i outcome =>
    unfold Queue.step
    dsimp only
    cases at_i : q.outside[i]? with
    | none => exact stages
    | some worker =>
      have sound := stages.outside worker (List.mem_of_getElem? at_i)
      have taken : Stages { q with outside := q.outside.eraseIdx i } :=
        ⟨stages.posted, stages.answered, fun x member => stages.outside x (List.mem_of_mem_eraseIdx member)⟩
      exact taken.follow (worker.1.happened_job q.stopped worker.2 outcome)
        (worker.1.happened_stands q.stopped worker.2 outcome sound.stage) (Or.inr sound.underWay) sound.carries
  | progress i =>
    unfold Queue.step
    dsimp only
    split
    · exact stages.put rfl
    · exact stages
  | stop =>
    unfold Queue.step
    dsimp only
    split
    · exact stages
    · refine ⟨stages.posted, stages.answered, fun x member => ?_⟩
      obtain ⟨y, there, rfl⟩ := List.mem_map.mp member
      obtain ⟨task, stage, -⟩ := spared_stage (kill_spared y.1.job.id y)
      rw [task, stage]
      exact stages.outside y there

/-- Whoever waits goes on waiting. -/
structure Grows (q q' : Queue) : Prop where
  db : q'.db = q.db
  answered : q'.answered = q.answered
  posted : ∀ w ∈ q.posted, w ∈ q'.posted
  outside : ∀ x ∈ q.outside, ∃ y ∈ q'.outside, spared y = spared x

theorem Extends.grows (more : Extends q q') : Grows q q' where
  db := more.db
  answered := more.answered
  posted w member := by
    obtain ⟨added, posted, -⟩ := more.posted
    rw [posted]
    exact List.mem_append_left _ member
  outside x member := by
    have there := List.mem_map_of_mem (f := spared) member
    rw [← more.outside] at there
    exact List.mem_map.mp there

theorem Grows.trans {q'' : Queue} (first : Grows q q') (second : Grows q' q'') : Grows q q'' where
  db := second.db.trans first.db
  answered := second.answered.trans first.answered
  posted w member := second.posted w (first.posted w member)
  outside x member := by
    obtain ⟨y, there, same⟩ := first.outside x member
    obtain ⟨z, here, again⟩ := second.outside y there
    exact ⟨z, here, again.trans same⟩

theorem grows_post (q : Queue) (w : Waiter) : Grows q (q.post w) :=
  ⟨rfl, rfl, fun _ member => List.mem_append_left _ member, fun x member => ⟨x, member, rfl⟩⟩

theorem grows_follow (c : Config) (q : Queue) (next : Next) : Grows q (q.follow c next) := by
  cases next with
  | ask task ask => exact grows_post q _
  | act task act => exact ⟨rfl, rfl, fun _ member => member, fun x member => ⟨x, List.mem_append_left _ member, rfl⟩⟩
  | spent => exact ((Extends.flags q (q.active - 1) q.pumping q.pumpRequested).trans (pump_extends c _)).grows

theorem grows_resume (c : Config) (q : Queue) (w : Waiter) (reply : Reply) : Grows q (q.resume c w reply) := by
  have ends := (endPump_extends c q).grows
  cases w with
  | claim =>
    cases reply with
    | claimed id =>
      cases id with
      | some id => exact grows_post q _
      | none => exact ends
    | _ => exact ends
  | read id =>
    cases reply with
    | row job =>
      cases job with
      | some job => exact grows_post q _
      | none => exact ends
    | _ => exact ends
  | hydrate job =>
    cases reply with
    | done =>
      unfold Queue.resume
      dsimp only
      split
      · exact grows_post q _
      · have begun := (Extends.flags q (q.active + 1) q.pumping q.pumpRequested).grows
        exact (begun.trans (grows_follow c _ _)).trans (claimNext_extends c _).grows
    | _ => exact ends
  | putBack id => exact ends
  | call asked => exact (returned_extends c q asked reply).grows
  | worker task ask => exact grows_follow c q _
  | progress id => exact (Extends.refl q).grows

theorem Leaving.grows {id : Nat} (leaving : q.Leaving id) (grows : Grows q q') : q'.Leaving id := by
  rcases leaving with ⟨x, member, at_id, leaves⟩ | ⟨w, member, leaves⟩
  · obtain ⟨y, there, same⟩ := grows.outside x member
    obtain ⟨task, -, leave⟩ := spared_stage same
    exact Or.inl ⟨y, there, task ▸ at_id, leave.trans leaves⟩
  · exact Or.inr ⟨w, grows.posted w member, leaves⟩

theorem Quits.grows {id : Nat} (quits : q.Quits id) (grows : Grows q q') : q'.Quits id := fun m there =>
  (quits m (grows.db ▸ there)).imp_right (And.imp_right (Leaving.grows · grows))

end Ends

end Queue

/-- Whatever is over stays as it is, until it is deleted for good. -/
structure Keeps (db db' : Db) : Prop where
  next : db.next ≤ db'.next
  gone : ∀ id < db.next, db.mark id = none → db'.mark id = none
  final : ∀ id < db.next, ∀ m m', db.mark id = some m → m.status.terminal = true → db'.mark id = some m' →
    m'.status = m.status

theorem Keeps.refl (db : Db) : Keeps db db where
  next := Nat.le_refl _
  gone _ _ none := none
  final _ _ _ _ there _ here := congrArg Mark.status (Option.some.inj (here.symm.trans there))

theorem Keeps.trans {db db' db'' : Db} (first : Keeps db db') (second : Keeps db' db'') : Keeps db db'' where
  next := Nat.le_trans first.next second.next
  gone id old none := second.gone id (Nat.lt_of_lt_of_le old first.next) (first.gone id old none)
  final id old m m'' there spent later := by
    have old' := Nat.lt_of_lt_of_le old first.next
    cases here : db'.mark id with
    | none => exact absurd ((second.gone id old' here).symm.trans later) nofun
    | some m' =>
      have same := first.final id old m m' there spent here
      exact (second.final id old' m' m'' here (same ▸ spent) later).trans same

theorem Turns.keeps {db db' : Db} {w : Waiter} {reply : Reply} (next : db.next ≤ db'.next)
    (turns : ∀ id, Turns db w reply id (db.mark id) (db'.mark id))
    (underWay : ∀ task ask, w = .worker task ask → task.status.underWay = true) : Keeps db db' where
  next := next
  gone id old none := by
    have turns := turns id
    rw [none] at turns
    generalize db'.mark id = after at turns ⊢
    cases turns with
    | same => rfl
    | created m new => exact absurd new (Nat.ne_of_lt old)
  final id old m m' there spent here := by
    have turns := turns id
    rw [there, here] at turns
    cases turns with
    | same => rfl
    | worker task ask s s' n n' is at_id writes finds =>
      rcases finds with rfl | rfl
      · have goes := underWay task ask is
        dsimp only at spent
        cases status : task.status <;> rw [status] at spent goes <;> cases spent <;> cases goes
      · rfl
    | other s s' n is finds => rcases finds with rfl | rfl | rfl | rfl <;> cases spent

namespace Watch

open Queue (Hands Stages idle Grows)

variable {c : Config} {x : Watch}

/-- What holds of the queue, the closed alerts and the cancelled jobs while the condition is met. -/
structure Sound (x : Watch) : Prop where
  hands : Hands idle x.queue
  unique : x.queue.db.Unique
  stages : Stages x.queue
  withdrawn : ∀ y ∈ x.queue.answered, ∀ id ∈ y.1.withdraws y.2,
    id < x.queue.db.next ∧ ∀ m ∈ x.queue.db.mark id, m.status = .cancelled
  cancelled : ∀ id ∈ x.cancelled, id < x.queue.db.next ∧ x.queue.Quits id
  closed : ∀ alert ∈ x.closed, alert.1 < x.queue.db.next ∧
    ∀ m ∈ x.queue.db.mark alert.1, alert.2 ≤ m.alerts ∧ (m.status = .alert → alert.2 < m.alerts)

/-- A step that leaves the table alone. -/
theorem Sound.moved (sound : Sound x) {q : Queue} (hands : Hands idle q) (stages : Stages q) (db : q.db = x.queue.db)
    (answered : ∀ y ∈ q.answered, y ∈ x.queue.answered) (cancelled : List Nat)
    (quits : ∀ id ∈ cancelled, id < q.db.next ∧ q.Quits id) : Sound ⟨q, x.closed, cancelled⟩ where
  hands := hands
  unique := db ▸ sound.unique
  stages := stages
  withdrawn y member := db ▸ sound.withdrawn y (answered y member)
  cancelled := quits
  closed := db ▸ sound.closed

theorem Sound.grown (sound : Sound x) {q : Queue} (hands : Hands idle q) (stages : Stages q)
    (grows : Grows x.queue q) : Sound ⟨q, x.closed, x.cancelled⟩ :=
  sound.moved hands stages grows.db (fun _ member => grows.answered ▸ member) x.cancelled fun id member =>
    ⟨grows.db ▸ (sound.cancelled id member).1, Queue.Quits.grows (sound.cancelled id member).2 grows⟩

theorem Sound.deliver (sound : Sound x) {w : Waiter} {reply : Reply} {rest : List (Waiter × Reply)}
    (front : x.queue.answered = (w, reply) :: rest)
    (meets : ∀ id ∈ w.interrupts reply, (x.queue.db.mark id).isSome = true ∧ x.queue.Quits id)
    (hands : Hands idle ({ x.queue with answered := rest }.resume c w reply))
    (stages : Stages ({ x.queue with answered := rest }.resume c w reply)) :
    Sound ⟨{ x.queue with answered := rest }.resume c w reply, x.closed,
      x.cancelled ++ ((w.interrupts reply).or (w.withdraws reply)).toList⟩ := by
  have grows := Queue.grows_resume c { x.queue with answered := rest } w reply
  refine sound.moved hands stages grows.db (fun y member => ?_) _ fun id member => ?_
  · rw [grows.answered] at member
    exact front ▸ List.mem_cons_of_mem _ member
  · have quits : id < x.queue.db.next ∧ x.queue.Quits id := by
      cases List.mem_append.mp member with
      | inl old => exact sound.cancelled id old
      | inr new =>
        have new := Option.mem_toList.mp new
        rcases Option.or_eq_some_iff.mp new with interrupts | ⟨-, withdraws⟩
        · obtain ⟨there, quits⟩ := meets id interrupts
          obtain ⟨m, here⟩ := Option.isSome_iff_exists.mp there
          exact ⟨mark_known sound.hands.known here, quits⟩
        · obtain ⟨known, spent⟩ := sound.withdrawn _ (front ▸ List.mem_cons_self) id withdraws
          exact ⟨known, fun m here => Or.inl (spent m here)⟩
    rw [grows.db]
    exact ⟨quits.1, Queue.Quits.grows (q := { x.queue with answered := rest }) quits.2 grows⟩

theorem mem_eraseIdx_or {α : Type} {l : List α} {i : Nat} {a b : α} (at_i : l[i]? = some a) (member : b ∈ l) :
    b = a ∨ b ∈ l.eraseIdx i := by
  obtain ⟨inside, same⟩ := List.getElem?_eq_some_iff.mp at_i
  have there := (List.getElem_cons_eraseIdx_perm inside).mem_iff.mpr member
  rw [same] at there
  exact List.mem_cons.mp there

/-- A worker on its way out stays on it, if nothing goes wrong. -/
theorem leaving_happened {t : Task} {act : Act} {outcome : Outcome} {stopped : Bool} (leaves : act.leaves = true)
    (obeys : act.Obeys stopped outcome) :
    t.happened stopped act outcome = .act t (.interrupting .cancelled) ∨
      t.happened stopped act outcome = .ask t (.ending .cancelled) := by
  cases act with
  | downloading killed =>
    obtain ⟨rfl, rfl⟩ := obeys
    exact Or.inl rfl
  | interrupting how =>
    cases how with
    | cancelled =>
      cases outcome with
      | error => exact absurd rfl obeys
      | _ => exact Or.inr rfl
    | _ => cases leaves
  | _ => cases leaves

theorem Sound.happen (sound : Sound x) {i : Nat} {outcome : Outcome} {worker : Task × Act}
    (at_i : x.queue.outside[i]? = some worker) (meets : x.Meets (.happen i outcome)) {q : Queue}
    (after : q = ({ x.queue with outside := x.queue.outside.eraseIdx i } : Queue).follow c
      (worker.1.happened x.queue.stopped worker.2 outcome)) (hands : Hands idle q) (stages : Stages q) :
    Sound ⟨q, x.closed, x.cancelled⟩ := by
  have grows : Grows { x.queue with outside := x.queue.outside.eraseIdx i } q := after ▸ Queue.grows_follow c _ _
  refine sound.moved hands stages grows.db (fun y member => grows.answered ▸ member) _ fun id member => ?_
  obtain ⟨known, quits⟩ := sound.cancelled id member
  refine ⟨grows.db ▸ known, fun m there => ?_⟩
  rcases quits m (grows.db ▸ there) with spent | ⟨runs, ⟨y, here, at_id, leaves⟩ | ⟨w, here, leaves⟩⟩
  · exact Or.inl spent
  · refine Or.inr ⟨runs, ?_⟩
    rcases mem_eraseIdx_or at_i here with rfl | stays
    · have allowed := meets y (Option.mem_def.mpr at_i) (at_id.symm ▸ member)
      rcases leaving_happened leaves allowed with goes | goes
      · rw [after, goes]
        exact Or.inl ⟨(y.1, .interrupting .cancelled), List.mem_append_right _ List.mem_cons_self, at_id, rfl⟩
      · rw [after, goes]
        exact Or.inr ⟨.worker y.1 (.ending .cancelled), List.mem_append_right _ List.mem_cons_self, beq_iff_eq.mpr at_id⟩
    · exact Queue.Leaving.grows (q := { x.queue with outside := x.queue.outside.eraseIdx i })
        (Or.inl ⟨y, stays, at_id, leaves⟩) grows
  · exact Or.inr ⟨runs, Queue.Leaving.grows (q := { x.queue with outside := x.queue.outside.eraseIdx i })
      (Or.inr ⟨w, here, leaves⟩) grows⟩

theorem withdraws_query {w : Waiter} {reply : Reply} {id : Nat} (withdraws : w.withdraws reply = some id) :
    reply = .done ∧ w.query = .setStatus id .cancelled := by
  unfold Waiter.withdraws at withdraws
  split at withdraws <;> cases withdraws <;> exact ⟨rfl, rfl⟩

/-- A call that closes an alert finds it open, and leaves it closed. -/
theorem closes_front {q : Queue} {w : Waiter} {rest : List Waiter} (front : q.posted = w :: rest) {now : Nat}
    {alert : Nat × Nat} (closes : alert ∈ q.closes (.database now)) :
    q.db.mark alert.1 = some ⟨.alert, alert.2⟩ ∧ ∃ s, s ≠ .alert ∧
      (q.db.handle now w.query).1.mark alert.1 = some ⟨s, alert.2⟩ := by
  have open_ : ∀ job : Job, alert ∈ (match q.db.mark job.id with
      | some ⟨.alert, n⟩ => [(job.id, n)]
      | _ => []) → q.db.mark alert.1 = some ⟨.alert, alert.2⟩ ∧ job.id = alert.1 := by
    intro job member
    split at member
    · rename_i n there
      obtain rfl := List.mem_singleton.mp member
      exact ⟨there, rfl⟩
    · exact absurd member List.not_mem_nil
  unfold Queue.closes at closes
  dsimp only at closes
  rw [front] at closes
  split at closes
  · rename_i job more same
    obtain ⟨rfl, -⟩ := List.cons.inj same
    obtain ⟨there, at_id⟩ := open_ job closes
    exact ⟨there, .cancelled, by simp, by rw [Waiter.query, Call.query, at_id]; exact (handle_setStatus there now _).2⟩
  · rename_i job more same
    obtain ⟨rfl, -⟩ := List.cons.inj same
    obtain ⟨there, at_id⟩ := open_ job closes
    exact ⟨there, .cancelled, by simp, by rw [Waiter.query, Call.query, at_id]; exact (handle_setStatus there now _).2⟩
  · rename_i job request more same
    obtain ⟨rfl, -⟩ := List.cons.inj same
    obtain ⟨there, at_id⟩ := open_ job closes
    exact ⟨there, .queued, by simp, by rw [Waiter.query, Call.query, at_id]; exact handle_requeue there now request⟩
  · exact absurd closes List.not_mem_nil

/-- An answer that is due closes the alert that the call has read. -/
theorem answers_closes {q : Queue} {w : Waiter} {rest : List Waiter} (front : q.posted = w :: rest) (due : w.Due q.db)
    {now : Nat} {alert : Nat × Nat} (answers : alert ∈ q.answers (.database now)) :
    alert ∈ q.closes (.database now) := by
  unfold Queue.answers at answers
  unfold Queue.closes
  dsimp only at answers ⊢
  rw [front] at answers ⊢
  split at answers
  · rename_i job more same
    obtain ⟨rfl, -⟩ := List.cons.inj same
    split at answers
    · rename_i there
      obtain ⟨m, found⟩ := Option.isSome_iff_exists.mp there
      have same := due m found
      dsimp only
      rw [found, same]
      exact answers
    · exact absurd answers List.not_mem_nil
  · rename_i job request more same
    obtain ⟨rfl, -⟩ := List.cons.inj same
    split at answers
    · rename_i there
      cases found : q.db.mark job.id with
      | none =>
        rw [found] at there
        cases there
      | some m =>
        obtain ⟨s, n⟩ := m
        rw [found] at there
        obtain rfl : s = .alert := of_decide_eq_true there
        have same : n = job.alerts := due _ found rfl
        dsimp only
        rw [found, same]
        exact answers
    · exact absurd answers List.not_mem_nil
  · exact absurd answers List.not_mem_nil

theorem Sound.due_keeps (sound : Sound x) {w : Waiter} {rest : List Waiter} (front : x.queue.posted = w :: rest)
    (due : w.Due x.queue.db) (now : Nat) : Keeps x.queue.db (x.queue.db.handle now w.query).1 :=
  Turns.keeps (Db.handle_next now _ _) (due_turns sound.unique due now) fun task ask is =>
    (sound.stages.posted task ask (front ▸ is ▸ List.mem_cons_self)).underWay

theorem leaves_worker {w : Waiter} {id : Nat} (leaves : w.leaves id = true) :
    ∃ task, w = .worker task (.ending .cancelled) ∧ task.job.id = id := by
  unfold Waiter.leaves at leaves
  split at leaves
  · exact ⟨_, rfl, beq_iff_eq.mp leaves⟩
  · cases leaves

/-- A job that has been cancelled stays so, or its worker marks it. -/
theorem Sound.quits_database (sound : Sound x) {w : Waiter} {rest : List Waiter} (front : x.queue.posted = w :: rest)
    (due : w.Due x.queue.db) (now : Nat) {id : Nat} (known : id < x.queue.db.next) (quits : x.queue.Quits id) :
    ({ x.queue with
      db := (x.queue.db.handle now w.query).1
      posted := rest
      answered := x.queue.answered ++ [(w, (x.queue.db.handle now w.query).2)] } : Queue).Quits id := by
  have keeps := sound.due_keeps front due now
  intro m' after
  have after : (x.queue.db.handle now w.query).1.mark id = some m' := after
  cases before : x.queue.db.mark id with
  | none => exact absurd ((keeps.gone id known before).symm.trans after) nofun
  | some m =>
    rcases quits m before with spent | ⟨runs, leaving⟩
    · exact Or.inl ((keeps.final id known m m' before (spent ▸ rfl) after).trans spent)
    · have turns := due_turns sound.unique due now id
      rw [before, after] at turns
      cases turns with
      | same =>
        rcases leaving with outside | ⟨v, member, leaves⟩
        · exact Or.inr ⟨runs, Or.inl outside⟩
        · rcases List.mem_cons.mp (front ▸ member) with rfl | waits
          · obtain ⟨t, rfl, rfl⟩ := leaves_worker leaves
            have marked := (handle_setStatus before now .cancelled).2
            have same := Option.some.inj (after.symm.trans marked)
            exact Or.inl (congrArg Mark.status same)
          · exact Or.inr ⟨runs, Or.inr ⟨v, waits, leaves⟩⟩
      | worker task ask s s' n n' is at_id writes =>
        have holds : w.holds id = true := by
          rw [is]
          exact beq_iff_eq.mpr at_id
        have alone := sound.hands.alone front holds
        rcases leaving with ⟨y, there, same, -⟩ | ⟨v, member, leaves⟩
        · exact absurd same (alone.2.2 y there)
        · obtain ⟨t, rfl, same⟩ := leaves_worker leaves
          rcases List.mem_cons.mp (front ▸ member) with own | waits
          · cases own.trans is
            exact Or.inl (Option.some.inj writes).symm
          · have free := alone.1 _ waits
            rw [Waiter.holds, beq_iff_eq.mpr same] at free
            cases free
      | other s s' n is finds goes =>
        rcases goes with rfl | ⟨kept, -⟩
        · exact Or.inl rfl
        · exact absurd runs kept

theorem Sound.database (sound : Sound x) {w : Waiter} {rest : List Waiter} (front : x.queue.posted = w :: rest)
    (now : Nat) (due : w.Due x.queue.db) {q : Queue} (after : q = { x.queue with
      db := (x.queue.db.handle now w.query).1
      posted := rest
      answered := x.queue.answered ++ [(w, (x.queue.db.handle now w.query).2)] })
    (hands : Hands idle q) (stages : Stages q) :
    Sound ⟨q, x.closed ++ x.queue.answers (.database now) ++ x.queue.closes (.database now), x.cancelled⟩ := by
  have keeps := sound.due_keeps front due now
  have closed : ∀ alert ∈ x.queue.closes (.database now), alert.1 < (x.queue.db.handle now w.query).1.next ∧
      ∀ m ∈ (x.queue.db.handle now w.query).1.mark alert.1, alert.2 ≤ m.alerts ∧ (m.status = .alert → alert.2 < m.alerts) := by
    intro alert member
    obtain ⟨there, s, gone, here⟩ := closes_front front member
    refine ⟨Nat.lt_of_lt_of_le (mark_known sound.hands.known there) keeps.next, fun m found => ?_⟩
    obtain rfl := Option.some.inj (here.symm.trans found)
    exact ⟨Nat.le_refl _, fun waits => absurd waits gone⟩
  subst after
  refine ⟨hands, sound.unique.handle sound.hands.known now w.query, stages, ?_, fun id member => ?_, fun alert member => ?_⟩
  · intro y member id withdraws
    cases List.mem_append.mp member with
    | inl old =>
      obtain ⟨known, spent⟩ := sound.withdrawn y old id withdraws
      refine ⟨Nat.lt_of_lt_of_le known keeps.next, fun m' later => ?_⟩
      cases before : x.queue.db.mark id with
      | none => exact absurd ((keeps.gone id known before).symm.trans later) nofun
      | some m =>
        have was := spent m before
        exact (keeps.final id known m m' before (was ▸ rfl) later).trans was
    | inr new =>
      obtain ⟨rfl⟩ := List.mem_singleton.mp new
      obtain ⟨done, asks⟩ := withdraws_query withdraws
      dsimp only at done ⊢
      rw [asks] at done ⊢
      cases before : x.queue.db.mark id with
      | none =>
        rw [handle_absent before now .cancelled] at done
        cases done
      | some m =>
        have marked := (handle_setStatus before now .cancelled).2
        refine ⟨Nat.lt_of_lt_of_le (mark_known sound.hands.known before) (Db.handle_next now _ _), fun m' later => ?_⟩
        exact congrArg Mark.status (Option.some.inj (marked.symm.trans later)).symm
  · obtain ⟨known, quits⟩ := sound.cancelled id member
    exact ⟨Nat.lt_of_lt_of_le known keeps.next, sound.quits_database front due now known quits⟩
  · rcases List.mem_append.mp member with old | new
    · rcases List.mem_append.mp old with old | new
      · obtain ⟨known, open_⟩ := sound.closed alert old
        refine ⟨Nat.lt_of_lt_of_le known keeps.next, fun m' later => ?_⟩
        have later : (x.queue.db.handle now w.query).1.mark alert.1 = some m' := later
        have turns := due_turns sound.unique due now alert.1
        rw [later] at turns
        generalize x.queue.db.mark alert.1 = before at turns open_
        cases turns with
        | same => exact open_ m' rfl
        | worker task ask s s' n n' is at_id writes finds grows raises =>
          have least := (open_ _ rfl).1
          exact ⟨Nat.le_trans least grows, fun waits => Nat.lt_of_le_of_lt least (raises waits)⟩
        | other s s' n is finds goes =>
          refine ⟨(open_ _ rfl).1, fun waits => ?_⟩
          rcases goes with rfl | ⟨-, rfl | rfl⟩ <;> cases waits
        | created m new => exact absurd new (Nat.ne_of_lt known)
      · exact closed alert (answers_closes front due new)
    · exact closed alert new

/-- A step at which neither the table nor a call is heard of. -/
theorem Sound.quiet (sound : Sound x) {event : Event} (hands : Hands idle (x.queue.step c event))
    (stages : Stages (x.queue.step c event)) (grows : Grows x.queue (x.queue.step c event))
    (answers : x.queue.answers event = []) (closes : x.queue.closes event = []) (cancels : x.queue.cancels event = none) :
    Sound (x.step c event) := by
  unfold Watch.step
  rw [answers, closes, cancels, List.append_nil, List.append_nil, Option.toList_none, List.append_nil]
  exact sound.grown hands stages grows

theorem Sound.step (sound : Sound x) (event : Event) (meets : x.Meets event) : Sound (x.step c event) := by
  have hands := sound.hands.step (c := c) event
  have due : ∀ now, event = .database now → ∀ w ∈ x.queue.posted.head?, w.Due x.queue.db := by
    rintro now rfl
    exact meets
  have stages := sound.stages.step (c := c) sound.hands sound.unique event due
  cases event with
  | database now =>
    cases front : x.queue.posted with
    | nil =>
      have stays : x.queue.step c (.database now) = x.queue := by
        unfold Queue.step
        rw [front]
      have none : x.queue.answers (.database now) = [] ∧ x.queue.closes (.database now) = [] := by
        unfold Queue.answers Queue.closes
        rw [front]
        exact ⟨rfl, rfl⟩
      exact sound.quiet hands stages (stays.symm ▸ (Queue.Extends.refl x.queue).grows) none.1 none.2 rfl
    | cons w rest =>
      have after : x.queue.step c (.database now) = { x.queue with
          db := (x.queue.db.handle now w.query).1
          posted := rest
          answered := x.queue.answered ++ [(w, (x.queue.db.handle now w.query).2)] } := by
        unfold Queue.step
        rw [front]
      have none : x.queue.cancels (.database now) = none := rfl
      unfold Watch.step
      rw [none, Option.toList_none, List.append_nil]
      exact sound.database front now (meets w (by rw [front]; rfl)) after hands stages
  | deliver =>
    cases front : x.queue.answered with
    | nil =>
      have stays : x.queue.step c .deliver = x.queue := by
        unfold Queue.step
        rw [front]
      have none : x.queue.cancels .deliver = none := by
        unfold Queue.cancels
        rw [front]
        rfl
      exact sound.quiet hands stages (stays.symm ▸ (Queue.Extends.refl x.queue).grows) rfl rfl none
    | cons y rest =>
      have after : x.queue.step c .deliver = { x.queue with answered := rest }.resume c y.1 y.2 := by
        unfold Queue.step
        rw [front]
      have some : x.queue.cancels .deliver = (y.1.interrupts y.2).or (y.1.withdraws y.2) := by
        unfold Queue.cancels
        rw [front]
        rfl
      have none : x.queue.answers .deliver = [] ∧ x.queue.closes .deliver = [] := ⟨rfl, rfl⟩
      unfold Watch.step
      rw [some, none.1, none.2, List.append_nil, List.append_nil, after]
      exact sound.deliver front (meets y (by rw [front]; rfl)) (after ▸ hands) (after ▸ stages)
  | happen i outcome =>
    cases at_i : x.queue.outside[i]? with
    | none =>
      have stays : x.queue.step c (.happen i outcome) = x.queue := by
        unfold Queue.step
        dsimp only
        rw [at_i]
      exact sound.quiet hands stages (stays.symm ▸ (Queue.Extends.refl x.queue).grows) rfl rfl rfl
    | some worker =>
      have after : x.queue.step c (.happen i outcome) =
          ({ x.queue with outside := x.queue.outside.eraseIdx i } : Queue).follow c
            (worker.1.happened x.queue.stopped worker.2 outcome) := by
        unfold Queue.step
        dsimp only
        rw [at_i]
      have none : x.queue.answers (.happen i outcome) = [] ∧ x.queue.closes (.happen i outcome) = [] ∧
          x.queue.cancels (.happen i outcome) = none := ⟨rfl, rfl, rfl⟩
      unfold Watch.step
      rw [none.1, none.2.1, none.2.2, List.append_nil, List.append_nil, Option.toList_none, List.append_nil]
      exact sound.happen at_i meets after hands stages
  | enqueue user tag request =>
    exact sound.quiet hands stages (Queue.enqueue_extends c x.queue user tag request).grows rfl rfl rfl
  | call purpose id user => exact sound.quiet hands stages (Queue.grows_post _ _) rfl rfl rfl
  | clearHistory username => exact sound.quiet hands stages (Queue.grows_post _ _) rfl rfl rfl
  | progress i =>
    refine sound.quiet hands stages ?_ rfl rfl rfl
    unfold Queue.step
    dsimp only
    split
    · exact Queue.grows_post _ _
    · exact (Queue.Extends.refl x.queue).grows
  | stop =>
    refine sound.quiet hands stages ?_ rfl rfl rfl
    unfold Queue.step
    dsimp only
    split
    · exact (Queue.Extends.refl x.queue).grows
    · exact ⟨rfl, rfl, fun _ member => member, fun y member =>
        ⟨_, List.mem_map_of_mem member, Queue.kill_spared y.1.job.id y⟩⟩

/-- Only the database changes the table. -/
theorem step_db {q : Queue} {event : Event} (other : ∀ now, event ≠ .database now) : (q.step c event).db = q.db := by
  cases event with
  | database now => exact absurd rfl (other now)
  | enqueue user tag request => exact (Queue.enqueue_extends c q user tag request).db
  | call purpose id user => rfl
  | clearHistory username => rfl
  | deliver =>
    unfold Queue.step
    dsimp only
    cases q.answered with
    | nil => rfl
    | cons y rest => exact (Queue.grows_resume c { q with answered := rest } y.1 y.2).db
  | happen i outcome =>
    unfold Queue.step
    dsimp only
    cases q.outside[i]? with
    | none => rfl
    | some worker => exact (Queue.grows_follow c { q with outside := q.outside.eraseIdx i } _).db
  | progress i =>
    unfold Queue.step
    dsimp only
    split <;> rfl
  | stop =>
    unfold Queue.step
    dsimp only
    split <;> rfl

theorem Sound.keeps (sound : Sound x) (event : Event) (meets : x.Meets event) :
    Keeps x.queue.db (x.step c event).queue.db := by
  by_cases asked : ∃ now, event = .database now
  · obtain ⟨now, rfl⟩ := asked
    change Keeps x.queue.db (x.queue.step c (.database now)).db
    cases front : x.queue.posted with
    | nil =>
      unfold Queue.step
      rw [front]
      exact Keeps.refl x.queue.db
    | cons w rest =>
      unfold Queue.step
      rw [front]
      exact sound.due_keeps front (meets w (by rw [front]; rfl)) now
  · have same : (x.step c event).queue.db = x.queue.db := step_db fun now is => asked ⟨now, is⟩
    exact same.symm ▸ Keeps.refl x.queue.db

theorem Sound.once (sound : Sound x) (event : Event) (meets : x.Meets event) :
    ∀ alert ∈ x.queue.answers event, alert ∉ x.closed := by
  intro alert answers closed
  cases event with
  | database now =>
    cases front : x.queue.posted with
    | nil =>
      unfold Queue.answers at answers
      rw [front] at answers
      exact List.not_mem_nil answers
    | cons w rest =>
      have due := meets w (by rw [front]; rfl)
      have there := (closes_front front (answers_closes front due answers)).1
      exact Nat.lt_irrefl _ (((sound.closed alert closed).2 _ there).2 rfl)
  | _ => exact List.not_mem_nil answers

theorem sound_start (c : Config) (now : Nat) {db : Db} (known : db.Known) (unique : db.Unique) :
    Sound (Watch.start c now db) := by
  have more := Queue.pump_extends c { db := db.markInterrupted now }
  have bare : Stages { db := db.markInterrupted now } :=
    ⟨fun _ _ none => absurd none List.not_mem_nil, fun _ _ _ none => absurd none List.not_mem_nil,
      fun _ none => absurd none List.not_mem_nil⟩
  have keys : (db.markInterrupted now).Unique := by
    have same : (db.markInterrupted now).rows.map Job.id = db.rows.map Job.id := by
      simp only [Db.markInterrupted, List.map_map]
      refine List.map_congr_left fun job _ => ?_
      simp only [Function.comp_apply]
      split <;> rfl
    rw [Db.Unique, same]
    exact unique
  have answered : (Watch.start c now db).queue.answered = [] := more.answered
  exact ⟨Queue.hands_start c now known, more.db.symm ▸ keys, bare.extend more,
    fun y member => absurd (answered ▸ member) List.not_mem_nil, fun _ none => absurd none List.not_mem_nil,
    fun _ none => absurd none List.not_mem_nil⟩

end Watch

section Cancelled

end Cancelled

end NixHomeServer.Downloader
