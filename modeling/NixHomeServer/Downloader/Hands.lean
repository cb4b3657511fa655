import NixHomeServer.Downloader.Tokens

/-! Who has a job in hand: the pump, from its claim on, or a worker, until the
job waits for the user. -/
namespace NixHomeServer.Downloader

/-- The job has been claimed, and its row is not read back yet. -/
def Waiter.claims (id : Nat) : Waiter → Reply → Bool
  | .claim, .claimed (some other) => other == id
  | _, _ => false

/-- A worker is over once it picks up this answer: its job waits for the user. -/
def Waiter.settles (id : Nat) : Waiter → Reply → Bool
  | .worker task (.alerting _), .done => task.job.id == id
  | _, _ => false

/-- The job is in the hands of the pump or of a worker. -/
def Waiter.holds (id : Nat) : Waiter → Bool
  | .read other => other == id
  | .hydrate job => job.id == id
  | .worker task _ => task.job.id == id
  | _ => false

/-- The pump puts the job back in line. -/
def Waiter.returns (id : Nat) : Waiter → Bool
  | .putBack other => other == id
  | _ => false

namespace Tally

def claims (id : Nat) : Tally := ⟨fun _ => 0, fun w reply => (w.claims id reply).toNat, fun _ => 0⟩

def settles (id : Nat) : Tally := ⟨fun _ => 0, fun w reply => (w.settles id reply).toNat, fun _ => 0⟩

def holds (id : Nat) : Tally :=
  ⟨fun w => (w.holds id || w.returns id).toNat, fun w reply => (w.holds id && !w.settles id reply).toNat,
    fun task => (task.job.id == id).toNat⟩

end Tally

namespace Queue

theorem plain_claims (id : Nat) : (Tally.claims id).Plain := ⟨rfl, fun _ => rfl⟩

theorem plain_settles (id : Nat) : (Tally.settles id).Plain := ⟨rfl, fun _ => rfl⟩

theorem plain_holds (id : Nat) : (Tally.holds id).Plain := ⟨rfl, fun _ => rfl⟩

/-- A job is in one hand at most, also counting what has been picked up, and it is in none while it
waits for the pump or for the user. -/
structure Hands (hand : Nat → Nat) (q : Queue) : Prop where
  known : q.db.Known
  fresh : ∀ id, q.db.next ≤ id →
    q.tally (.holds id) + hand id = 0 ∧ q.tally (.claims id) = 0 ∧ q.tally (.settles id) = 0
  one : ∀ id, q.tally (.holds id) + hand id + q.tally (.claims id) ≤ 1
  settled : ∀ id, q.tally (.settles id) ≤ 1
  apart : ∀ id, 0 < q.tally (.holds id) + hand id → q.tally (.settles id) = 0
  waits : ∀ job ∈ q.db.rows, job.status = .queued ∨ job.status = .alert →
    q.tally (.holds job.id) + hand job.id + q.tally (.claims job.id) = 0
  ordered : q.answered.Pairwise fun a b => ∀ id, a.1.claims id a.2 = true → b.1.settles id b.2 = false
  read : ∀ id job, (.read id, .row (some job)) ∈ q.answered → job.id = id
  going : q.stopped = false → ∀ id, .putBack id ∉ q.posted

/-- Nothing has been picked up. -/
def idle : Nat → Nat := fun _ => 0

/-- A job has been picked up. -/
def holding (id : Nat) : Nat → Nat := fun other => (id == other).toNat

section Hands

variable {c : Config} {q q' : Queue} {hand : Nat → Nat}

/-- A job goes from one place to another. -/
theorem Hands.moved {other : Nat → Nat} (hands : Hands hand q) (db : q'.db = q.db)
    (holds : ∀ id, q'.tally (.holds id) + other id = q.tally (.holds id) + hand id)
    (claims : ∀ id, q'.tally (.claims id) = q.tally (.claims id))
    (settles : ∀ id, q'.tally (.settles id) = q.tally (.settles id)) (answered : q'.answered = q.answered)
    (going : q'.stopped = false → ∀ id, .putBack id ∉ q'.posted) : Hands other q' where
  known := db ▸ hands.known
  fresh id new := by
    rw [holds, claims, settles]
    exact hands.fresh id (db ▸ new)
  one id := by
    rw [holds, claims]
    exact hands.one id
  settled id := settles id ▸ hands.settled id
  apart id some_hold := by
    rw [settles]
    exact hands.apart id (holds id ▸ some_hold)
  waits job member open_ := by
    rw [holds, claims]
    exact hands.waits job (db ▸ member) open_
  ordered := answered ▸ hands.ordered
  read id job member := hands.read id job (answered ▸ member)
  going := going

theorem Hands.extend (hands : Hands hand q) (more : Extends q q') : Hands hand q' := by
  obtain ⟨added, posted, all⟩ := more.posted
  refine hands.moved more.db (fun id => congrArg (· + hand id) (more.tally (plain_holds id)))
    (fun id => more.tally (plain_claims id)) (fun id => more.tally (plain_settles id)) more.answered
    fun going id member => ?_
  rw [posted] at member
  cases List.mem_append.mp member with
  | inl old => exact hands.going (more.stopped ▸ going) id old
  | inr new => exact absurd (all _ new) Bool.false_ne_true

/-- What was picked up is put down as it was. -/
theorem Hands.put {w : Waiter} {id : Nat} (hands : Hands (holding id) q)
    (keeps : ∀ other, (w.holds other || w.returns other).toNat = holding id other)
    (goes : q.stopped = false → ∀ other, w ≠ .putBack other) : Hands idle (q.post w) := by
  have holds : ∀ other, (q.post w).tally (.holds other) + idle other = q.tally (.holds other) + holding id other := by
    intro other
    rw [← keeps other]
    exact tally_post (m := .holds other) q w
  refine hands.moved rfl holds (fun other => tally_post (m := .claims other) q w)
    (fun other => tally_post (m := .settles other) q w) rfl fun going other member => ?_
  cases List.mem_append.mp member with
  | inl old => exact hands.going going other old
  | inr new => exact goes going other (List.mem_singleton.mp new).symm

/-- What was picked up is over. -/
theorem Hands.drop (hands : Hands hand q) : Hands idle q where
  known := hands.known
  fresh id new := by
    have fresh := hands.fresh id new
    exact ⟨Nat.eq_zero_of_add_eq_zero_right fresh.1, fresh.2⟩
  one id := Nat.le_trans (Nat.add_le_add_right (Nat.le_add_right _ _) _) (hands.one id)
  settled := hands.settled
  apart id some_hold := hands.apart id (Nat.lt_of_lt_of_le some_hold (Nat.le_add_right _ _))
  waits job member open_ := by
    have none := hands.waits job member open_
    simp only [idle]
    omega
  ordered := hands.ordered
  read := hands.read
  going := hands.going

theorem Hands.outside {task : Task} (hands : Hands (holding task.job.id) q) (act : Act) :
    Hands idle { q with outside := q.outside ++ [(task, act)] } :=
  hands.moved rfl (fun other => tally_outside (m := .holds other) q task act)
    (fun other => tally_outside (m := .claims other) q task act)
    (fun other => tally_outside (m := .settles other) q task act) rfl hands.going

/-- A worker that has been picked up goes on with its job, or it is over. -/
theorem Hands.follow {job : Job} (hands : Hands (holding job.id) q) {next : Next}
    (goes : next.job = some job ∨ next = .spent) : Hands idle (q.follow c next) := by
  cases next with
  | ask task ask =>
    have same : task.job = job := by
      cases goes with
      | inl same => exact Option.some.inj same
      | inr spent => cases spent
    subst same
    exact hands.put (fun other => congrArg Bool.toNat (Bool.or_false _)) nofun
  | act task act =>
    have same : task.job = job := by
      cases goes with
      | inl same => exact Option.some.inj same
      | inr spent => cases spent
    subst same
    exact hands.outside act
  | spent =>
    exact hands.drop.extend ((Extends.flags q (q.active - 1) q.pumping q.pumpRequested).trans (pump_extends c _))

/-- An answer that is picked up. -/
theorem Hands.picked (hands : Hands idle q) {w : Waiter} {reply : Reply} {rest : List (Waiter × Reply)}
    (front : q.answered = (w, reply) :: rest) :
    Hands (fun id => (w.holds id && !w.settles id reply).toNat + (w.claims id reply).toNat)
      { q with answered := rest } := by
  have holds := fun id => tally_picked (m := .holds id) front
  have claims := fun id => tally_picked (m := .claims id) front
  have settles := fun id => tally_picked (m := .settles id) front
  simp only [Tally.holds, Tally.claims, Tally.settles] at holds claims settles
  have ordered := hands.ordered
  rw [front] at ordered
  obtain ⟨first, later⟩ := List.pairwise_cons.mp ordered
  exact {
    known := hands.known
    fresh := fun id new => by
      have fresh := hands.fresh id new
      have := holds id
      have := claims id
      have := settles id
      simp only [Tally.holds, Tally.claims, Tally.settles, idle] at fresh ⊢
      omega
    one := fun id => by
      have one := hands.one id
      have := holds id
      have := claims id
      simp only [Tally.holds, Tally.claims, idle] at one ⊢
      omega
    settled := fun id => by
      have settled := hands.settled id
      have := settles id
      simp only [Tally.settles] at settled ⊢
      omega
    apart := fun id some_hold => by
      have := holds id
      have := settles id
      by_cases claimed : w.claims id reply = true
      · exact tally_eq_zero.mpr ⟨fun _ _ => rfl,
          fun b member => congrArg Bool.toNat (first b member id claimed), fun _ _ => rfl⟩
      · rw [Bool.eq_false_iff.mpr claimed] at some_hold
        have before := hands.apart id
        simp only [Tally.holds, Tally.settles, idle, Bool.toNat_false] at before some_hold ⊢
        omega
    waits := fun job member open_ => by
      have none := hands.waits job member open_
      have := holds job.id
      have := claims job.id
      simp only [Tally.holds, Tally.claims, idle] at none ⊢
      omega
    ordered := later
    read := fun id job member => hands.read id job (front ▸ List.mem_cons_of_mem _ member)
    going := hands.going }

/-- A worker that waits outside is picked up. -/
theorem Hands.taken (hands : Hands idle q) {i : Nat} {task : Task} {act : Act}
    (at_i : q.outside[i]? = some (task, act)) :
    Hands (holding task.job.id) { q with outside := q.outside.eraseIdx i } := by
  have holds : ∀ id, ({ q with outside := q.outside.eraseIdx i } : Queue).tally (.holds id) + holding task.job.id id =
      q.tally (.holds id) + idle id := fun id => tally_taken (m := .holds id) at_i
  have claims : ∀ id, ({ q with outside := q.outside.eraseIdx i } : Queue).tally (.claims id) = q.tally (.claims id) :=
    fun id => tally_taken (m := .claims id) at_i
  have settles : ∀ id, ({ q with outside := q.outside.eraseIdx i } : Queue).tally (.settles id) =
      q.tally (.settles id) := fun id => tally_taken (m := .settles id) at_i
  exact hands.moved rfl holds claims settles rfl hands.going

theorem Hands.noted (hands : Hands idle q) (id : Nat) : Hands idle (q.post (.progress id)) :=
  hands.moved rfl (fun other => tally_post (m := .holds other) q _) (fun other => tally_post (m := .claims other) q _)
    (fun other => tally_post (m := .settles other) q _) rfl fun going other there =>
      (List.mem_append.mp there).elim (hands.going going other) fun new => absurd (List.mem_singleton.mp new) nofun

theorem Hands.cast {other : Nat → Nat} (hands : Hands hand q) (same : ∀ id, hand id = other id) :
    Hands other q := funext same ▸ hands

theorem Hands.startJob {job : Job} (hands : Hands (holding job.id) q) : Hands idle (q.startJob c job) := by
  have begun := hands.extend (Extends.flags q (q.active + 1) q.pumping q.pumpRequested)
  exact (begun.follow (Or.inl (Task.begin_job c job))).extend (claimNext_extends c _)

/-- A worker's answer leaves the job in its hand, or it settles it. -/
theorem settles_cases (task : Task) (ask : Ask) (reply : Reply) :
    (∃ alert, ask = .alerting alert ∧ reply = .done) ∨
      ∀ id, (Waiter.worker task ask).settles id reply = false := by
  cases ask with
  | alerting alert =>
    cases reply with
    | done => exact Or.inl ⟨alert, rfl, rfl⟩
    | _ => exact Or.inr fun _ => rfl
  | _ => exact Or.inr fun _ => rfl

theorem Hands.resume (hands : Hands idle q) {w : Waiter} {reply : Reply}
    {rest : List (Waiter × Reply)} (front : q.answered = (w, reply) :: rest) :
    Hands idle ({ q with answered := rest }.resume c w reply) := by
  have picked := hands.picked front
  have ends := picked.drop.extend (endPump_extends c _)
  cases w with
  | claim =>
    cases reply with
    | claimed id =>
      cases id with
      | some id => exact (picked.cast fun _ => Nat.zero_add _).put (fun _ => congrArg Bool.toNat (Bool.or_false _)) nofun
      | none => exact ends
    | _ => exact ends
  | read id =>
    cases reply with
    | row job =>
      cases job with
      | some job =>
        have same := hands.read id job (front ▸ List.mem_cons_self)
        have held : Hands (holding job.id) { q with answered := rest } := picked.cast fun other => by
          simp only [Waiter.holds, Waiter.settles, Waiter.claims, same, holding, Bool.not_false, Bool.and_true,
            Bool.toNat_false, Nat.add_zero]
        exact held.put (fun _ => congrArg Bool.toNat (Bool.or_false _)) nofun
      | none => exact ends
    | _ => exact ends
  | hydrate job =>
    cases reply with
    | done =>
      have held : Hands (holding job.id) { q with answered := rest } := picked.cast fun other => by
        simp only [Waiter.holds, Waiter.settles, Waiter.claims, holding, Bool.not_false, Bool.and_true,
          Bool.toNat_false, Nat.add_zero]
      by_cases stops : q.stopped = true
      · have goes : ({ q with answered := rest } : Queue).resume c (.hydrate job) .done =
            { q with answered := rest }.post (.putBack job.id) := if_pos stops
        rw [goes]
        exact held.put (fun _ => rfl) fun going => absurd (going.symm.trans stops) nofun
      · have goes : ({ q with answered := rest } : Queue).resume c (.hydrate job) .done =
            { q with answered := rest }.startJob c job := if_neg stops
        rw [goes]
        exact held.startJob
    | _ => exact ends
  | putBack id => exact ends
  | call asked => exact picked.drop.extend (returned_extends c _ asked reply)
  | worker task ask =>
    rcases settles_cases task ask reply with ⟨alert, rfl, rfl⟩ | none
    · exact picked.drop.extend ((Extends.flags _ _ _ _).trans (pump_extends c _))
    · have held : Hands (holding task.job.id) { q with answered := rest } := picked.cast fun id => by
        simp only [none id, Waiter.holds, Waiter.claims, holding, Bool.not_false, Bool.and_true,
          Bool.toNat_false, Nat.add_zero]
      exact held.follow (task.answered_job c _ ask reply)
  | progress id => exact picked.drop

/-- Only the pump puts a job back in line. -/
theorem query_setStatus {w : Waiter} {id : Nat} {status : Status} (asks : w.query = .setStatus id status)
    (open_ : status = .queued ∨ status = .alert) : w = .putBack id := by
  cases w with
  | putBack other => rw [(Query.setStatus.inj asks).1]
  | call asked => cases asked <;> cases asks <;> exact absurd open_ (by decide)
  | worker task ask =>
    cases ask with
    | ending how =>
      obtain ⟨-, rfl⟩ := Query.setStatus.inj asks
      cases how <;> exact absurd open_ (by decide)
    | _ =>
      cases asks
      all_goals exact absurd open_ (by decide)
  | _ => cases asks

/-- Only a worker makes its job wait for the user. -/
theorem query_setAlert {w : Waiter} {id : Nat} {alert : Alert} (asks : w.query = .setAlert id alert) :
    ∃ task, w = .worker task (.alerting alert) ∧ task.job.id = id := by
  cases w with
  | worker task ask =>
    cases ask <;> cases asks
    exact ⟨task, rfl, rfl⟩
  | call asked => cases asked <;> cases asks
  | _ => cases asks

theorem query_createJob {w : Waiter} {createdBy : String} {tag : Nat} {request : CreateJobRequest}
    {alert : Option Alert} (asks : w.query = .createJob createdBy tag request alert) :
    ∃ user, w = .call (.creating user tag request alert) := by
  cases w with
  | call asked =>
    cases asked <;> cases asks
    exact ⟨_, rfl⟩
  | worker task ask => cases ask <;> cases asks
  | _ => cases asks

theorem query_requeue {w : Waiter} {id : Nat} {request : CreateJobRequest} (asks : w.query = .requeue id request) :
    ∃ job, w = .call (.requeueing job request) ∧ job.id = id := by
  cases w with
  | call asked =>
    cases asked <;> cases asks
    exact ⟨_, rfl, rfl⟩
  | worker task ask => cases ask <;> cases asks
  | _ => cases asks

theorem query_claim {w : Waiter} (asks : w.query = .claim) : w = .claim := by
  cases w with
  | claim => rfl
  | call asked => cases asked <;> cases asks
  | worker task ask => cases ask <;> cases asks
  | _ => cases asks

theorem handle_claimed {db : Db} {now : Nat} {w : Waiter} {id : Nat}
    (claims : w.claims id (db.handle now w.query).2 = true) :
    w = .claim ∧ (db.handle now w.query).2 = .claimed (some id) ∧ ∃ job ∈ db.rows, job.id = id ∧ job.status = .queued := by
  cases w with
  | claim =>
    rcases Db.handle_claim now db with ⟨nothing, _⟩ | ⟨job, member, queued, taken⟩
    · rw [Waiter.query, nothing] at claims
      cases claims
    · rw [Waiter.query, taken] at claims ⊢
      have same : job.id = id := beq_iff_eq.mp claims
      exact ⟨rfl, by rw [same], job, member, same, queued⟩
  | _ => cases claims

/-- The database answers the request in front. -/
theorem Hands.database (hands : Hands idle q) {w : Waiter} {rest : List Waiter} (front : q.posted = w :: rest)
    (now : Nat) : Hands idle { q with
      db := (q.db.handle now w.query).1
      posted := rest
      answered := q.answered ++ [(w, (q.db.handle now w.query).2)] } := by
  have handled := fun m => tally_handled (m := m) front (q.db.handle now w.query).1 (q.db.handle now w.query).2
  generalize after : ({ q with
      db := (q.db.handle now w.query).1
      posted := rest
      answered := q.answered ++ [(w, (q.db.handle now w.query).2)] } : Queue) = q' at handled ⊢
  have holds : ∀ id, q'.tally (.holds id) + (w.holds id || w.returns id).toNat =
      q.tally (.holds id) + (w.holds id && !w.settles id (q.db.handle now w.query).2).toNat := fun id => handled (.holds id)
  have claims : ∀ id, q'.tally (.claims id) = q.tally (.claims id) + (w.claims id (q.db.handle now w.query).2).toNat :=
    fun id => handled (.claims id)
  have settles : ∀ id, q'.tally (.settles id) =
      q.tally (.settles id) + (w.settles id (q.db.handle now w.query).2).toNat := fun id => handled (.settles id)
  have member : w ∈ q.posted := front ▸ List.mem_cons_self
  have inHand : ∀ id, (w.holds id || w.returns id) = true → 0 < q.tally (.holds id) := by
    intro id yes
    refine Nat.pos_of_ne_zero fun none => ?_
    have zero : (w.holds id || w.returns id).toNat = 0 := (tally_eq_zero.mp none).1 w member
    rw [yes] at zero
    cases zero
  have held : ∀ id, w.holds id = true → 0 < q.tally (.holds id) := fun id yes =>
    inHand id (by rw [yes, Bool.true_or])
  have lets : ∀ id, w.holds id = true → q'.tally (.holds id) + 1 =
      q.tally (.holds id) + (!w.settles id (q.db.handle now w.query).2).toNat := by
    intro id yes
    have total := holds id
    rw [yes, Bool.true_or, Bool.true_and, Bool.toNat_true] at total
    exact total
  -- a job that is settled was in the hand of its worker
  have settling : ∀ id, w.settles id (q.db.handle now w.query).2 = true → w.holds id = true := by
    intro id yes
    cases w with
    | worker task ask =>
      rcases settles_cases task ask (q.db.handle now (ask.query task)).2 with ⟨alert, rfl, done⟩ | none
      · rw [Waiter.query, done] at yes
        exact yes
      · exact absurd (yes.symm.trans (none id)) nofun
    | _ => cases yes
  have claiming : ∀ id, w.claims id (q.db.handle now w.query).2 = true →
      w.holds id = false ∧ q.tally (.holds id) = 0 ∧ q.tally (.claims id) = 0 ∧ id < q.db.next := by
    intro id yes
    obtain ⟨rfl, _, job, there, rfl, queued⟩ := handle_claimed yes
    have none := hands.waits job there (Or.inl queued)
    simp only [idle] at none
    exact ⟨rfl, by omega, by omega, hands.known job there⟩
  have db : q'.db = (q.db.handle now w.query).1 := by rw [← after]
  have answered : q'.answered = q.answered ++ [(w, (q.db.handle now w.query).2)] := by rw [← after]
  have counts : ∀ id, q'.tally (.holds id) ≤ q.tally (.holds id) := by
    intro id
    cases held : w.holds id with
    | false =>
      have total := holds id
      rw [held, Bool.false_and] at total
      exact Nat.le_of_add_right_le (Nat.le_of_eq total)
    | true =>
      have total := lets id held
      have one := Bool.toNat_le (!w.settles id (q.db.handle now w.query).2)
      omega
  exact {
    known := db ▸ hands.known.handle now w.query
    fresh := fun id new => by
      have old : q.db.next ≤ id := Nat.le_trans (Db.handle_next now q.db w.query) (db ▸ new)
      obtain ⟨none, unclaimed, unsettled⟩ := hands.fresh id old
      have less := counts id
      have k : w.claims id (q.db.handle now w.query).2 = false := Bool.eq_false_iff.mpr fun yes => by
        have := (claiming id yes).2.2.2
        omega
      have s : w.settles id (q.db.handle now w.query).2 = false := Bool.eq_false_iff.mpr fun yes => by
        have := held id (settling id yes)
        omega
      have first := claims id
      have second := settles id
      rw [k] at first
      rw [s] at second
      simp only [Bool.toNat_false, idle] at first second none ⊢
      omega
    one := fun id => by
      have one := hands.one id
      have less := counts id
      have total := claims id
      simp only [idle] at one ⊢
      cases k : w.claims id (q.db.handle now w.query).2 with
      | false =>
        rw [k] at total
        simp only [Bool.toNat_false] at total
        omega
      | true =>
        have free := claiming id k
        rw [k] at total
        simp only [Bool.toNat_true] at total
        omega
    settled := fun id => by
      have total := settles id
      cases s : w.settles id (q.db.handle now w.query).2 with
      | false =>
        rw [s] at total
        exact total ▸ hands.settled id
      | true =>
        have none := hands.apart id (held id (settling id s))
        rw [s, none] at total
        exact Nat.le_of_eq total
    apart := fun id some_hold => by
      have total := settles id
      have less := counts id
      simp only [idle] at some_hold
      have none := hands.apart id (by simp only [idle]; omega)
      cases s : w.settles id (q.db.handle now w.query).2 with
      | false =>
        rw [s, none] at total
        exact total
      | true =>
        have dropped := lets id (settling id s)
        have one := hands.one id
        rw [s] at dropped
        simp only [idle, Bool.not_true, Bool.toNat_false] at one dropped
        omega
    waits := fun job present open_ => by
      rw [db] at present
      have less := counts job.id
      have total := claims job.id
      simp only [idle]
      rcases Db.handle_open present open_ with ⟨old, there, same, waits, -, other⟩ | ⟨-, alert, asks, done⟩ |
        ⟨new, createdBy, tag, request, alert, asks, -⟩ | ⟨status, asks, waits⟩
      · have none := hands.waits old there waits
        have k : w.claims job.id (q.db.handle now w.query).2 = false := Bool.eq_false_iff.mpr fun yes =>
          other (handle_claimed yes).2.1
        rw [k] at total
        rw [same] at none
        simp only [idle, Bool.toNat_false] at none total
        omega
      · obtain ⟨task, rfl, same⟩ := query_setAlert asks
        have s : (Waiter.worker task (.alerting alert)).settles job.id
            (q.db.handle now (Waiter.worker task (.alerting alert)).query).2 = true := by
          rw [done]
          exact beq_iff_eq.mpr same
        have dropped := lets job.id (settling job.id s)
        have one := hands.one job.id
        have k : (Waiter.worker task (.alerting alert)).claims job.id
            (q.db.handle now (Waiter.worker task (.alerting alert)).query).2 = false := rfl
        rw [s] at dropped
        rw [k] at total
        simp only [idle, Bool.not_true, Bool.toNat_false] at one dropped total
        omega
      · have fresh := hands.fresh job.id (Nat.le_of_eq new.symm)
        obtain ⟨user, rfl⟩ := query_createJob asks
        have k : (Waiter.call (.creating user tag request alert)).claims job.id
            (q.db.handle now (Waiter.call (.creating user tag request alert)).query).2 = false := rfl
        rw [k] at total
        simp only [idle, Bool.toNat_false] at fresh total
        omega
      · obtain rfl := query_setStatus asks waits
        have dropped := holds job.id
        have one := hands.one job.id
        have k : (Waiter.putBack job.id).claims job.id (q.db.handle now (Waiter.putBack job.id).query).2 = false := rfl
        rw [k] at total
        simp only [idle, Waiter.holds, Waiter.returns, beq_self_eq_true, Bool.or_true, Bool.false_and, Bool.toNat_true,
          Bool.toNat_false] at one dropped total
        omega
    ordered := by
      rw [answered, List.pairwise_append]
      refine ⟨hands.ordered, List.pairwise_singleton _ _, fun a first b last id claimed => ?_⟩
      obtain rfl := List.mem_singleton.mp last
      refine Bool.eq_false_iff.mpr fun yes => ?_
      have one := hands.one id
      have some_hold := held id (settling id yes)
      have some_claim : 0 < q.tally (.claims id) := by
        refine Nat.pos_of_ne_zero fun none => ?_
        have zero : (a.1.claims id a.2).toNat = 0 := (tally_eq_zero.mp none).2.1 a first
        rw [claimed] at zero
        cases zero
      simp only [idle] at one
      omega
    read := fun id job there => by
      rw [answered] at there
      cases List.mem_append.mp there with
      | inl old => exact hands.read id job old
      | inr new =>
        have same := List.mem_singleton.mp new
        obtain ⟨rfl, reply⟩ := Prod.mk.inj same
        exact (Db.find_some (Reply.row.inj reply).symm).2
    going := fun going id there => by
      rw [← after] at going there
      exact hands.going going id (front ▸ List.mem_cons_of_mem _ there) }

theorem Hands.step (hands : Hands idle q) (event : Event) : Hands idle (q.step c event) := by
  cases event with
  | enqueue user tag request => exact hands.extend (enqueue_extends c q user tag request)
  | call purpose id user => exact hands.extend ((Extends.refl q).post rfl)
  | clearHistory username => exact hands.extend ((Extends.refl q).post rfl)
  | database now =>
    unfold Queue.step
    dsimp only
    cases front : q.posted with
    | nil => exact hands
    | cons w rest => exact hands.database front now
  | deliver =>
    unfold Queue.step
    dsimp only
    cases front : q.answered with
    | nil => exact hands
    | cons x rest => exact hands.resume front
  | happen i outcome =>
    unfold Queue.step
    dsimp only
    cases at_i : q.outside[i]? with
    | none => exact hands
    | some worker => exact (hands.taken at_i).follow (worker.1.happened_job q.stopped worker.2 outcome)
  | progress i =>
    unfold Queue.step
    dsimp only
    split
    · exact hands.noted _
    · exact hands
  | stop =>
    unfold Queue.step
    dsimp only
    split
    · exact hands
    · have killed : ∀ m, ({ q with
          stopped := true
          pumpRequested := false
          outside := q.outside.map fun worker => kill worker.1.job.id worker } : Queue).tally m = q.tally m := by
        intro m
        simp only [tally, List.map_map, Function.comp_def, kill_task]
      exact hands.moved rfl (fun id => congrArg (· + idle id) (killed _)) (fun id => killed _) (fun id => killed _)
        rfl (by simp)

theorem hands_start (c : Config) (now : Nat) {db : Db} (known : db.Known) : Hands idle (Queue.start c now db) := by
  have marked : (db.markInterrupted now).Known := by
    intro job member
    obtain ⟨old, there, rfl⟩ := List.mem_map.mp member
    split <;> exact known old there
  have hands : Hands idle { db := db.markInterrupted now } :=
    ⟨marked, fun _ _ => ⟨rfl, rfl, rfl⟩, fun _ => Nat.zero_le _, fun _ => Nat.zero_le _, fun _ _ => rfl,
      fun _ _ _ => rfl, List.Pairwise.nil, fun _ _ none => absurd none List.not_mem_nil,
      fun _ _ none => absurd none List.not_mem_nil⟩
  exact hands.extend (pump_extends c _)

end Hands

end Queue

end NixHomeServer.Downloader
