import NixHomeServer.Downloader.Hands

/-! The pump looks after every queued job: no wake-up is lost, and no job has
two workers. -/
namespace NixHomeServer.Downloader

open NixHomeServer.Library

/-- A loop of the pump waits. -/
def Waiter.pumps : Waiter → Bool
  | .claim | .read _ | .hydrate _ | .putBack _ => true
  | _ => false

def Waiter.worksAt (id : Nat) : Waiter → Bool
  | .worker task _ => task.job.id == id
  | _ => false

/-- A call that has put the job in line and starts the pump with this answer or with its next one. -/
def Waiter.brings (id : Nat) : Waiter → Reply → Bool
  | .call (.creating _ _ _ none), .created other => other == id
  | .call (.requeueing job _), _ => job.id == id
  | .call (.noting other), _ => other == id
  | _, _ => false

/-- The pump goes round again, or it is about to start a worker. -/
def Waiter.sweeps : Waiter → Reply → Bool
  | .claim, .claimed (some _) => true
  | .read _, _ | .hydrate _, _ => true
  | _, _ => false

namespace Tally

def loops : Tally := ⟨fun w => w.pumps.toNat, fun w _ => w.pumps.toNat, fun _ => 0⟩

def live : Tally := ⟨fun w => match w with | .worker _ _ => 1 | _ => 0,
  fun w _ => match w with | .worker _ _ => 1 | _ => 0, fun _ => 1⟩

def works (id : Nat) : Tally :=
  ⟨fun w => (w.worksAt id).toNat, fun w _ => (w.worksAt id).toNat, fun task => (task.job.id == id).toNat⟩

end Tally

namespace Queue

/-- The loops of the pump. -/
def loops (q : Queue) : Nat := q.tally .loops

/-- The workers that have been started and are not over. -/
def live (q : Queue) : Nat := q.tally .live

def workersAt (q : Queue) (id : Nat) : Nat := q.tally (.works id)

/-- A call that has put the job in line is about to start the pump. -/
def Coming (q : Queue) (id : Nat) : Prop :=
  (∃ x ∈ q.answered, x.1.brings id x.2 = true) ∨ .call (.noting id) ∈ q.posted

/-- The pump has been asked for. -/
def Requested (q : Queue) : Prop := q.pumpRequested = true ∨ ∃ id, q.Coming id

/-- No job waits while a worker could be started for it. -/
structure Tended (c : Config) (q : Queue) : Prop where
  counted : q.active = q.live
  bounded : q.active ≤ c.concurrency
  single : ∀ id, q.workersAt id ≤ 1
  loop : q.loops ≤ 1
  awake : q.loops = 0 → ¬q.Requested → q.active = c.concurrency ∨ ∀ job ∈ q.db.rows, job.status ≠ .queued

/-- The jobs that the pump has claimed and not read back. -/
def unread (q : Queue) : List Nat :=
  (q.answered.filterMap fun x => match x with
    | (.claim, .claimed id) => id
    | _ => none) ++
  q.posted.filterMap fun w => match w with
    | .read id => some id
    | _ => none

/-- The service is not stopped, and no request fails. -/
def Promised (q : Queue) : Event → Prop
  | .stop => False
  | .deliver => ∀ x ∈ q.answered.head?, x.2 ≠ .failed
  | _ => True

instance (q : Queue) (event : Event) : Decidable (q.Promised event) :=
  match event with
  | .stop => isFalse id
  | .deliver => inferInstanceAs (Decidable (∀ x ∈ q.answered.head?, x.2 ≠ .failed))
  | .enqueue _ _ _ | .call _ _ _ | .clearHistory _ | .database _ | .happen _ _ | .progress _ => isTrue trivial

/-- No job is deleted between its claim and the read that follows. -/
def Meets (q : Queue) : Event → Prop
  | .database now => ∀ w ∈ q.posted.head?, ∀ id ∈ q.unread, ((q.db.handle now w.query).1.find id).isSome = true
  | _ => True

instance (q : Queue) (event : Event) : Decidable (q.Meets event) :=
  match event with
  | .database now => inferInstanceAs (Decidable
      (∀ w ∈ q.posted.head?, ∀ id ∈ q.unread, ((q.db.handle now w.query).1.find id).isSome = true))
  | .enqueue _ _ _ | .call _ _ _ | .clearHistory _ | .deliver | .happen _ _ | .progress _ | .stop => isTrue trivial

end Queue

namespace Queue

section Counts

variable {c : Config} {q : Queue}

theorem plain_live : Tally.live.Plain := ⟨rfl, fun _ => rfl⟩

theorem plain_works (id : Nat) : (Tally.works id).Plain := ⟨rfl, fun _ => rfl⟩

/-- The counter of workers and the flags of the pump say what is under way. -/
structure Counts (c : Config) (q : Queue) : Prop where
  going : q.stopped = false
  counted : q.active = q.live
  bounded : q.active ≤ c.concurrency
  loops : q.loops = q.pumping.toNat
  asked : q.pumpRequested = true → q.pumping = true
  room : q.pumping = true → q.active < c.concurrency

theorem Counts.post (counts : Counts c q) {w : Waiter} (idle : w.pumps = false)
    (other : Tally.live.posted w = 0) : Counts c (q.post w) where
  going := counts.going
  counted := by
    rw [live, tally_post, other]
    exact counts.counted
  bounded := counts.bounded
  loops := by
    have none : Tally.loops.posted w = 0 := congrArg Bool.toNat idle
    have same := tally_post (m := .loops) q w
    rw [none] at same
    exact same.trans counts.loops
  asked := counts.asked
  room := counts.room

/-- The loop posts its next claim. -/
theorem counts_claim (going : q.stopped = false) (counted : q.active = q.live) (idle : q.loops = 0)
    (room : q.active < c.concurrency) :
    Counts c ({ q with pumping := true }.post .claim) where
  going := going
  counted := counted.trans (tally_post (m := .live) q .claim).symm
  bounded := Nat.le_of_lt room
  loops := by
    have one := tally_post (m := .loops) { q with pumping := true } .claim
    exact one.trans (congrArg (· + 1) idle)
  asked _ := rfl
  room _ := room

theorem Counts.pump (counts : Counts c q) : Counts c (q.pump c) := by
  unfold Queue.pump
  split
  · rename_i stops
    exact absurd (counts.going.symm.trans stops) nofun
  · split
    · rename_i pumping
      exact { counts with asked := fun _ => pumping }
    · rename_i idle
      split
      · rename_i room
        have none : q.loops = 0 := counts.loops.trans (by rw [Bool.eq_false_iff.mpr idle]; rfl)
        exact counts_claim counts.going counts.counted none room
      · exact counts

theorem counts_endPump (going : q.stopped = false) (counted : q.active = q.live)
    (bounded : q.active ≤ c.concurrency) (idle : q.loops = 0) : Counts c (q.endPump c) := by
  have counts : ∀ requested, requested = false →
      Counts c { q with pumping := false, pumpRequested := requested } := fun requested none =>
    ⟨going, counted, bounded, idle, fun asked => absurd (none.symm.trans asked) nofun, nofun⟩
  unfold Queue.endPump
  dsimp only
  split
  · exact (counts false rfl).pump
  · rename_i nothing
    rw [going] at nothing
    refine counts q.pumpRequested ?_
    simpa using nothing

theorem counts_claimNext (going : q.stopped = false) (counted : q.active = q.live)
    (bounded : q.active ≤ c.concurrency) (idle : q.loops = 0) (pumping : q.pumping = true) :
    Counts c (q.claimNext c) := by
  unfold Queue.claimNext
  split
  · rename_i more
    simp only [Bool.and_eq_true, decide_eq_true_eq] at more
    have same : ({ q with pumping := true } : Queue) = q := by rw [← pumping]
    exact same ▸ counts_claim going counted idle more.2
  · exact counts_endPump going counted bounded idle

/-- A worker that has been picked up goes on. -/
theorem counts_follow (going : q.stopped = false) (counted : q.active = q.live + 1)
    (bounded : q.active ≤ c.concurrency) (loops : q.loops = q.pumping.toNat)
    (asked : q.pumpRequested = true → q.pumping = true) (room : q.pumping = true → q.active < c.concurrency)
    (next : Next) : Counts c (q.follow c next) := by
  cases next with
  | ask task ask =>
    exact ⟨going, counted.trans (tally_follow plain_live q (.ask task ask)).symm, bounded,
      (tally_post (m := .loops) q _).trans loops, asked, room⟩
  | act task act =>
    exact ⟨going, counted.trans (tally_outside (m := .live) q task act).symm, bounded,
      (tally_outside (m := .loops) q task act).trans loops, asked, room⟩
  | spent =>
    have less : Counts c { q with active := q.active - 1 } :=
      ⟨going, Nat.sub_eq_of_eq_add counted, Nat.le_trans (Nat.sub_le _ _) bounded, loops, asked,
        fun pumping => Nat.lt_of_le_of_lt (Nat.sub_le _ _) (room pumping)⟩
    exact less.pump

theorem Counts.enqueue (counts : Counts c q) (user : User) (tag : Nat) (request : CreateJobRequest) :
    Counts c (q.enqueue c user tag request) := by
  unfold Queue.enqueue
  dsimp only
  split
  · exact counts
  · split
    · exact counts
    · split
      · exact counts
      · split <;> exact counts.post rfl rfl

theorem Counts.outside (counts : Counts c q) (id : Nat) : Counts c { q with outside := q.outside.map (kill id) } := by
  have same : ∀ m, ({ q with outside := q.outside.map (kill id) } : Queue).tally m = q.tally m := by
    intro m
    have tasks : (q.outside.map (kill id)).map (fun x => m.outside x.1) = q.outside.map fun x => m.outside x.1 := by
      rw [List.map_map]
      exact List.map_congr_left fun worker _ => congrArg m.outside (kill_task id worker)
    simp only [tally, tasks]
  exact ⟨counts.going, counts.counted.trans (same .live).symm, counts.bounded,
    (same .loops).trans counts.loops, counts.asked, counts.room⟩

theorem Counts.returned (counts : Counts c q) (call : Call) (reply : Reply) : Counts c (q.returned c call reply) := by
  unfold Queue.returned
  split
  · split <;> exact counts.post rfl rfl
  · exact counts.post rfl rfl
  · exact counts.pump
  · exact counts.post rfl rfl
  · exact counts.enqueue _ _ _
  · unfold Queue.cancel
    dsimp only
    split
    · exact (counts.outside _).post rfl rfl
    · exact counts.outside _
  · unfold Queue.resolveAlert
    split
    · split
      · exact counts.post rfl rfl
      · split
        · exact counts.post rfl rfl
        · exact counts
    · exact counts
  · exact counts.post rfl rfl
  · exact counts.post rfl rfl
  · exact counts.pump
  · exact counts

/-- The same while one waiter has been picked up and has not gone on. -/
structure Owes (c : Config) (w : Waiter) (q : Queue) : Prop where
  going : q.stopped = false
  counted : q.active = q.live + Tally.live.posted w
  bounded : q.active ≤ c.concurrency
  loops : q.loops + w.pumps.toNat = q.pumping.toNat
  asked : q.pumpRequested = true → q.pumping = true
  room : q.pumping = true → q.active < c.concurrency

theorem Counts.owes (counts : Counts c q) {w : Waiter} {reply : Reply} {rest : List (Waiter × Reply)}
    (front : q.answered = (w, reply) :: rest) : Owes c w { q with answered := rest } := by
  have live : ({ q with answered := rest } : Queue).live + Tally.live.posted w = q.live := by
    have picked := tally_picked (m := .live) front
    cases w <;> exact picked
  have loops : ({ q with answered := rest } : Queue).loops + w.pumps.toNat = q.loops :=
    tally_picked (m := .loops) front
  exact ⟨counts.going, counts.counted.trans live.symm, counts.bounded, loops.trans counts.loops, counts.asked,
    counts.room⟩

theorem Owes.settled {w : Waiter} (owes : Owes c w q) (idle : w.pumps = false)
    (other : Tally.live.posted w = 0) : Counts c q := by
  have counted := owes.counted
  have loops := owes.loops
  rw [other] at counted
  rw [idle] at loops
  exact ⟨owes.going, counted, owes.bounded, loops, owes.asked, owes.room⟩

/-- The loop that has been picked up is the only one. -/
theorem Owes.loop {w : Waiter} (owes : Owes c w q) (pumps : w.pumps = true) :
    q.loops = 0 ∧ q.pumping = true ∧ q.active = q.live := by
  have counted := owes.counted
  have loops := owes.loops
  have none : Tally.live.posted w = 0 := by cases w <;> first | rfl | cases pumps
  rw [none] at counted
  rw [pumps] at loops
  cases pumping : q.pumping with
  | false =>
    rw [pumping] at loops
    simp only [Bool.toNat_true, Bool.toNat_false] at loops
    omega
  | true =>
    rw [pumping] at loops
    simp only [Bool.toNat_true] at loops
    exact ⟨by omega, rfl, counted⟩

theorem Owes.again {w next : Waiter} (owes : Owes c w q) (pumps : w.pumps = true) (goes : next.pumps = true)
    (other : Tally.live.posted next = 0) : Counts c (q.post next) := by
  obtain ⟨idle, pumping, counted⟩ := owes.loop pumps
  have posted := tally_post (m := .loops) q next
  have kept := tally_post (m := .live) q next
  have one : Tally.loops.posted next = 1 := congrArg Bool.toNat goes
  rw [other] at kept
  refine ⟨owes.going, counted.trans kept.symm, owes.bounded, ?_, owes.asked, owes.room⟩
  have flag : (q.post next).pumping.toNat = 1 := congrArg Bool.toNat pumping
  rw [flag]
  exact posted.trans (by rw [one]; exact congrArg (· + 1) idle)

theorem Owes.ends {w : Waiter} (owes : Owes c w q) (pumps : w.pumps = true) : Counts c (q.endPump c) :=
  counts_endPump owes.going (owes.loop pumps).2.2 owes.bounded (owes.loop pumps).1

theorem Owes.starts {job : Job} (owes : Owes c (.hydrate job) q) : Counts c (q.startJob c job) := by
  obtain ⟨idle, pumping, counted⟩ := owes.loop rfl
  have room := owes.room pumping
  unfold startJob
  have started : ∀ next, next.job = some job →
      ({ q with active := q.active + 1 }.follow c next).stopped = false ∧
      ({ q with active := q.active + 1 }.follow c next).active =
        ({ q with active := q.active + 1 }.follow c next).live ∧
      ({ q with active := q.active + 1 }.follow c next).active ≤ c.concurrency ∧
      ({ q with active := q.active + 1 }.follow c next).loops = 0 ∧
      ({ q with active := q.active + 1 }.follow c next).pumping = true := by
    intro next goes
    have live := tally_follow (c := c) plain_live { q with active := q.active + 1 } next
    cases next with
    | ask task ask =>
      have loops := tally_post (m := .loops) { q with active := q.active + 1 } (.worker task ask)
      exact ⟨owes.going, (congrArg (· + 1) counted).trans live.symm, room, loops.trans idle, pumping⟩
    | act task act =>
      refine ⟨owes.going, (congrArg (· + 1) counted).trans live.symm, room, ?_, pumping⟩
      simp only [Queue.loops, tally, follow, List.map_append, List.sum_append] at idle ⊢
      exact idle
    | spent => cases goes
  obtain ⟨going, same, bounded, none, goes⟩ := started (Task.begin c job) (Task.begin_job c job)
  exact counts_claimNext going same bounded none goes

theorem Owes.resume {w : Waiter} (owes : Owes c w q) (reply : Reply) : Counts c (q.resume c w reply) := by
  cases w with
  | claim =>
    cases reply with
    | claimed id =>
      cases id with
      | some id => exact owes.again rfl rfl rfl
      | none => exact owes.ends rfl
    | _ => exact owes.ends rfl
  | read id =>
    cases reply with
    | row job =>
      cases job with
      | some job => exact owes.again rfl rfl rfl
      | none => exact owes.ends rfl
    | _ => exact owes.ends rfl
  | hydrate job =>
    cases reply with
    | done =>
      simp only [Queue.resume, owes.going, Bool.false_eq_true, if_false]
      exact owes.starts
    | _ => exact owes.ends rfl
  | putBack id => exact owes.ends rfl
  | call call => exact (owes.settled rfl rfl).returned call reply
  | worker task ask =>
    exact counts_follow owes.going owes.counted owes.bounded owes.loops owes.asked owes.room _
  | progress id => exact owes.settled rfl rfl

theorem Counts.step (counts : Counts c q) (event : Event) (goes : event ≠ .stop) : Counts c (q.step c event) := by
  cases event with
  | enqueue user tag request => exact counts.enqueue user tag request
  | call purpose id user => exact counts.post rfl rfl
  | clearHistory username => exact counts.post rfl rfl
  | database now =>
    unfold Queue.step
    cases front : q.posted with
    | nil => exact counts
    | cons w rest =>
      have handled := fun m => tally_handled (m := m) front (q.db.handle now w.query).1 (q.db.handle now w.query).2
      have live := handled .live
      have loops := handled .loops
      refine ⟨counts.going, ?_, counts.bounded, ?_, counts.asked, counts.room⟩
      · refine counts.counted.trans ?_
        cases w <;> exact (Nat.add_right_cancel live).symm
      · exact (Nat.add_right_cancel loops).trans counts.loops
  | deliver =>
    unfold Queue.step
    cases front : q.answered with
    | nil => exact counts
    | cons x rest => exact (counts.owes front).resume x.2
  | happen i outcome =>
    unfold Queue.step
    dsimp only
    cases at_i : q.outside[i]? with
    | none => exact counts
    | some worker =>
      obtain ⟨task, act⟩ := worker
      have live := tally_taken (m := .live) at_i
      have loops := tally_taken (m := .loops) at_i
      exact counts_follow (q := { q with outside := q.outside.eraseIdx i }) counts.going
        (counts.counted.trans live.symm) counts.bounded (loops.trans counts.loops) counts.asked counts.room _
  | progress i =>
    unfold Queue.step
    dsimp only
    split
    · exact counts.post rfl rfl
    · exact counts
  | stop => exact absurd rfl goes

end Counts

section Wake

variable {c : Config} {q q' : Queue}

/-- The pump will look for queued jobs, or no more workers may run. -/
def Woken (c : Config) (q : Queue) : Prop :=
  (∃ w ∈ q.posted, w.pumps = true) ∨ (∃ x ∈ q.answered, x.1.sweeps x.2 = true) ∨ q.pumpRequested = true ∨
    q.active = c.concurrency

/-- The answers have the form that their requests ask for. -/
def Fits (reply : Reply) : Waiter → Prop
  | .claim => ∃ id, reply = .claimed id
  | .read _ => ∃ job, reply = .row (some job)
  | .hydrate _ => reply = .done
  | .putBack _ => False
  | .call (.creating _ _ _ none) => ∃ id, reply = .created id
  | .call (.requeueing _ _) => reply = .done
  | .call (.noting _) => reply = .done ∨ reply = .failed
  | _ => True

/-- What the database has answered, and what it will find. -/
structure Basis (q : Queue) : Prop where
  fits : ∀ x ∈ q.answered, Fits x.2 x.1
  unread : ∀ id ∈ q.unread, (q.db.find id).isSome = true

def Awake (c : Config) (q : Queue) : Prop :=
  ∀ job ∈ q.db.rows, job.status = .queued → q.Woken c ∨ q.Coming job.id

theorem mem_unread {id : Nat} :
    id ∈ q.unread ↔ (.claim, .claimed (some id)) ∈ q.answered ∨ .read id ∈ q.posted := by
  unfold unread
  rw [List.mem_append, List.mem_filterMap, List.mem_filterMap]
  constructor
  · rintro (⟨⟨w, reply⟩, member, found⟩ | ⟨w, member, found⟩)
    · split at found
      · rename_i same
        cases same
        exact Or.inl (found ▸ member)
      · cases found
    · split at found
      · cases found
        exact Or.inr member
      · cases found
  · rintro (member | member)
    · exact Or.inl ⟨_, member, rfl⟩
    · exact Or.inr ⟨_, member, rfl⟩

theorem Basis.extend (basis : q.Basis) (more : Extends q q') : q'.Basis where
  fits x member := basis.fits x (more.answered ▸ member)
  unread id member := by
    obtain ⟨added, posted, all⟩ := more.posted
    rw [more.db]
    rw [mem_unread, more.answered, posted] at member
    refine basis.unread id (mem_unread.mpr (member.imp_right fun there => ?_))
    cases List.mem_append.mp there with
    | inl old => exact old
    | inr new => exact absurd (all _ new) Bool.false_ne_true

theorem Basis.post (basis : q.Basis) {w : Waiter} (notRead : ∀ id, w ≠ .read id) : (q.post w).Basis where
  fits := basis.fits
  unread id member := by
    refine basis.unread id (mem_unread.mpr ((mem_unread.mp member).imp_right fun there => ?_))
    cases List.mem_append.mp there with
    | inl old => exact old
    | inr new => exact absurd (List.mem_singleton.mp new).symm (notRead id)

theorem Basis.outside (basis : q.Basis) (outside : List (Task × Act)) : ({ q with outside := outside } : Queue).Basis :=
  ⟨basis.fits, basis.unread⟩

theorem Basis.picked (basis : q.Basis) {x : Waiter × Reply} {rest : List (Waiter × Reply)}
    (front : q.answered = x :: rest) : ({ q with answered := rest } : Queue).Basis where
  fits y member := basis.fits y (front ▸ List.mem_cons_of_mem _ member)
  unread id member := basis.unread id (mem_unread.mpr
    ((mem_unread.mp member).imp_left fun there => front ▸ List.mem_cons_of_mem _ there))

theorem Basis.follow (basis : q.Basis) (next : Next) : (q.follow c next).Basis := by
  cases next with
  | ask task ask => exact basis.post nofun
  | act task act => exact basis.outside _
  | spent => exact basis.extend ((Extends.flags q _ _ _).trans (pump_extends c _))

theorem Basis.startJob (basis : q.Basis) (job : Job) : (q.startJob c job).Basis :=
  ((basis.extend (Extends.flags q (q.active + 1) q.pumping q.pumpRequested)).follow _).extend (claimNext_extends c _)

theorem pump_woken (counts : Counts c q) : (q.pump c).Woken c := by
  unfold pump
  split
  · rename_i stops
    exact absurd (counts.going.symm.trans stops) nofun
  · split
    · exact Or.inr (Or.inr (Or.inl rfl))
    · split
      · exact Or.inl ⟨.claim, List.mem_append_right _ List.mem_cons_self, rfl⟩
      · rename_i full
        exact Or.inr (Or.inr (Or.inr (Nat.le_antisymm counts.bounded (Nat.not_lt.mp full))))

theorem post_woken {w : Waiter} (pumps : w.pumps = true) : (q.post w).Woken c :=
  Or.inl ⟨w, List.mem_append_right _ List.mem_cons_self, pumps⟩

theorem Woken.post (woken : q.Woken c) (w : Waiter) : (q.post w).Woken c :=
  woken.imp_left fun ⟨v, member, pumps⟩ => ⟨v, List.mem_append_left _ member, pumps⟩

theorem Coming.post {id : Nat} (coming : q.Coming id) (w : Waiter) : (q.post w).Coming id :=
  coming.imp_right (List.mem_append_left _)

theorem Awake.post (awake : q.Awake c) (w : Waiter) : (q.post w).Awake c := fun job member queued =>
  (awake job member queued).imp (fun woken => woken.post w) fun coming => coming.post w

theorem Woken.awake (woken : q.Woken c) : q.Awake c := fun _ _ _ => Or.inl woken

/-- A loop that ends leaves no queued job behind that nobody comes for. -/
theorem endPump_awake (counts : Owes c .claim q)
    (awake : ∀ job ∈ q.db.rows, job.status = .queued →
      (q.pumpRequested = true ∨ q.active = c.concurrency) ∨ q.Coming job.id) : (q.endPump c).Awake c := by
  have ended : ∀ requested, requested = false →
      Counts c { q with pumping := false, pumpRequested := requested } := fun requested none =>
    ⟨counts.going, (counts.loop rfl).2.2, counts.bounded, (counts.loop rfl).1,
      fun asked => absurd (none.symm.trans asked) nofun, nofun⟩
  unfold endPump
  dsimp only
  split
  · exact (pump_woken (ended false rfl)).awake
  · rename_i nothing
    intro job member queued
    refine (awake job member queued).imp_left fun woken => ?_
    cases woken with
    | inl requested =>
      simp only [requested, counts.going] at nothing
      exact absurd rfl nothing
    | inr full => exact Or.inr (Or.inr (Or.inr full))

theorem claimNext_awake (going : q.stopped = false) (bounded : q.active ≤ c.concurrency) :
    (q.claimNext c).Woken c := by
  unfold claimNext
  split
  · exact post_woken rfl
  · rename_i full
    have same : (q.endPump c).active = q.active := by
      unfold endPump pump
      dsimp only
      split
      · split
        · rfl
        · split
          · rfl
          · split <;> rfl
      · rfl
    simp only [going, Bool.not_false, Bool.true_and, decide_eq_true_eq, Nat.not_lt] at full
    exact Or.inr (Or.inr (Or.inr (same.trans (Nat.le_antisymm bounded full))))

theorem Coming.picked {id : Nat} (coming : q.Coming id) {w : Waiter} {reply : Reply}
    {rest : List (Waiter × Reply)} (front : q.answered = (w, reply) :: rest) :
    ({ q with answered := rest } : Queue).Coming id ∨ w.brings id reply = true := by
  rcases coming with ⟨x, member, brings⟩ | posted
  · rw [front] at member
    cases List.mem_cons.mp member with
    | inl same =>
      rw [same] at brings
      exact Or.inr brings
    | inr later => exact Or.inl (Or.inl ⟨x, later, brings⟩)
  · exact Or.inl (Or.inr posted)

theorem sweeps_pumps {w : Waiter} {reply : Reply} (sweeps : w.sweeps reply = true) : w.pumps = true := by
  cases w <;> first | rfl | cases sweeps

theorem Woken.picked (woken : q.Woken c) {w : Waiter} {reply : Reply} {rest : List (Waiter × Reply)}
    (front : q.answered = (w, reply) :: rest) (other : w.pumps = false) :
    ({ q with answered := rest } : Queue).Woken c := by
  refine woken.imp_right fun later => later.imp_left fun ⟨x, member, sweeps⟩ => ⟨x, ?_, sweeps⟩
  rw [front] at member
  cases List.mem_cons.mp member with
  | inl same =>
    rw [same] at sweeps
    exact absurd (other.symm.trans (sweeps_pumps sweeps)) nofun
  | inr later => exact later

theorem Awake.picked (awake : q.Awake c) {w : Waiter} {reply : Reply} {rest : List (Waiter × Reply)}
    (front : q.answered = (w, reply) :: rest) (pumps : w.pumps = false) (brings : ∀ id, w.brings id reply = false) :
    ({ q with answered := rest } : Queue).Awake c := fun job member queued =>
  (awake job member queued).imp (fun woken => woken.picked front pumps) fun coming =>
    (coming.picked front).resolve_right (by rw [brings]; decide)

theorem Awake.follow (awake : q.Awake c) (counts : Counts c { q with active := q.active - 1 }) (next : Next) :
    (q.follow c next).Awake c := by
  cases next with
  | ask task ask => exact awake.post _
  | act task act => exact awake
  | spent => exact (pump_woken counts).awake

theorem Awake.enqueue (awake : q.Awake c) (user : User) (tag : Nat) (request : CreateJobRequest) :
    (q.enqueue c user tag request).Awake c := by
  unfold Queue.enqueue
  dsimp only
  split
  · exact awake
  · split
    · exact awake
    · split
      · exact awake
      · split <;> exact awake.post _

theorem Awake.cancel (awake : q.Awake c) (job : Job) : (q.cancel job).Awake c := by
  unfold Queue.cancel
  dsimp only
  split
  · exact Awake.post (q := { q with outside := q.outside.map (kill job.id) }) awake _
  · exact awake

theorem Awake.resolveAlert (awake : q.Awake c) (job : Job) (action : AlertAction) :
    (q.resolveAlert job action).Awake c := by
  unfold Queue.resolveAlert
  split
  · split
    · exact awake.post _
    · split
      · exact awake.post _
      · exact awake
  · exact awake

/-- A call goes on. Where it has put a job in line, it starts the pump now or with its next answer. -/
theorem Awake.returned (awake : q.Awake c) {asked : Call} {reply : Reply} {rest : List (Waiter × Reply)}
    (front : q.answered = (.call asked, reply) :: rest) (counts : Counts c { q with answered := rest })
    (fits : Fits reply (.call asked)) (fine : reply ≠ .failed) :
    ({ q with answered := rest }.returned c asked reply).Awake c := by
  have others : (∀ id, (Waiter.call asked).brings id reply = false) →
      ({ q with answered := rest } : Queue).Awake c := awake.picked front rfl
  cases asked with
  | looking user tag request =>
    have kept := others fun _ => rfl
    cases reply with
    | rows rows =>
      unfold Queue.returned
      dsimp only
      split <;> exact kept.post _
    | _ => exact kept
  | matched user tag request duplicate =>
    have kept := others fun _ => rfl
    cases reply with
    | done => exact kept.post _
    | _ => exact kept
  | creating user tag request alert =>
    cases alert with
    | none =>
      obtain ⟨id, rfl⟩ := fits
      exact (pump_woken counts).awake
    | some alert => exact others fun _ => rfl
  | reading purpose id user =>
    have kept := others fun _ => rfl
    cases reply with
    | row job =>
      cases job with
      | some job => exact kept.post _
      | none => exact kept
    | _ => exact kept
  | hydrating purpose job user =>
    have kept := others fun _ => rfl
    cases reply with
    | done =>
      cases purpose with
      | retry tag => exact kept.enqueue _ _ _
      | cancel => exact kept.cancel job
      | resolve action => exact kept.resolveAlert job action
      | delete => exact kept.post _
    | _ => cases purpose <;> exact kept
  | cancelling job => exact others fun _ => rfl
  | declining job => exact others fun _ => rfl
  | requeueing answered request =>
    obtain rfl := fits
    intro job member queued
    rcases awake job member queued with woken | coming
    · exact Or.inl ((woken.picked front rfl).post _)
    · refine Or.inr ((coming.picked front).elim (fun still => still.post _) fun brings => Or.inr ?_)
      have same : answered.id = job.id := beq_iff_eq.mp brings
      exact same ▸ List.mem_append_right _ List.mem_cons_self
  | noting id =>
    cases fits with
    | inl done =>
      subst done
      exact (pump_woken counts).awake
    | inr failed => exact absurd failed fine
  | deleting id username => exact others fun _ => rfl
  | clearing username => exact others fun _ => rfl

theorem Owes.less {task : Task} {ask : Ask} (owes : Owes c (.worker task ask) q) :
    Counts c { q with active := q.active - 1 } :=
  ⟨owes.going, Nat.sub_eq_of_eq_add owes.counted, Nat.le_trans (Nat.sub_le _ _) owes.bounded, owes.loops,
    owes.asked, fun pumping => Nat.lt_of_le_of_lt (Nat.sub_le _ _) (owes.room pumping)⟩

theorem Awake.resume (awake : q.Awake c) {w : Waiter} {reply : Reply} {rest : List (Waiter × Reply)}
    (front : q.answered = (w, reply) :: rest) (owes : Owes c w { q with answered := rest })
    (fits : Fits reply w) (fine : reply ≠ .failed) : ({ q with answered := rest }.resume c w reply).Awake c := by
  cases w with
  | claim =>
    obtain ⟨id, rfl⟩ := fits
    cases id with
    | some id => exact (post_woken rfl).awake
    | none =>
      obtain ⟨unposted, unanswered, -⟩ := tally_eq_zero.mp (owes.loop rfl).1
      refine endPump_awake owes fun job member queued => ?_
      rcases awake job member queued with woken | coming
      · rcases woken with ⟨w, there, pumps⟩ | ⟨x, there, sweeps⟩ | flag
        · have zero : w.pumps.toNat = 0 := unposted w there
          rw [pumps] at zero
          cases zero
        · rw [front] at there
          cases List.mem_cons.mp there with
          | inl same =>
            rw [same] at sweeps
            cases sweeps
          | inr later =>
            have zero : x.1.pumps.toNat = 0 := unanswered x later
            rw [sweeps_pumps sweeps] at zero
            cases zero
        · exact Or.inl flag
      · exact Or.inr ((coming.picked front).resolve_right Bool.false_ne_true)
  | read id =>
    obtain ⟨job, rfl⟩ := fits
    exact (post_woken rfl).awake
  | hydrate job =>
    obtain rfl := fits
    have runs : ¬q.stopped = true := Bool.eq_false_iff.mp owes.going
    have goes : ({ q with answered := rest } : Queue).resume c (.hydrate job) .done =
        { q with answered := rest }.startJob c job := if_neg runs
    rw [goes]
    have room := owes.room (owes.loop rfl).2.1
    unfold startJob
    have begun : ∀ next, next.job = some job →
        (({ q with answered := rest, active := q.active + 1 } : Queue).follow c next).stopped = false ∧
        (({ q with answered := rest, active := q.active + 1 } : Queue).follow c next).active ≤ c.concurrency := by
      intro next works
      cases next with
      | ask task ask => exact ⟨owes.going, room⟩
      | act task act => exact ⟨owes.going, room⟩
      | spent => cases works
    obtain ⟨going, bounded⟩ := begun _ (Task.begin_job c job)
    exact (claimNext_awake going bounded).awake
  | putBack id => exact fits.elim
  | call asked => exact awake.returned front (owes.settled rfl rfl) fits fine
  | worker task ask => exact (awake.picked front rfl fun _ => rfl).follow owes.less _
  | progress id => exact awake.picked front rfl fun _ => rfl

theorem Basis.resume (basis : q.Basis) {w : Waiter} {reply : Reply} {rest : List (Waiter × Reply)}
    (front : q.answered = (w, reply) :: rest) : ({ q with answered := rest }.resume c w reply).Basis := by
  have picked := basis.picked front
  have ends := picked.extend (endPump_extends c _)
  cases w with
  | claim =>
    cases reply with
    | claimed id =>
      cases id with
      | some id =>
        refine ⟨picked.fits, fun other member => ?_⟩
        rcases mem_unread.mp member with claimed | posted
        · exact picked.unread other (mem_unread.mpr (Or.inl claimed))
        · cases List.mem_append.mp posted with
          | inl old => exact picked.unread other (mem_unread.mpr (Or.inr old))
          | inr new =>
            obtain rfl := Waiter.read.inj (List.mem_singleton.mp new)
            exact basis.unread other (mem_unread.mpr (Or.inl (front ▸ List.mem_cons_self)))
      | none => exact ends
    | _ => exact ends
  | read id =>
    cases reply with
    | row job =>
      cases job with
      | some job => exact picked.post nofun
      | none => exact ends
    | _ => exact ends
  | hydrate job =>
    cases reply with
    | done =>
      unfold Queue.resume
      dsimp only
      split
      · exact picked.post nofun
      · exact picked.startJob job
    | _ => exact ends
  | putBack id => exact ends
  | call asked => exact picked.extend (returned_extends c _ asked reply)
  | worker task ask => exact picked.follow _
  | progress id => exact picked

theorem fits_handle {w : Waiter} (going : ∀ id, w ≠ .putBack id) (db : Db) (now : Nat)
    (found : ∀ id, w = .read id → (db.find id).isSome = true) : Fits (db.handle now w.query).2 w := by
  cases w with
  | claim =>
    rcases Db.handle_claim now db with ⟨nothing, _⟩ | ⟨job, _, _, taken⟩
    · exact ⟨none, by rw [Waiter.query, nothing]⟩
    · exact ⟨some job.id, by rw [Waiter.query, taken]⟩
  | read id =>
    obtain ⟨job, here⟩ := Option.isSome_iff_exists.mp (found id rfl)
    exact ⟨job, congrArg Reply.row here⟩
  | hydrate job => rfl
  | putBack id => exact absurd rfl (going id)
  | call asked =>
    cases asked with
    | creating user tag request alert =>
      cases alert with
      | none => exact ⟨db.next, rfl⟩
      | some alert => trivial
    | requeueing job request =>
      simp only [Fits, Waiter.query, Call.query, Db.handle]
      split
      · split <;> rfl
      · rfl
    | noting id =>
      simp only [Fits, Waiter.query, Call.query, Db.handle]
      split
      · exact Or.inl rfl
      · exact Or.inr rfl
    | _ => trivial
  | worker task ask => trivial
  | progress id => trivial

/-- The database answers a request that leaves the claimed jobs alone. -/
theorem Basis.database (basis : q.Basis) (hands : Hands idle q) (going : q.stopped = false) {w : Waiter} {rest : List Waiter}
    (front : q.posted = w :: rest) (now : Nat)
    (kept : ∀ id ∈ q.unread, ((q.db.handle now w.query).1.find id).isSome = true) :
    ({ q with
        db := (q.db.handle now w.query).1
        posted := rest
        answered := q.answered ++ [(w, (q.db.handle now w.query).2)] } : Queue).Basis where
  fits x member := by
    cases List.mem_append.mp member with
    | inl old => exact basis.fits x old
    | inr new =>
      rw [List.mem_singleton.mp new]
      refine fits_handle (fun id same => hands.going going id (front ▸ same ▸ List.mem_cons_self)) q.db now fun id same => ?_
      exact basis.unread id (mem_unread.mpr (Or.inr (front ▸ same ▸ List.mem_cons_self)))
  unread id member := by
    rcases mem_unread.mp member with claimed | posted
    · cases List.mem_append.mp claimed with
      | inl old => exact kept id (mem_unread.mpr (Or.inl old))
      | inr new =>
        obtain ⟨rfl, reply⟩ := Prod.mk.inj (List.mem_singleton.mp new)
        rcases Db.handle_claim now q.db with ⟨nothing, _⟩ | ⟨job, there, _, taken⟩
        · rw [Waiter.query, nothing] at reply
          cases reply
        · rw [Waiter.query, taken] at reply ⊢
          cases reply
          exact Db.find_isSome.mpr ⟨_, Db.mem_modify.mpr (Or.inl ⟨job, there, rfl, rfl⟩), rfl⟩
    · exact kept id (mem_unread.mpr (Or.inr (front ▸ List.mem_cons_of_mem _ posted)))

theorem Awake.database (awake : q.Awake c) (hands : Hands idle q) (going : q.stopped = false) {w : Waiter} {rest : List Waiter}
    (front : q.posted = w :: rest) (now : Nat) :
    ({ q with
        db := (q.db.handle now w.query).1
        posted := rest
        answered := q.answered ++ [(w, (q.db.handle now w.query).2)] } : Queue).Awake c := by
  have here : w ∈ q.posted := front ▸ List.mem_cons_self
  have last : ∀ reply, (w, reply) ∈ q.answered ++ [(w, reply)] := fun reply =>
    List.mem_append_right _ List.mem_cons_self
  have woken : q.Woken c → w.pumps = false ∨ w.sweeps (q.db.handle now w.query).2 = true →
      ({ q with
        db := (q.db.handle now w.query).1
        posted := rest
        answered := q.answered ++ [(w, (q.db.handle now w.query).2)] } : Queue).Woken c := by
    intro woken other
    rcases woken with ⟨v, member, pumps⟩ | ⟨x, member, sweeps⟩ | flag
    · rw [front] at member
      cases List.mem_cons.mp member with
      | inl same =>
        subst same
        cases other with
        | inl none => exact absurd (none.symm.trans pumps) (by simp)
        | inr sweeps => exact Or.inr (Or.inl ⟨_, last _, sweeps⟩)
      | inr later => exact Or.inl ⟨v, later, pumps⟩
    · exact Or.inr (Or.inl ⟨x, List.mem_append_left _ member, sweeps⟩)
    · exact Or.inr (Or.inr flag)
  have coming : ∀ id, q.Coming id → ({ q with
        db := (q.db.handle now w.query).1
        posted := rest
        answered := q.answered ++ [(w, (q.db.handle now w.query).2)] } : Queue).Coming id := by
    intro id coming
    rcases coming with ⟨x, member, brings⟩ | posted
    · exact Or.inl ⟨x, List.mem_append_left _ member, brings⟩
    · rw [front] at posted
      cases List.mem_cons.mp posted with
      | inl same => exact Or.inl ⟨_, last _, by rw [← same]; exact beq_self_eq_true id⟩
      | inr later => exact Or.inr later
  intro job member queued
  rcases Db.handle_open member (Or.inl queued) with ⟨old, there, same, waits, from_, unclaimed⟩ | ⟨alert, -⟩ |
    ⟨new, createdBy, tag, request, alert, asks, fresh⟩ | ⟨status, asks, waits⟩
  · rcases from_ queued with still | ⟨request, asks⟩
    · rcases awake old there still with awake | comes
      · by_cases pumps : w.pumps = true
        · have sweeps : w.sweeps (q.db.handle now w.query).2 = true := by
            cases w with
            | claim =>
              rcases Db.handle_claim now q.db with ⟨nothing, none_queued⟩ | ⟨claimed, _, _, taken⟩
              · exact absurd still (none_queued old there)
              · rw [Waiter.query, taken]
                rfl
            | read id => rfl
            | hydrate job => rfl
            | putBack id => exact absurd here (hands.going going id)
            | _ => cases pumps
          exact Or.inl (woken awake (Or.inr sweeps))
        · exact Or.inl (woken awake (Or.inl (Bool.eq_false_iff.mpr pumps)))
      · exact Or.inr (same ▸ coming _ comes)
    · refine Or.inr (Or.inl ⟨_, last _, ?_⟩)
      obtain ⟨answered, rfl, same⟩ := query_requeue asks
      exact beq_iff_eq.mpr same
  · exact absurd (queued.symm.trans alert) (by simp)
  · obtain ⟨user, rfl⟩ := query_createJob asks
    obtain rfl := fresh queued
    refine Or.inr (Or.inl ⟨_, last _, ?_⟩)
    exact beq_iff_eq.mpr new.symm
  · exact absurd (query_setStatus asks waits ▸ here) (hands.going going job.id)

/-- What holds as long as no request fails, nothing stops the service and the claimed jobs are left alone. -/
structure Sound (c : Config) (q : Queue) : Prop where
  counts : Counts c q
  hands : Hands idle q
  basis : q.Basis
  awake : q.Awake c

theorem workersAt_le (q : Queue) (id : Nat) : q.workersAt id ≤ q.tally (.holds id) + q.tally (.settles id) := by
  refine tally_le_add (fun w => ?_) (fun w reply => ?_) (fun task => Nat.le_refl _) q
  · cases w with
    | worker task ask =>
      simp only [Tally.works, Tally.holds, Waiter.worksAt, Waiter.holds, Waiter.returns, Bool.or_false]
      exact Nat.le_add_right _ _
    | _ => exact Nat.zero_le _
  · cases w with
    | worker task ask =>
      rcases settles_cases task ask reply with ⟨alert, rfl, rfl⟩ | none
      · exact Nat.le_add_left _ _
      · simp only [Tally.works, Tally.holds, Tally.settles, none id, Waiter.worksAt, Waiter.holds, Bool.not_false,
          Bool.and_true, Bool.toNat_false, Nat.add_zero, Nat.le_refl]
    | _ => exact Nat.zero_le _

theorem Sound.tended (sound : Sound c q) : q.Tended c where
  counted := sound.counts.counted
  bounded := sound.counts.bounded
  single id := by
    have less := workersAt_le q id
    have one := sound.hands.one id
    have settled := sound.hands.settled id
    have apart := sound.hands.apart id
    simp only [idle] at one apart
    omega
  loop := by
    rw [sound.counts.loops]
    exact Bool.toNat_le _
  awake none quiet := by
    obtain ⟨unposted, unanswered, -⟩ := tally_eq_zero.mp none
    refine or_iff_not_imp_left.mpr fun room job member queued => ?_
    rcases sound.awake job member queued with (⟨w, there, pumps⟩ | ⟨x, there, sweeps⟩ | asked | full) | coming
    · have zero : w.pumps.toNat = 0 := unposted w there
      rw [pumps] at zero
      cases zero
    · have zero : x.1.pumps.toNat = 0 := unanswered x there
      rw [sweeps_pumps sweeps] at zero
      cases zero
    · exact quiet (Or.inl asked)
    · exact room full
    · exact quiet (Or.inr ⟨job.id, coming⟩)

theorem Sound.step (sound : Sound c q) (event : Event) (promised : q.Promised event) (meets : q.Meets event) :
    Sound c (q.step c event) := by
  have goes : event ≠ .stop := fun same => by
    rw [same] at promised
    exact promised
  refine ⟨sound.counts.step event goes, sound.hands.step event, ?_, ?_⟩
  · cases event with
    | enqueue user tag request => exact sound.basis.extend (enqueue_extends c q user tag request)
    | call purpose id user => exact sound.basis.post nofun
    | clearHistory username => exact sound.basis.post nofun
    | database now =>
      unfold Queue.step
      dsimp only
      cases front : q.posted with
      | nil => exact sound.basis
      | cons w rest => exact sound.basis.database sound.hands sound.counts.going front now (meets w (by rw [front]; rfl))
    | deliver =>
      unfold Queue.step
      dsimp only
      cases front : q.answered with
      | nil => exact sound.basis
      | cons x rest => exact sound.basis.resume front
    | happen i outcome =>
      unfold Queue.step
      dsimp only
      cases q.outside[i]? with
      | none => exact sound.basis
      | some worker => exact (sound.basis.outside _).follow _
    | progress i =>
      unfold Queue.step
      dsimp only
      split
      · exact sound.basis.post nofun
      · exact sound.basis
    | stop => exact absurd rfl goes
  · cases event with
    | enqueue user tag request => exact sound.awake.enqueue user tag request
    | call purpose id user => exact sound.awake.post _
    | clearHistory username => exact sound.awake.post _
    | database now =>
      unfold Queue.step
      dsimp only
      cases front : q.posted with
      | nil => exact sound.awake
      | cons w rest => exact sound.awake.database sound.hands sound.counts.going front now
    | deliver =>
      unfold Queue.step
      dsimp only
      cases front : q.answered with
      | nil => exact sound.awake
      | cons x rest =>
        exact sound.awake.resume front (sound.counts.owes front)
          (sound.basis.fits x (front ▸ List.mem_cons_self)) (promised x (by rw [front]; rfl))
    | happen i outcome =>
      unfold Queue.step
      dsimp only
      cases at_i : q.outside[i]? with
      | none => exact sound.awake
      | some worker =>
        have live := tally_taken (m := .live) at_i
        have loops := tally_taken (m := .loops) at_i
        have less : Counts c { q with outside := q.outside.eraseIdx i, active := q.active - 1 } :=
          ⟨sound.counts.going, Nat.sub_eq_of_eq_add (sound.counts.counted.trans live.symm),
            Nat.le_trans (Nat.sub_le _ _) sound.counts.bounded, loops.trans sound.counts.loops, sound.counts.asked,
            fun pumping => Nat.lt_of_le_of_lt (Nat.sub_le _ _) (sound.counts.room pumping)⟩
        exact Awake.follow (q := { q with outside := q.outside.eraseIdx i }) sound.awake less _
    | progress i =>
      unfold Queue.step
      dsimp only
      split
      · exact sound.awake.post _
      · exact sound.awake
    | stop => exact absurd rfl goes

theorem sound_start (c : Config) (now : Nat) {db : Db} (known : db.Known) : Sound c (Queue.start c now db) := by
  have counts : Counts c { db := db.markInterrupted now } := ⟨rfl, rfl, Nat.zero_le _, rfl, nofun, nofun⟩
  have basis : Basis { db := db.markInterrupted now } :=
    ⟨fun _ none => absurd none List.not_mem_nil, fun _ none => absurd none List.not_mem_nil⟩
  have more := pump_extends c { db := db.markInterrupted now }
  exact ⟨counts.pump, hands_start c now known, basis.extend more, (pump_woken counts).awake⟩

end Wake

end Queue

/-- As long as no job is deleted between its claim and the read that follows, the queue tends to every
queued job, in every order of the steps. -/
theorem queue_never_idles (c : Config) (now : Nat) (db : Db) (known : db.Known) (events : List Event)
    (promised : Runs.Along (Queue.step c) Queue.Promised (Queue.start c now db) events)
    (meets : Runs.Along (Queue.step c) Queue.Meets (Queue.start c now db) events) :
    (Runs.run (Queue.step c) (Queue.start c now db) events).Tended c := by
  have sound := Runs.run_invariant_along (Queue.step c) (fun q event => q.Promised event ∧ q.Meets event)
    (Queue.Sound c) (fun q event met sound => sound.step event met.1 met.2) _ events (promised.and _ meets)
    (Queue.sound_start c now known)
  exact sound.tended

section Stranded

def oneAtATime : Config := ⟨1, id, fun _ => true⟩

def threeQueued : Db where
  rows := [0, 1, 2].map fun id =>
    ⟨id, id, id, 0, "ann", .queued, { url := "https://youtu.be/dQw4w9WgXcQ", splitChapters := some true }, none, 0⟩
  next := 3

/-- The first job is started and fails while the second one is cancelled and deleted. -/
def cancelAndDelete (last : List Event) : List Event :=
  let round : List Event := [.database 1, .deliver]
  round ++ round ++ round ++
    [.call .cancel 1 ⟨"ann", false⟩, .call .delete 1 ⟨"ann", false⟩, .happen 0 .error,
      .database 1, .database 1, .database 1, .deliver, .deliver, .deliver,
      .database 1, .database 1, .database 1, .deliver, .deliver, .deliver] ++ last

/-- The table at the end: nothing runs, and one job is still queued. -/
def leftBehind : Db :=
  { threeQueued with rows := [Db.setStatus .failed { (threeQueued.rows[0]) with updatedAt := 1 }, threeQueued.rows[2]] }

/-- The second job is gone when the pump reads it back, and the third one is left behind. -/
theorem deleted_claim_strands_queue : ¬∀ (c : Config) (now : Nat) (db : Db) (events : List Event), db.Known →
    Runs.Along (Queue.step c) Queue.Promised (Queue.start c now db) events →
    (Runs.run (Queue.step c) (Queue.start c now db) events).Tended c := by
  intro all
  have tended := all oneAtATime 0 threeQueued
    (cancelAndDelete [.database 1, .database 1, .database 1, .deliver, .deliver, .deliver])
    (by unfold Db.Known; decide) (by decide +kernel)
  have final : Runs.run (Queue.step oneAtATime) (Queue.start oneAtATime 0 threeQueued)
      (cancelAndDelete [.database 1, .database 1, .database 1, .deliver, .deliver, .deliver]) = { db := leftBehind } := by
    decide +kernel
  rw [final] at tended
  have quiet : ¬({ db := leftBehind } : Queue).Requested := by
    rintro (asked | ⟨id, ⟨x, none, _⟩ | none⟩)
    · cases asked
    · exact List.not_mem_nil none
    · exact List.not_mem_nil none
  rcases tended.awake rfl quiet with full | none
  · cases full
  · exact none _ (List.mem_cons_of_mem _ List.mem_cons_self) rfl

/-- Until the deletion takes effect, the queue tends to all three jobs. -/
theorem queue_tends_until_deletion :
    (Runs.run (Queue.step oneAtATime) (Queue.start oneAtATime 0 threeQueued) (cancelAndDelete [])).Tended oneAtATime :=
  queue_never_idles oneAtATime 0 threeQueued (by unfold Db.Known; decide) (cancelAndDelete [])
    (by decide +kernel) (by decide +kernel)

end Stranded

end NixHomeServer.Downloader
