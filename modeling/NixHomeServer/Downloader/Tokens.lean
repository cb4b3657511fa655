import Mathlib.Algebra.GroupWithZero.Nat
import NixHomeServer.Downloader.Queue
import Mathlib.Data.List.Perm.Basic

/-! Whatever is under way in the queue stands in one of three lists. What a step
does to a sum over them follows from what it puts there and takes away. -/
namespace NixHomeServer.Downloader

/-- What everything under way counts for. -/
structure Tally where
  posted : Waiter → Nat
  answered : Waiter → Reply → Nat
  outside : Task → Nat

namespace Queue

def tally (m : Tally) (q : Queue) : Nat :=
  (q.posted.map m.posted).sum + (q.answered.map fun x => m.answered x.1 x.2).sum +
    (q.outside.map fun x => m.outside x.1).sum

end Queue

def Tally.next (m : Tally) : Next → Nat
  | .ask task ask => m.posted (.worker task ask)
  | .act task _ => m.outside task
  | .spent => 0

/-- A tally of workers and of what is claimed, in which the pump's claims and the calls do not count. -/
structure Tally.Plain (m : Tally) : Prop where
  claim : m.posted .claim = 0
  call : ∀ asked, m.posted (.call asked) = 0

/-- What a worker waits for, whether or not its child has been told to terminate. -/
def Act.spared : Act → Act
  | .probing _ => .probing false
  | .downloading _ => .downloading false
  | act => act

def spared (worker : Task × Act) : Task × Act := (worker.1, worker.2.spared)

/-- A claim of the pump, or a call. -/
def Waiter.plain : Waiter → Bool
  | .claim | .call _ => true
  | _ => false

namespace Queue

section Sums

variable {c : Config} {q q' : Queue} {m : Tally}

theorem tally_post (q : Queue) (w : Waiter) : (q.post w).tally m = q.tally m + m.posted w := by
  simp only [tally, post, List.map_append, List.sum_append, List.map_cons, List.map_nil, List.sum_cons, List.sum_nil]
  omega

theorem tally_outside (q : Queue) (task : Task) (act : Act) :
    ({ q with outside := q.outside ++ [(task, act)] } : Queue).tally m = q.tally m + m.outside task := by
  simp only [tally, List.map_append, List.sum_append, List.map_cons, List.map_nil, List.sum_cons, List.sum_nil]
  omega

theorem tally_eq_zero : q.tally m = 0 ↔ (∀ w ∈ q.posted, m.posted w = 0) ∧
    (∀ x ∈ q.answered, m.answered x.1 x.2 = 0) ∧ ∀ x ∈ q.outside, m.outside x.1 = 0 := by
  simp only [tally, Nat.add_eq_zero_iff, List.sum_eq_zero_iff_forall_eq_nat, List.forall_mem_map, and_assoc]

theorem sum_map_le_add {α : Type} {f g h : α → Nat} (less : ∀ a, f a ≤ g a + h a) (l : List α) :
    (l.map f).sum ≤ (l.map g).sum + (l.map h).sum := by
  induction l with
  | nil => exact Nat.le_refl 0
  | cons a rest ih =>
    have first := less a
    simp only [List.map_cons, List.sum_cons]
    omega

theorem tally_le_add {m₁ m₂ : Tally} (posted : ∀ w, m.posted w ≤ m₁.posted w + m₂.posted w)
    (answered : ∀ w reply, m.answered w reply ≤ m₁.answered w reply + m₂.answered w reply)
    (outside : ∀ task, m.outside task ≤ m₁.outside task + m₂.outside task) (q : Queue) :
    q.tally m ≤ q.tally m₁ + q.tally m₂ := by
  have first := sum_map_le_add posted q.posted
  have second := sum_map_le_add (fun x : Waiter × Reply => answered x.1 x.2) q.answered
  have third := sum_map_le_add (fun x : Task × Act => outside x.1) q.outside
  simp only [tally]
  omega

/-- The answer in front is picked up. -/
theorem tally_picked {w : Waiter} {reply : Reply} {rest : List (Waiter × Reply)}
    (front : q.answered = (w, reply) :: rest) :
    ({ q with answered := rest } : Queue).tally m + m.answered w reply = q.tally m := by
  simp only [tally, front, List.map_cons, List.sum_cons]
  omega

/-- The database answers the request in front. -/
theorem tally_handled {w : Waiter} {rest : List Waiter} (front : q.posted = w :: rest) (db : Db)
    (reply : Reply) :
    ({ q with db := db, posted := rest, answered := q.answered ++ [(w, reply)] } : Queue).tally m +
      m.posted w = q.tally m + m.answered w reply := by
  simp only [tally, front, List.map_cons, List.sum_cons, List.map_append, List.sum_append, List.map_nil,
    List.sum_nil]
  omega

/-- A worker that waits outside is taken from there. -/
theorem tally_taken {i : Nat} {task : Task} {act : Act} (at_i : q.outside[i]? = some (task, act)) :
    ({ q with outside := q.outside.eraseIdx i } : Queue).tally m + m.outside task = q.tally m := by
  obtain ⟨inside, same⟩ := List.getElem?_eq_some_iff.mp at_i
  have perm := (List.getElem_cons_eraseIdx_perm inside).map fun x : Task × Act => m.outside x.1
  have total := perm.sum_nat
  rw [List.map_cons, List.sum_cons, same] at total
  dsimp only at total
  simp only [tally]
  omega

/-- Only claims and calls have been added. -/
structure Extends (q q' : Queue) : Prop where
  db : q'.db = q.db
  answered : q'.answered = q.answered
  outside : q'.outside.map spared = q.outside.map spared
  stopped : q'.stopped = q.stopped
  posted : ∃ more, q'.posted = q.posted ++ more ∧ ∀ w ∈ more, w.plain = true

theorem Extends.flags (q : Queue) (active : Nat) (pumping pumpRequested : Bool) :
    Extends q { q with active := active, pumping := pumping, pumpRequested := pumpRequested } :=
  ⟨rfl, rfl, rfl, rfl, [], (List.append_nil _).symm, fun _ none => absurd none List.not_mem_nil⟩

theorem Extends.refl (q : Queue) : Extends q q := Extends.flags q q.active q.pumping q.pumpRequested

theorem Extends.post (extends_ : Extends q q') {w : Waiter} (plain : w.plain = true) : Extends q (q'.post w) := by
  obtain ⟨more, posted, all⟩ := extends_.posted
  refine ⟨extends_.db, extends_.answered, extends_.outside, extends_.stopped, more ++ [w], ?_, ?_⟩
  · rw [Queue.post, posted, List.append_assoc]
  · intro v member
    cases List.mem_append.mp member with
    | inl old => exact all v old
    | inr new => exact List.mem_singleton.mp new ▸ plain

theorem Extends.tally (extends_ : Extends q q') (plain : m.Plain) : q'.tally m = q.tally m := by
  obtain ⟨more, posted, all⟩ := extends_.posted
  have none : ∀ more : List Waiter, (∀ w ∈ more, w.plain = true) → (more.map m.posted).sum = 0 := by
    intro more all
    induction more with
    | nil => rfl
    | cons w rest ih =>
      have zero : m.posted w = 0 := by
        have first := all w List.mem_cons_self
        cases w with
        | claim => exact plain.claim
        | call asked => exact plain.call asked
        | _ => cases first
      rw [List.map_cons, List.sum_cons, zero, ih fun v member => all v (List.mem_cons_of_mem _ member)]
  have outside : (q'.outside.map fun x => m.outside x.1) = q.outside.map fun x => m.outside x.1 := by
    have tasks := congrArg (List.map fun x => m.outside x.1) extends_.outside
    rwa [List.map_map, List.map_map] at tasks
  rw [Queue.tally, Queue.tally, posted, extends_.answered, outside, List.map_append, List.sum_append, none more all]
  rfl

theorem pump_extends (c : Config) (q : Queue) : Extends q (q.pump c) := by
  unfold pump
  split
  · exact .refl q
  · split
    · exact .flags q q.active q.pumping true
    · split
      · exact (Extends.flags q q.active true q.pumpRequested).post rfl
      · exact .refl q

theorem Extends.trans {q'' : Queue} (first : Extends q q') (second : Extends q' q'') : Extends q q'' := by
  obtain ⟨early, posted, all⟩ := first.posted
  obtain ⟨late, posted', all'⟩ := second.posted
  refine ⟨second.db.trans first.db, second.answered.trans first.answered, second.outside.trans first.outside,
    second.stopped.trans first.stopped, early ++ late, ?_, ?_⟩
  · rw [posted', posted, List.append_assoc]
  · intro w member
    cases List.mem_append.mp member with
    | inl old => exact all w old
    | inr new => exact all' w new

theorem endPump_extends (c : Config) (q : Queue) : Extends q (q.endPump c) := by
  unfold endPump
  dsimp only
  split
  · exact (Extends.flags q q.active false false).trans (pump_extends c _)
  · exact .flags q q.active false q.pumpRequested

theorem claimNext_extends (c : Config) (q : Queue) : Extends q (q.claimNext c) := by
  unfold claimNext
  split
  · exact (Extends.refl q).post rfl
  · exact endPump_extends c q

theorem enqueue_extends (c : Config) (q : Queue) (user : User) (tag : Nat) (request : CreateJobRequest) :
    Extends q (q.enqueue c user tag request) := by
  unfold enqueue
  dsimp only
  split
  · exact .refl q
  · split
    · exact .refl q
    · split
      · exact .refl q
      · split <;> exact (Extends.refl q).post rfl

theorem kill_spared (id : Nat) (worker : Task × Act) : spared (kill id worker) = spared worker := by
  obtain ⟨task, act⟩ := worker
  cases act <;> rfl

theorem kill_task (id : Nat) (worker : Task × Act) : (kill id worker).1 = worker.1 := by
  have same : (spared (kill id worker)).1 = (spared worker).1 := congrArg Prod.fst (kill_spared id worker)
  exact same

theorem cancel_extends (q : Queue) (job : Job) : Extends q (q.cancel job) := by
  have killed : Extends q { q with outside := q.outside.map (kill job.id) } := by
    refine ⟨rfl, rfl, ?_, rfl, [], (List.append_nil _).symm, fun _ none => absurd none List.not_mem_nil⟩
    rw [List.map_map]
    exact List.map_congr_left fun worker _ => kill_spared job.id worker
  unfold cancel
  dsimp only
  split
  · exact killed.post rfl
  · exact killed

theorem resolveAlert_extends (q : Queue) (job : Job) (action : AlertAction) :
    Extends q (q.resolveAlert job action) := by
  unfold resolveAlert
  split
  · split
    · exact (Extends.refl q).post rfl
    · split
      · exact (Extends.refl q).post rfl
      · exact .refl q
  · exact .refl q

theorem returned_extends (c : Config) (q : Queue) (asked : Call) (reply : Reply) :
    Extends q (q.returned c asked reply) := by
  unfold returned
  split
  · split <;> exact (Extends.refl q).post rfl
  · exact (Extends.refl q).post rfl
  · exact pump_extends c q
  · exact (Extends.refl q).post rfl
  · exact enqueue_extends c q _ _ _
  · exact cancel_extends q _
  · exact resolveAlert_extends q _ _
  · exact (Extends.refl q).post rfl
  · exact (Extends.refl q).post rfl
  · exact pump_extends c q
  · exact .refl q

theorem tally_follow (plain : m.Plain) (q : Queue) (next : Next) :
    (q.follow c next).tally m = q.tally m + m.next next := by
  cases next with
  | ask task ask => exact tally_post q _
  | act task act => exact tally_outside q task act
  | spent => exact ((Extends.flags q (q.active - 1) q.pumping q.pumpRequested).trans (pump_extends c _)).tally plain

end Sums

end Queue

section Tasks

/-- The job that goes on, if one does. -/
def Next.job : Next → Option Job
  | .ask task _ => some task.job
  | .act task _ => some task.job
  | .spent => none

variable (c : Config) (stopped : Bool) (t : Task)

theorem Task.begin_job (job : Job) : (Task.begin c job).job = some job := by
  unfold Task.begin
  dsimp only
  split
  · rfl
  · split <;> rfl

theorem Task.fail_job : (t.fail stopped).job = some t.job := by
  unfold Task.fail
  split <;> rfl

theorem Task.proceed_job (check : Check) : (t.proceed check).job = some t.job := by
  cases check with
  | sourced source =>
    unfold Task.proceed
    dsimp only
    split <;> rfl
  | unduplicated source =>
    unfold Task.proceed
    dsimp only
    split <;> rfl
  | _ => rfl

theorem Task.abortIfCancelled_job (check : Check) (status : Option Status) :
    (t.abortIfCancelled stopped check status).job = some t.job := by
  unfold Task.abortIfCancelled
  split
  · rfl
  · split
    · rfl
    · exact t.proceed_job check

theorem Task.record_job (files : Nat) : (t.record files).job = some t.job := by
  cases files <;> rfl

/-- A worker stays with its job. -/
theorem Task.answered_job (ask : Ask) (reply : Reply) :
    (t.answered c stopped ask reply).job = some t.job ∨ t.answered c stopped ask reply = .spent := by
  unfold Task.answered
  split <;> first
    | exact Or.inr rfl
    | exact Or.inl rfl
    | exact Or.inl (t.fail_job stopped)
    | exact Or.inl (t.abortIfCancelled_job stopped _ _)
    | exact Or.inl (t.record_job _)
    | (split <;> exact Or.inl rfl)
    | (dsimp only; split <;> exact Or.inl rfl)

theorem Task.happened_job (act : Act) (outcome : Outcome) :
    (t.happened stopped act outcome).job = some t.job ∨ t.happened stopped act outcome = .spent := by
  unfold Task.happened
  split <;> first
    | exact Or.inr rfl
    | exact Or.inl rfl
    | exact Or.inl (t.fail_job stopped)
    | exact Or.inl (t.record_job _)
    | (split <;> first | exact Or.inl rfl | exact Or.inr rfl | exact Or.inl (t.fail_job _))

end Tasks

end NixHomeServer.Downloader
