import Mathlib.Logic.Function.Basic
import NixHomeServer.Library.Runs

/-! The setup of a user's offline media: one run of the helpers is shared by the calls that
ask for it, until it is too old, has failed, or a device is enrolled or removed. Whatever is
started is named by the step at which it starts. -/
namespace NixHomeServer.Homepage.SetupCache

open NixHomeServer.Library

structure Config where
  sudoPath : String
  syncthingDeviceIdCommand : Option String
  offlineMediaStatusCommand : Option String
  enabled : Bool
  base : String
  deriving DecidableEq, Repr

structure Key where
  sudoPath : String
  syncthingDeviceIdCommand : Option String
  offlineMediaStatusCommand : Option String
  username : String
  base : String
  deriving DecidableEq, Repr

def setupCacheKey (config : Config) (username : String) : Key where
  sudoPath := config.sudoPath
  syncthingDeviceIdCommand := config.syncthingDeviceIdCommand
  offlineMediaStatusCommand := config.offlineMediaStatusCommand
  username := username
  base := config.base

/-- An empty command is none. -/
def configured (command : Option String) : Bool := command.any (· ≠ "")

/-- What a run waits for. -/
inductive Phase
  | deviceId
  | deviceIdAnswered
  | status
  | statusAnswered
  | settled (ok : Bool)
  deriving DecidableEq, Repr

/-- What waits for a run: the removal of a failed one, and the calls. -/
inductive Reaction
  | remove
  | caller (call : Nat)
  deriving DecidableEq, Repr

structure SetupRun where
  key : Key
  phase : Phase
  reactions : List Reaction := []
  statusStarted : Option Nat := none
  /-- When a reaction to the failure ran first. -/
  failureSeen : Option Nat := none
  deriving DecidableEq, Repr

structure Entry where
  run : Nat
  expiresAt : Int
  deriving DecidableEq, Repr

structure GetCall where
  key : Key
  run : Nat
  /-- The run whose end ended the call. -/
  answer : Option Nat := none
  deriving DecidableEq, Repr

/-- An enrollment or a removal. -/
structure ChangeCall where
  key : Key
  helperEnded : Option Nat := none
  resolvedAt : Option Nat := none
  deriving DecidableEq, Repr

inductive Job
  | resume (run : Nat) (ok : Bool)
  | react (run : Nat) (reaction : Reaction)
  | adopt (call : Nat)
  | changed (change : Nat) (ok : Bool)
  deriving DecidableEq, Repr

structure State where
  clock : Nat := 0
  cache : Key → Option Entry := fun _ => none
  runs : Nat → Option SetupRun := fun _ => none
  calls : Nat → Option GetCall := fun _ => none
  changes : Nat → Option ChangeCall := fun _ => none
  /-- The queue of jobs, run one after the other. -/
  jobs : List Job := []

def setupTtl : Int := 20000

inductive Action
  | get (config : Config) (username : String) (checked set : Int)
  | change (config : Config) (username : String)
  | answered (run : Nat) (ok : Bool)
  | ended (change : Nat) (ok : Bool)
  | job

namespace State

variable (s : State)

def setRun (r : Nat) (run : SetupRun) : State := { s with runs := Function.update s.runs r (some run) }

def enqueue (jobs : List Job) : State := { s with jobs := s.jobs ++ jobs }

def settle (r : Nat) (run : SetupRun) (ok : Bool) : State :=
  (s.setRun r { run with phase := .settled ok, reactions := [] }).enqueue (run.reactions.map (.react r))

/-- A reaction waits for a run, or is queued at once. -/
def register (r : Nat) (run : SetupRun) (reaction : Reaction) : State :=
  match run.phase with
  | .settled _ => (s.setRun r run).enqueue [.react r reaction]
  | _ => s.setRun r { run with reactions := run.reactions ++ [reaction] }

/-- The call returns the promise of a run. -/
def call (key : Key) (r : Nat) : State :=
  { s with calls := Function.update s.calls s.clock (some { key := key, run := r }) }.enqueue [.adopt s.clock]

end State

/-- `resolveOfflineMediaSetup` up to the first helper it waits for. -/
def SetupRun.start (key : Key) (clock : Nat) : SetupRun :=
  if configured key.syncthingDeviceIdCommand then { key := key, phase := .deviceId }
  else if configured key.offlineMediaStatusCommand then { key := key, phase := .status, statusStarted := some clock }
  else { key := key, phase := .settled true }

/-- The clock is read once for the check and once for the expiry. -/
def getOfflineMediaSetup (s : State) (config : Config) (username : String) (checked set : Int) : State :=
  if config.enabled then
    let key := setupCacheKey config username
    match (s.cache key).filter fun entry => checked < entry.expiresAt with
    | some entry => s.call key entry.run
    | none =>
      let s := { s with cache := Function.update s.cache key (some { run := s.clock, expiresAt := set + setupTtl }) }
      (s.register s.clock (.start key s.clock) .remove).call key s.clock
  else s

/-- The helper of an enrollment or a removal starts. -/
def startChange (s : State) (config : Config) (username : String) : State :=
  if config.enabled then
    { s with changes := Function.update s.changes s.clock (some { key := setupCacheKey config username }) }
  else s

/-- The helper that a run waits for ends. -/
def answered (s : State) (r : Nat) (ok : Bool) : State :=
  match s.runs r with
  | some run => match run.phase with
    | .deviceId => (s.setRun r { run with phase := .deviceIdAnswered }).enqueue [.resume r ok]
    | .status => (s.setRun r { run with phase := .statusAnswered }).enqueue [.resume r ok]
    | _ => s
  | none => s

def ended (s : State) (h : Nat) (ok : Bool) : State :=
  match s.changes h with
  | some change =>
    if change.helperEnded = none then
      { s with changes := Function.update s.changes h (some { change with helperEnded := some s.clock }) }.enqueue [.changed h ok]
    else s
  | none => s

/-- A run goes on with the answer it waited for. -/
def resume (s : State) (r : Nat) (ok : Bool) : State :=
  match s.runs r with
  | some run => match run.phase with
    | .deviceIdAnswered =>
      if ok && configured run.key.offlineMediaStatusCommand then
        s.setRun r { run with phase := .status, statusStarted := some s.clock }
      else s.settle r run ok
    | .statusAnswered => s.settle r run ok
    | _ => s
  | none => s

/-- A failed run is taken out of the cache if it is still there. -/
def removeFailed (s : State) (r : Nat) (run : SetupRun) : State :=
  { s with cache := fun key => if key = run.key then (s.cache key).filter fun entry => entry.run ≠ r else s.cache key }

def react (s : State) (r : Nat) (reaction : Reaction) : State :=
  match s.runs r with
  | some run =>
    let failed := run.phase = .settled false
    let seen := if failed then s.setRun r { run with failureSeen := run.failureSeen.or (some s.clock) } else s
    match reaction with
    | .remove => if failed then removeFailed seen r run else seen
    | .caller c => { seen with calls := Function.update s.calls c ((s.calls c).map fun call => { call with answer := some r }) }
  | none => s

def adopt (s : State) (c : Nat) : State :=
  match s.calls c with
  | some call => match s.runs call.run with
    | some run => s.register call.run run (.caller c)
    | none => s
  | none => s

/-- The call of a change goes on: the entry of its user is invalidated and it resolves. -/
def changed (s : State) (h : Nat) (ok : Bool) : State :=
  match s.changes h with
  | some change =>
    if ok then { s with
      cache := Function.update s.cache change.key none
      changes := Function.update s.changes h (some { change with resolvedAt := some s.clock }) }
    else s
  | none => s

def perform (s : State) : Job → State
  | .resume r ok => resume s r ok
  | .react r reaction => react s r reaction
  | .adopt c => adopt s c
  | .changed h ok => changed s h ok

def runJob (s : State) : State :=
  match s.jobs with
  | [] => s
  | job :: rest => perform { s with jobs := rest } job

def act (s : State) : Action → State
  | .get config username checked set => getOfflineMediaSetup s config username checked set
  | .change config username => startChange s config username
  | .answered r ok => answered s r ok
  | .ended h ok => ended s h ok
  | .job => runJob s

def step (s : State) (a : Action) : State := { act s a with clock := s.clock + 1 }

section Moves

variable {s s' : State} {r : Nat} {run run' : SetupRun}

/-- What a step at this time may change of a run. -/
structure Evolves (now : Nat) (run run' : SetupRun) : Prop where
  key : run'.key = run.key
  status : run'.statusStarted = run.statusStarted ∨ run'.statusStarted = some now
  failure : run'.failureSeen = run.failureSeen ∨ run.failureSeen = none ∧ run'.failureSeen = some now

theorem Evolves.refl (now : Nat) (run : SetupRun) : Evolves now run run := ⟨rfl, .inl rfl, .inl rfl⟩

/-- What a step may change of an enrollment or a removal; one that resolves has its entry removed. -/
inductive ChangeMoves (s' : State) (now : Nat) (change : ChangeCall) : ChangeCall → Prop
  | same : ChangeMoves s' now change change
  | ended (running : change.helperEnded = none) (waits : change.resolvedAt = none) :
      ChangeMoves s' now change { change with helperEnded := some now }
  | resolved (invalid : s'.cache change.key = none) (u : Nat) (ended : change.helperEnded = some u) :
      ChangeMoves s' now change { change with resolvedAt := some now }

/-- Everything that a step can do to the cache, the runs, the calls and the changes. -/
structure Moves (s s' : State) : Prop where
  runs : ∀ r run', s'.runs r = some run' → (∃ run, s.runs r = some run ∧ Evolves s.clock run run') ∨
    (r = s.clock ∧ (run'.statusStarted = none ∨ run'.statusStarted = some s.clock))
  kept : ∀ r run, s.runs r = some run → ∃ run', s'.runs r = some run' ∧ Evolves s.clock run run'
  cache : ∀ key entry, s'.cache key = some entry →
    (s.cache key = some entry ∧ ∀ run run', s.runs entry.run = some run → s'.runs entry.run = some run' →
      run'.failureSeen = run.failureSeen) ∨
    (entry.run = s.clock ∧ ∃ run', s'.runs s.clock = some run' ∧ run'.key = key ∧ run'.failureSeen = none)
  calls : ∀ c call', s'.calls c = some call' → (∃ call, s.calls c = some call ∧ call'.key = call.key ∧ call'.run = call.run) ∨
    (c = s.clock ∧ ∃ entry, s'.cache call'.key = some entry ∧ entry.run = call'.run)
  changes : ∀ h change', s'.changes h = some change' →
    (∃ change, s.changes h = some change ∧ ChangeMoves s' s.clock change change') ∨
    (h = s.clock ∧ change'.helperEnded = none ∧ change'.resolvedAt = none)

/-- One run goes on, and entries and calls are left or taken away. -/
theorem Moves.of_run (found : s.runs r = some run) (evolves : Evolves s.clock run run')
    (runs : s'.runs = Function.update s.runs r (some run')) (changes : s'.changes = s.changes)
    (calls : ∀ c call', s'.calls c = some call' → ∃ call, s.calls c = some call ∧ call'.key = call.key ∧ call'.run = call.run)
    (cache : ∀ key entry, s'.cache key = some entry → s.cache key = some entry ∧
      (entry.run = r → run'.failureSeen = run.failureSeen)) : Moves s s' where
  runs q other at_q := by
    rw [runs] at at_q
    by_cases same : q = r
    · subst same
      rw [Function.update_self, Option.some.injEq] at at_q
      exact .inl ⟨run, found, at_q ▸ evolves⟩
    · rw [Function.update_of_ne same] at at_q
      exact .inl ⟨other, at_q, .refl _ _⟩
  kept q other at_q := by
    rw [runs]
    by_cases same : q = r
    · subst same
      rw [found, Option.some.injEq] at at_q
      exact ⟨run', Function.update_self .., at_q ▸ evolves⟩
    · exact ⟨other, by rw [Function.update_of_ne same, at_q], .refl _ _⟩
  cache key entry cached := by
    obtain ⟨before, same⟩ := cache key entry cached
    refine .inl ⟨before, fun old new at_old at_new => ?_⟩
    rw [runs] at at_new
    by_cases own : entry.run = r
    · rw [own, Function.update_self, Option.some.injEq] at at_new
      rw [own, found, Option.some.injEq] at at_old
      rw [← at_new, ← at_old]
      exact same own
    · rw [Function.update_of_ne own, at_old, Option.some.injEq] at at_new
      rw [at_new]
  calls c call' at_c := .inl (calls c call' at_c)
  changes h change' at_h := by
    rw [changes] at at_h
    exact .inl ⟨change', at_h, .same⟩

/-- Only the queue is changed. -/
theorem Moves.of_jobs (runs : s'.runs = s.runs) (cache : s'.cache = s.cache) (calls : s'.calls = s.calls)
    (changes : s'.changes = s.changes) : Moves s s' where
  runs r run' at_r := .inl ⟨run', runs ▸ at_r, .refl _ _⟩
  kept r run at_r := ⟨run, runs ▸ at_r, .refl _ _⟩
  cache key entry cached := by
    refine .inl ⟨cache ▸ cached, fun run run' old new => ?_⟩
    rw [runs, old, Option.some.injEq] at new
    rw [new]
  calls c call' at_c := .inl ⟨call', calls ▸ at_c, rfl, rfl⟩
  changes h change' at_h := .inl ⟨change', changes ▸ at_h, .same⟩

/-- When everything was done that has been done. -/
structure Times (now : Nat) (s : State) : Prop where
  runs : ∀ r run, s.runs r = some run → r < now ∧ ∀ u, run.statusStarted = some u → r ≤ u
  changes : ∀ h change, s.changes h = some change → h < now
  ended : ∀ h change u, s.changes h = some change → change.helperEnded = some u → u < now
  resolved : ∀ h change t, s.changes h = some change → change.resolvedAt = some t →
    t < now ∧ ∃ u, change.helperEnded = some u ∧ u < t

/-- Runs in the cache are younger than the changes of their user, and have not been seen to fail. -/
structure Fresh (now : Nat) (s : State) : Prop where
  cached : ∀ key entry, s.cache key = some entry → ∃ run, s.runs entry.run = some run ∧ run.key = key ∧
    run.failureSeen = none ∧ ∀ h change t, s.changes h = some change → change.key = key → change.resolvedAt = some t → t < entry.run
  called : ∀ c call, s.calls c = some call → c < now ∧ ∃ run, s.runs call.run = some run ∧ run.key = call.key ∧
    (∀ seen, run.failureSeen = some seen → c ≤ seen) ∧
    ∀ h change t, s.changes h = some change → change.key = call.key → change.resolvedAt = some t → t < c → t < call.run

theorem Times.moves (times : Times s.clock s) (moves : Moves s s') : Times (s.clock + 1) s' where
  runs r run' at_r := by
    rcases moves.runs r run' at_r with ⟨run, before, evolves⟩ | ⟨rfl, started⟩
    · obtain ⟨past, status⟩ := times.runs r run before
      refine ⟨by omega, fun u started => ?_⟩
      rcases evolves.status with same | now
      · exact status u (same ▸ started)
      · rw [now, Option.some.injEq] at started
        omega
    · refine ⟨Nat.lt_succ_self _, fun u status => ?_⟩
      rcases started with none_started | now
      · rw [none_started] at status
        cases status
      · rw [now, Option.some.injEq] at status
        omega
  changes h change' at_h := by
    rcases moves.changes h change' at_h with ⟨change, before, -⟩ | ⟨rfl, -⟩
    · exact Nat.lt_succ_of_lt (times.changes h change before)
    · exact Nat.lt_succ_self _
  ended h change' u at_h ended := by
    rcases moves.changes h change' at_h with ⟨change, before, moved⟩ | ⟨-, running, -⟩
    · cases moved with
      | same => exact Nat.lt_succ_of_lt (times.ended h _ u before ended)
      | ended running waits => cases ended; exact Nat.lt_succ_self _
      | resolved invalid v at_v => exact Nat.lt_succ_of_lt (times.ended h change u before ended)
    · rw [running] at ended
      cases ended
  resolved h change' t at_h resolved := by
    rcases moves.changes h change' at_h with ⟨change, before, moved⟩ | ⟨-, -, waits⟩
    · cases moved with
      | same =>
        obtain ⟨past, ended⟩ := times.resolved h _ t before resolved
        exact ⟨Nat.lt_succ_of_lt past, ended⟩
      | ended running waits =>
        rw [waits] at resolved
        cases resolved
      | resolved invalid u ended =>
        cases resolved
        exact ⟨Nat.lt_succ_self _, u, ended, times.ended h change u before ended⟩
    · rw [waits] at resolved
      cases resolved

theorem Fresh.moves (fresh : Fresh s.clock s) (times : Times s.clock s) (moves : Moves s s') : Fresh (s.clock + 1) s' := by
  have cached : ∀ key entry, s'.cache key = some entry → ∃ run, s'.runs entry.run = some run ∧ run.key = key ∧
      run.failureSeen = none ∧ ∀ h change t, s'.changes h = some change → change.key = key → change.resolvedAt = some t → t < entry.run := by
    intro key entry at_key
    have younger : ∀ low, (∀ h change t, s.changes h = some change → change.key = key → change.resolvedAt = some t → t < low) →
        ∀ h change t, s'.changes h = some change → change.key = key → change.resolvedAt = some t → t < low := by
      intro low old h change' t at_h own resolved
      rcases moves.changes h change' at_h with ⟨change, before, moved⟩ | ⟨-, -, waits⟩
      · cases moved with
        | same => exact old h _ t before own resolved
        | ended running waits => exact old h change t before own resolved
        | resolved invalid u ended =>
          rw [show change.key = key from own, at_key] at invalid
          cases invalid
      · rw [waits] at resolved
        cases resolved
    rcases moves.cache key entry at_key with ⟨before, unseen⟩ | ⟨new, run', at_run, own, none_seen⟩
    · obtain ⟨run, at_run, own, none_seen, old⟩ := fresh.cached key entry before
      obtain ⟨run', at_run', evolves⟩ := moves.kept _ run at_run
      exact ⟨run', at_run', evolves.key.trans own, (unseen run run' at_run at_run').trans none_seen, younger _ old⟩
    · refine ⟨run', new ▸ at_run, own, none_seen, younger _ fun h change t at_h _ resolved => ?_⟩
      rw [new]
      exact (times.resolved h change t at_h resolved).1
  refine ⟨cached, fun c call' at_c => ?_⟩
  rcases moves.calls c call' at_c with ⟨call, before, key, same_run⟩ | ⟨rfl, entry, at_key, own⟩
  · obtain ⟨past, run, at_run, own, seen, old⟩ := fresh.called c call before
    obtain ⟨run', at_run', evolves⟩ := moves.kept _ run at_run
    rw [key, same_run]
    refine ⟨Nat.lt_succ_of_lt past, run', at_run', evolves.key.trans own, fun t failed => ?_, fun h change' t at_h same resolved late => ?_⟩
    · rcases evolves.failure with unseen | ⟨-, now⟩
      · exact seen t (unseen ▸ failed)
      · rw [now, Option.some.injEq] at failed
        omega
    · rcases moves.changes h change' at_h with ⟨change, before', moved⟩ | ⟨-, -, waits⟩
      · cases moved with
        | same => exact old h _ t before' same resolved late
        | ended running waits => exact old h change t before' same resolved late
        | resolved invalid u ended =>
          cases resolved
          omega
      · rw [waits] at resolved
        cases resolved
  · obtain ⟨run, at_run, key, none_seen, old⟩ := cached call'.key entry at_key
    rw [own] at at_run old
    refine ⟨Nat.lt_succ_self _, run, at_run, key, fun seen failed => ?_, fun h change t at_h same resolved _ => old h change t at_h same resolved⟩
    rw [none_seen] at failed
    cases failed

end Moves

section Order

variable {s s' : State} {r : Nat} {run run' : SetupRun} {jobs more : List Job} {job : Job}

/-- The removal of a run is queued, and no call that waits for it comes before. -/
def RemovedFirst (r : Nat) (jobs : List Job) : Prop :=
  ∃ before after, jobs = before ++ .react r .remove :: after ∧ ∀ c, .react r (.caller c) ∉ before

theorem RemovedFirst.append (first : RemovedFirst r jobs) (more : List Job) : RemovedFirst r (jobs ++ more) := by
  obtain ⟨before, after, rfl, none_before⟩ := first
  exact ⟨before, after ++ more, by simp, none_before⟩

theorem RemovedFirst.tail (first : RemovedFirst r (job :: jobs)) (other : job ≠ .react r .remove) : RemovedFirst r jobs := by
  obtain ⟨before, after, same, none_before⟩ := first
  cases before with
  | nil => exact (other (List.cons.inj same).1).elim
  | cons head before =>
    exact ⟨before, after, (List.cons.inj same).2, fun c member => none_before c (List.mem_cons_of_mem _ member)⟩

/-- A run that has come past the status helper has started it. -/
def SetupRun.Started (run : SetupRun) : Prop :=
  match run.phase with
  | .deviceId | .deviceIdAnswered => True
  | .status | .statusAnswered => run.statusStarted.isSome = true
  | .settled ok => ok = true → configured run.key.offlineMediaStatusCommand = true → run.statusStarted.isSome = true

def SetupRun.Pending (run : SetupRun) : Prop := ∀ ok, run.phase ≠ .settled ok

/-- The removal of a failed run is queued before the calls that wait for it. -/
structure Order (s : State) : Prop where
  started : ∀ r run, s.runs r = some run → run.Started
  unborn : ∀ r, s.runs r = none → ∀ x, .react r x ∉ s.jobs
  pending : ∀ r run, s.runs r = some run → run.Pending → (∀ x, .react r x ∉ s.jobs) ∧ ∃ more, run.reactions = .remove :: more
  failed : ∀ r run, s.runs r = some run → run.phase = .settled false → run.failureSeen = none → RemovedFirst r s.jobs
  queued : ∀ h ok, .changed h ok ∈ s.jobs → ∃ change u, s.changes h = some change ∧ change.helperEnded = some u

/-- A run that goes on without being settled or seen to fail. -/
structure SameStage (run run' : SetupRun) : Prop where
  started : run'.Started
  pending : run'.Pending → run.Pending ∧ ∀ more, run.reactions = .remove :: more → ∃ more', run'.reactions = .remove :: more'
  failed : run'.phase = .settled false → run'.failureSeen = none → run.phase = .settled false ∧ run.failureSeen = none

theorem SameStage.refl (started : run.Started) : SameStage run run :=
  ⟨started, fun pending => ⟨pending, fun more same => ⟨more, same⟩⟩, fun phase unseen => ⟨phase, unseen⟩⟩

theorem Order.frame (order : Order s)
    (runs : ∀ r run', s'.runs r = some run' → ∃ run, s.runs r = some run ∧ SameStage run run')
    (kept : ∀ r, s'.runs r = none → s.runs r = none) (reacts : ∀ r x, .react r x ∈ s'.jobs → .react r x ∈ s.jobs)
    (first : ∀ r run', s'.runs r = some run' → run'.phase = .settled false → run'.failureSeen = none →
      RemovedFirst r s.jobs → RemovedFirst r s'.jobs)
    (queued : ∀ h ok, .changed h ok ∈ s'.jobs → ∃ change u, s'.changes h = some change ∧ change.helperEnded = some u) : Order s' where
  started r run' at_r := by
    obtain ⟨run, -, same⟩ := runs r run' at_r
    exact same.started
  unborn r absent x member := order.unborn r (kept r absent) x (reacts r x member)
  pending r run' at_r waits := by
    obtain ⟨run, before, same⟩ := runs r run' at_r
    obtain ⟨waited, reactions⟩ := same.pending waits
    obtain ⟨none_queued, more, list⟩ := order.pending r run before waited
    exact ⟨fun x member => none_queued x (reacts r x member), reactions more list⟩
  failed r run' at_r phase unseen := by
    obtain ⟨run, before, same⟩ := runs r run' at_r
    obtain ⟨was_failed, was_unseen⟩ := same.failed phase unseen
    exact first r run' at_r phase unseen (order.failed r run before was_failed was_unseen)
  queued := queued

/-- One run goes on in the same stage. -/
theorem update_stage (order : Order s) (found : s.runs r = some run) (stage : SameStage run run') :
    (∀ q other, Function.update s.runs r (some run') q = some other → ∃ run, s.runs q = some run ∧ SameStage run other) ∧
      ∀ q, Function.update s.runs r (some run') q = none → s.runs q = none := by
  constructor
  · intro q other at_q
    by_cases same : q = r
    · subst same
      rw [Function.update_self, Option.some.injEq] at at_q
      exact ⟨run, found, at_q ▸ stage⟩
    · rw [Function.update_of_ne same] at at_q
      exact ⟨other, at_q, .refl (order.started q other at_q)⟩
  · intro q absent
    by_cases same : q = r
    · subst same
      rw [Function.update_self] at absent
      cases absent
    · rwa [Function.update_of_ne same] at absent

/-- A state whose runs are all in the same stage and whose queue has got one more job that is no reaction. -/
theorem Order.enqueue (order : Order s) (job : Job) (plain : ∀ r x, job ≠ .react r x)
    (runs : ∀ r run', s'.runs r = some run' → ∃ run, s.runs r = some run ∧ SameStage run run')
    (kept : ∀ r, s'.runs r = none → s.runs r = none) (jobs : s'.jobs = s.jobs ++ [job])
    (queued : ∀ h ok, .changed h ok ∈ s'.jobs → ∃ change u, s'.changes h = some change ∧ change.helperEnded = some u) : Order s' := by
  refine order.frame runs kept (fun r x member => ?_) (fun r run' _ _ _ first => jobs ▸ first.append [job]) queued
  rw [jobs] at member
  rcases List.mem_append.mp member with old | new
  · exact old
  · exact (plain r x (List.mem_singleton.mp new).symm).elim

end Order

section Actions

variable {s : State}

/-- A run gets an answer and is queued to go on. -/
theorem waiting_sound (order : Order s) {r : Nat} {run run' : SetupRun} (found : s.runs r = some run)
    (evolves : Evolves s.clock run run') (unseen : run'.failureSeen = run.failureSeen) (stage : SameStage run run') (ok : Bool) :
    Moves s ((s.setRun r run').enqueue [.resume r ok]) ∧ Order ((s.setRun r run').enqueue [.resume r ok]) := by
  obtain ⟨runs, kept⟩ := update_stage order found stage
  refine ⟨.of_run found evolves rfl rfl (fun c call at_c => ⟨call, at_c, rfl, rfl⟩)
    fun key entry cached => ⟨cached, fun _ => unseen⟩, order.enqueue (.resume r ok) nofun runs kept rfl fun h ok' member => ?_⟩
  rcases List.mem_append.mp member with old | new
  · exact order.queued h ok' old
  · cases List.mem_singleton.mp new

theorem answered_sound (order : Order s) (r : Nat) (ok : Bool) :
    Moves s (answered s r ok) ∧ Order (answered s r ok) := by
  have same : Moves s s ∧ Order s := ⟨.of_jobs rfl rfl rfl rfl, order⟩
  unfold answered
  split
  · rename_i run found
    have started := order.started r run found
    split
    · rename_i phase
      have stage : SameStage run { run with phase := .deviceIdAnswered } :=
        ⟨trivial, fun _ => ⟨fun ok => by simp [phase], fun more same => ⟨more, same⟩⟩, nofun⟩
      have evolves : Evolves s.clock run { run with phase := .deviceIdAnswered } := ⟨rfl, .inl rfl, .inl rfl⟩
      exact waiting_sound order found evolves rfl stage ok
    · rename_i phase
      have stage : SameStage run { run with phase := .statusAnswered } :=
        ⟨by simpa [SetupRun.Started, phase] using started, fun _ => ⟨fun ok => by simp [phase], fun more same => ⟨more, same⟩⟩, nofun⟩
      have evolves : Evolves s.clock run { run with phase := .statusAnswered } := ⟨rfl, .inl rfl, .inl rfl⟩
      exact waiting_sound order found evolves rfl stage ok
    · exact same
  · exact same

theorem ended_sound (order : Order s) (times : Times s.clock s) (h : Nat) (ok : Bool) :
    Moves s (ended s h ok) ∧ Order (ended s h ok) := by
  have same : Moves s s ∧ Order s := ⟨.of_jobs rfl rfl rfl rfl, order⟩
  unfold ended
  split
  · rename_i change found
    split
    · rename_i running
      have waits : change.resolvedAt = none := by
        cases resolved : change.resolvedAt with
        | none => rfl
        | some t =>
          obtain ⟨-, u, ended, -⟩ := times.resolved h change t found resolved
          rw [running] at ended
          cases ended
      constructor
      · refine ⟨fun r run at_r => .inl ⟨run, at_r, .refl _ _⟩, fun r run at_r => ⟨run, at_r, .refl _ _⟩,
          fun key entry cached => .inl ⟨cached, fun run run' old new => ?_⟩, fun c call at_c => .inl ⟨call, at_c, rfl, rfl⟩,
          fun g change' at_g => .inl ?_⟩
        · exact (Option.some.inj (old.symm.trans new)) ▸ rfl
        · change Function.update s.changes h _ g = some change' at at_g
          by_cases own : g = h
          · subst own
            rw [Function.update_self, Option.some.injEq] at at_g
            exact ⟨change, found, at_g ▸ .ended running waits⟩
          · rw [Function.update_of_ne own] at at_g
            exact ⟨change', at_g, .same⟩
      · refine order.enqueue (.changed h ok) nofun (fun r run at_r => ⟨run, at_r, .refl (order.started r run at_r)⟩)
          (fun r absent => absent) rfl fun g ok' member => ?_
        change ∃ change' u, Function.update s.changes h _ g = some change' ∧ change'.helperEnded = some u
        by_cases own : g = h
        · subst own
          rw [Function.update_self]
          exact ⟨_, s.clock, rfl, rfl⟩
        · rw [Function.update_of_ne own]
          rcases List.mem_append.mp member with old | new
          · exact order.queued g ok' old
          · cases List.mem_singleton.mp new
            exact (own rfl).elim
    · exact same
  · exact same

theorem change_sound (order : Order s) (times : Times s.clock s) (config : Config) (username : String) :
    Moves s (startChange s config username) ∧ Order (startChange s config username) := by
  unfold startChange
  split
  · constructor
    · refine ⟨fun r run at_r => .inl ⟨run, at_r, .refl _ _⟩, fun r run at_r => ⟨run, at_r, .refl _ _⟩,
        fun key entry cached => .inl ⟨cached, fun run run' old new => ?_⟩, fun c call at_c => .inl ⟨call, at_c, rfl, rfl⟩,
        fun g change' at_g => ?_⟩
      · exact (Option.some.inj (old.symm.trans new)) ▸ rfl
      · change Function.update s.changes s.clock _ g = some change' at at_g
        by_cases own : g = s.clock
        · subst own
          rw [Function.update_self, Option.some.injEq] at at_g
          exact .inr (at_g ▸ ⟨rfl, rfl, rfl⟩)
        · rw [Function.update_of_ne own] at at_g
          exact .inl ⟨change', at_g, .same⟩
    · refine order.frame (fun r run at_r => ⟨run, at_r, .refl (order.started r run at_r)⟩) (fun r absent => absent)
        (fun r x member => member) (fun r run _ _ _ first => first) fun h ok member => ?_
      obtain ⟨change, u, at_h, ended⟩ := order.queued h ok member
      have other : h ≠ s.clock := Nat.ne_of_lt (times.changes h change at_h)
      exact ⟨change, u, (Function.update_of_ne other ..).trans at_h, ended⟩
  · exact ⟨.of_jobs rfl rfl rfl rfl, order⟩

/-- A run that has just been started, and what its start has queued. -/
structure Born (clock : Nat) (key : Key) (run : SetupRun) (more : List Job) : Prop where
  key : run.key = key
  status : run.statusStarted = none ∨ run.statusStarted = some clock
  unseen : run.failureSeen = none
  started : run.Started
  whole : run.phase ≠ .settled false
  pending : run.Pending → more = [] ∧ run.reactions = [.remove]
  queued : ∀ job ∈ more, job = .react clock .remove
  uncalled : ∀ c, .caller c ∉ run.reactions

theorem register_start (s : State) (key : Key) (clock : Nat) :
    ∃ run more, s.register clock (.start key clock) .remove = (s.setRun clock run).enqueue more ∧ Born clock key run more := by
  unfold SetupRun.start
  split
  · refine ⟨{ key := key, phase := .deviceId, reactions := [.remove] }, [], ?_, rfl, .inl rfl, rfl, trivial, nofun,
      fun _ => ⟨rfl, rfl⟩, nofun, by simp⟩
    simp [State.register, State.enqueue, State.setRun]
  · split
    · refine ⟨{ key := key, phase := .status, reactions := [.remove], statusStarted := some clock }, [], ?_, rfl, .inr rfl, rfl,
        rfl, nofun, fun _ => ⟨rfl, rfl⟩, nofun, by simp⟩
      simp [State.register, State.enqueue, State.setRun]
    · rename_i none_configured
      refine ⟨{ key := key, phase := .settled true }, [.react clock .remove], rfl, rfl, .inl rfl, rfl, ?_, nofun,
        fun pending => (pending true rfl).elim, by simp, by simp⟩
      exact fun _ configured => (none_configured configured).elim

theorem call_sound (order : Order s) (key : Key) (entry : Entry) (cached : s.cache key = some entry) :
    Moves s (s.call key entry.run) ∧ Order (s.call key entry.run) := by
  constructor
  · refine ⟨fun r run at_r => .inl ⟨run, at_r, .refl _ _⟩, fun r run at_r => ⟨run, at_r, .refl _ _⟩,
      fun key entry cached => .inl ⟨cached, fun run run' old new => ?_⟩, fun c call' at_c => ?_, fun h change at_h => .inl ⟨change, at_h, .same⟩⟩
    · exact (Option.some.inj (old.symm.trans new)) ▸ rfl
    · change Function.update s.calls s.clock _ c = some call' at at_c
      by_cases own : c = s.clock
      · subst own
        rw [Function.update_self, Option.some.injEq] at at_c
        subst at_c
        exact .inr ⟨rfl, entry, cached, rfl⟩
      · rw [Function.update_of_ne own] at at_c
        exact .inl ⟨call', at_c, rfl, rfl⟩
  · refine order.enqueue (.adopt s.clock) nofun (fun r run at_r => ⟨run, at_r, .refl (order.started r run at_r)⟩)
      (fun r absent => absent) rfl fun h ok member => ?_
    rcases List.mem_append.mp member with old | new
    · exact order.queued h ok old
    · cases List.mem_singleton.mp new

/-- A run that is started and put into the cache for a call. -/
theorem born_sound (order : Order s) (times : Times s.clock s) {key : Key} {run : SetupRun} {more : List Job}
    (born : Born s.clock key run more) (entry : Entry) (own : entry.run = s.clock) (cache : Key → Option Entry)
    (stored : cache = Function.update s.cache key (some entry)) :
    Moves s (((({ s with cache := cache } : State).setRun s.clock run).enqueue more).call key s.clock) ∧
      Order (((({ s with cache := cache } : State).setRun s.clock run).enqueue more).call key s.clock) := by
  have new : s.runs s.clock = none := by
    cases at_clock : s.runs s.clock with
    | none => rfl
    | some old => exact (Nat.lt_irrefl _ (times.runs s.clock old at_clock).1).elim
  have reacts : ∀ r x, Job.react r x ∈ (s.jobs ++ more) ++ [.adopt s.clock] → r = s.clock ∨ Job.react r x ∈ s.jobs := by
    intro r x member
    rcases List.mem_append.mp member with member | adopts
    · rcases List.mem_append.mp member with old | queued
      · exact .inr old
      · exact .inl (Job.react.inj (born.queued _ queued)).1
    · cases List.mem_singleton.mp adopts
  have at_run : ∀ r other, Function.update s.runs s.clock (some run) r = some other →
      (r = s.clock ∧ run = other) ∨ (r ≠ s.clock ∧ s.runs r = some other) := by
    intro r other at_r
    by_cases same : r = s.clock
    · rw [same, Function.update_self, Option.some.injEq] at at_r
      exact .inl ⟨same, at_r⟩
    · rw [Function.update_of_ne same] at at_r
      exact .inr ⟨same, at_r⟩
  constructor
  · refine ⟨fun r other at_r => ?_, fun r other at_r => ?_, fun key' entry' cached => ?_, fun c call' at_c => ?_,
      fun h change at_h => .inl ⟨change, at_h, .same⟩⟩
    · rcases at_run r other at_r with ⟨same, rfl⟩ | ⟨-, before⟩
      · exact .inr ⟨same, born.status⟩
      · exact .inl ⟨other, before, .refl _ _⟩
    · have same : r ≠ s.clock := fun same => by simp [same, new] at at_r
      exact ⟨other, (Function.update_of_ne same ..).trans at_r, .refl _ _⟩
    · change cache key' = some entry' at cached
      rw [stored] at cached
      by_cases same : key' = key
      · subst same
        rw [Function.update_self, Option.some.injEq] at cached
        subst cached
        exact .inr ⟨own, run, Function.update_self .., born.key, born.unseen⟩
      · rw [Function.update_of_ne same] at cached
        refine .inl ⟨cached, fun old now at_old at_now => ?_⟩
        rcases at_run entry'.run now at_now with ⟨same, -⟩ | ⟨-, before⟩
        · rw [same, new] at at_old
          cases at_old
        · rw [Option.some.inj (at_old.symm.trans before)]
    · change Function.update s.calls s.clock _ c = some call' at at_c
      by_cases same : c = s.clock
      · subst same
        rw [Function.update_self, Option.some.injEq] at at_c
        subst at_c
        exact .inr ⟨rfl, entry, (congrFun stored key).trans (Function.update_self ..), own⟩
      · rw [Function.update_of_ne same] at at_c
        exact .inl ⟨call', at_c, rfl, rfl⟩
  · refine ⟨fun r other at_r => ?_, fun r absent x member => ?_, fun r other at_r pending => ?_, fun r other at_r failed unseen => ?_,
      fun h ok member => ?_⟩
    · rcases at_run r other at_r with ⟨-, rfl⟩ | ⟨-, before⟩
      · exact born.started
      · exact order.started r other before
    · change Function.update s.runs s.clock (some run) r = none at absent
      rcases reacts r x member with rfl | old
      · rw [Function.update_self] at absent
        cases absent
      · have other : r ≠ s.clock := fun same => by simp [same] at absent
        exact order.unborn r ((Function.update_of_ne other ..).symm.trans absent) x old
    · rcases at_run r other at_r with ⟨rfl, rfl⟩ | ⟨other_run, before⟩
      · obtain ⟨none_queued, reactions⟩ := born.pending pending
        refine ⟨fun x member => ?_, [], reactions⟩
        have member : Job.react s.clock x ∈ (s.jobs ++ more) ++ [.adopt s.clock] := member
        rw [none_queued, List.append_nil] at member
        rcases List.mem_append.mp member with old | adopts
        · exact order.unborn s.clock new x old
        · cases List.mem_singleton.mp adopts
      · obtain ⟨none_queued, list⟩ := order.pending r other before pending
        refine ⟨fun x member => ?_, list⟩
        rcases reacts r x member with same | old
        · exact other_run same
        · exact none_queued x old
    · rcases at_run r other at_r with ⟨-, rfl⟩ | ⟨-, before⟩
      · exact (born.whole failed).elim
      · exact ((order.failed r other before failed unseen).append more).append [.adopt s.clock]
    · have member : Job.changed h ok ∈ (s.jobs ++ more) ++ [.adopt s.clock] := member
      rcases List.mem_append.mp member with member | adopts
      · rcases List.mem_append.mp member with old | queued
        · exact order.queued h ok old
        · cases born.queued _ queued
      · cases List.mem_singleton.mp adopts

theorem get_sound (order : Order s) (times : Times s.clock s) (config : Config) (username : String) (checked set : Int) :
    Moves s (getOfflineMediaSetup s config username checked set) ∧ Order (getOfflineMediaSetup s config username checked set) := by
  unfold getOfflineMediaSetup
  split
  · dsimp only
    split
    · rename_i entry kept
      exact call_sound order _ entry (Option.filter_eq_some_iff.mp kept).1
    · obtain ⟨run, more, shape, born⟩ := register_start
        { s with cache := Function.update s.cache (setupCacheKey config username) (some { run := s.clock, expiresAt := set + setupTtl }) }
        (setupCacheKey config username) s.clock
      rw [shape]
      exact born_sound order times born _ rfl _ rfl
  · exact ⟨.of_jobs rfl rfl rfl rfl, order⟩

end Actions

section Jobs

variable {s : State} {rest : List Job}

/-- A job that is no reaction leaves the order of the reactions. -/
theorem Order.drop {job : Job} (order : Order s) (head : s.jobs = job :: rest) (plain : ∀ r x, job ≠ .react r x) :
    Order { s with jobs := rest } := by
  refine order.frame (fun r run at_r => ⟨run, at_r, .refl (order.started r run at_r)⟩) (fun r absent => absent)
    (fun r x member => head ▸ List.mem_cons_of_mem _ member) (fun r run _ _ _ first => ?_)
    fun h ok member => order.queued h ok (head ▸ List.mem_cons_of_mem _ member)
  rw [head] at first
  exact first.tail (plain r .remove)

/-- A run is settled: its removal is queued first, as it waited first. -/
theorem settle_sound (order : Order s) {r : Nat} {run : SetupRun} (found : s.runs r = some run) (waits : run.Pending) (ok : Bool)
    (started : ok = true → configured run.key.offlineMediaStatusCommand = true → run.statusStarted.isSome = true) :
    Moves s (s.settle r run ok) ∧ Order (s.settle r run ok) := by
  obtain ⟨none_queued, more, list⟩ := order.pending r run found waits
  have jobs : (s.settle r run ok).jobs = s.jobs ++ run.reactions.map (.react r) := rfl
  have reacts : ∀ q x, Job.react q x ∈ s.jobs ++ run.reactions.map (.react r) → q = r ∨ Job.react q x ∈ s.jobs := by
    intro q x member
    rcases List.mem_append.mp member with old | new
    · exact .inr old
    · obtain ⟨y, -, same⟩ := List.mem_map.mp new
      exact .inl (Job.react.inj same).1.symm
  have at_run : ∀ q other, (s.settle r run ok).runs q = some other →
      (q = r ∧ { run with phase := .settled ok, reactions := [] } = other) ∨ (q ≠ r ∧ s.runs q = some other) := by
    intro q other at_q
    change Function.update s.runs r _ q = some other at at_q
    by_cases same : q = r
    · rw [same, Function.update_self, Option.some.injEq] at at_q
      exact .inl ⟨same, at_q⟩
    · rw [Function.update_of_ne same] at at_q
      exact .inr ⟨same, at_q⟩
  have evolves : Evolves s.clock run { run with phase := .settled ok, reactions := [] } := ⟨rfl, .inl rfl, .inl rfl⟩
  refine ⟨.of_run found evolves rfl rfl (fun c call at_c => ⟨call, at_c, rfl, rfl⟩) fun key entry cached => ⟨cached, fun _ => rfl⟩,
    fun q other at_q => ?_, fun q absent x member => ?_, fun q other at_q pending => ?_, fun q other at_q failed unseen => ?_,
    fun h ok' member => ?_⟩
  · rcases at_run q other at_q with ⟨-, rfl⟩ | ⟨-, before⟩
    · exact started
    · exact order.started q other before
  · have other : q ≠ r := by
      rintro rfl
      change Function.update s.runs q _ q = none at absent
      rw [Function.update_self] at absent
      cases absent
    rcases reacts q x member with same | old
    · exact other same
    · exact order.unborn q ((Function.update_of_ne other ..).symm.trans absent) x old
  · rcases at_run q other at_q with ⟨-, rfl⟩ | ⟨other_run, before⟩
    · exact (pending ok rfl).elim
    · obtain ⟨unqueued, list⟩ := order.pending q other before pending
      refine ⟨fun x member => ?_, list⟩
      rcases reacts q x member with same | old
      · exact other_run same
      · exact unqueued x old
  · rw [jobs]
    rcases at_run q other at_q with ⟨rfl, -⟩ | ⟨-, before⟩
    · rw [list]
      exact ⟨s.jobs, more.map (.react q), rfl, fun c => none_queued (.caller c)⟩
    · exact (order.failed q other before failed unseen).append _
  · rw [jobs] at member
    rcases List.mem_append.mp member with old | new
    · exact order.queued h ok' old
    · obtain ⟨y, -, same⟩ := List.mem_map.mp new
      cases same

theorem resume_sound (order : Order s) (r : Nat) (ok : Bool) : Moves s (resume s r ok) ∧ Order (resume s r ok) := by
  have same : Moves s s ∧ Order s := ⟨.of_jobs rfl rfl rfl rfl, order⟩
  unfold resume
  split
  · rename_i run found
    have started := order.started r run found
    split
    · rename_i phase
      split
      · have stage : SameStage run { run with phase := .status, statusStarted := some s.clock } :=
          ⟨rfl, fun _ => ⟨fun ok => by simp [phase], fun more same => ⟨more, same⟩⟩, nofun⟩
        have evolves : Evolves s.clock run { run with phase := .status, statusStarted := some s.clock } := ⟨rfl, .inr rfl, .inl rfl⟩
        obtain ⟨runs, kept⟩ := update_stage order found stage
        exact ⟨.of_run found evolves rfl rfl (fun c call at_c => ⟨call, at_c, rfl, rfl⟩) fun key entry cached => ⟨cached, fun _ => rfl⟩,
          order.frame runs kept (fun q x member => member) (fun q run' _ _ _ first => first) order.queued⟩
      · rename_i ends
        refine settle_sound order found (fun ok => by simp [phase]) ok fun fine command => ?_
        exact (ends (by simp [fine, command])).elim
    · rename_i phase
      refine settle_sound order found (fun ok => by simp [phase]) ok fun _ _ => ?_
      simpa [SetupRun.Started, phase] using started
    · exact same
  · exact same

theorem adopt_sound (order : Order s) (c : Nat) : Moves s (adopt s c) ∧ Order (adopt s c) := by
  have same : Moves s s ∧ Order s := ⟨.of_jobs rfl rfl rfl rfl, order⟩
  unfold adopt
  split
  · rename_i call _
    split
    · rename_i run found
      have started := order.started call.run run found
      unfold State.register
      split
      · rename_i ok phase
        have runs : Function.update s.runs call.run (some run) = s.runs := by
          rw [← found, Function.update_eq_self]
        have jobs : ∀ q x, Job.react q x ∈ s.jobs ++ [.react call.run (.caller c)] → q = call.run ∨ Job.react q x ∈ s.jobs := by
          intro q x member
          rcases List.mem_append.mp member with old | new
          · exact .inr old
          · exact .inl (Job.react.inj (List.mem_singleton.mp new)).1
        refine ⟨.of_jobs runs rfl rfl rfl, fun q other at_q => ?_, fun q absent x member => ?_, fun q other at_q pending => ?_,
          fun q other at_q failed unseen => ?_, fun h ok' member => ?_⟩
        · exact order.started q other ((congrFun runs q).symm.trans at_q)
        · have absent := (congrFun runs q).symm.trans absent
          rcases jobs q x member with rfl | old
          · rw [found] at absent
            cases absent
          · exact order.unborn q absent x old
        · have at_q := (congrFun runs q).symm.trans at_q
          obtain ⟨none_queued, list⟩ := order.pending q other at_q pending
          refine ⟨fun x member => ?_, list⟩
          rcases jobs q x member with rfl | old
          · rw [found, Option.some.injEq] at at_q
            exact pending ok (at_q ▸ phase)
          · exact none_queued x old
        · exact (order.failed q other ((congrFun runs q).symm.trans at_q) failed unseen).append _
        · rcases List.mem_append.mp member with old | new
          · exact order.queued h ok' old
          · cases List.mem_singleton.mp new
      · rename_i waits
        have stage : SameStage run { run with reactions := run.reactions ++ [.caller c] } := by
          refine ⟨started, fun _ => ⟨waits, fun more same => ⟨more ++ [.caller c], ?_⟩⟩, fun failed unseen => ⟨failed, unseen⟩⟩
          rw [same]
          rfl
        have evolves : Evolves s.clock run { run with reactions := run.reactions ++ [.caller c] } := ⟨rfl, .inl rfl, .inl rfl⟩
        obtain ⟨runs, kept⟩ := update_stage order found stage
        exact ⟨.of_run found evolves rfl rfl (fun c call at_c => ⟨call, at_c, rfl, rfl⟩) fun key entry cached => ⟨cached, fun _ => rfl⟩,
          order.frame runs kept (fun q x member => member) (fun q run' _ _ _ first => first) order.queued⟩
    · exact same
  · exact same

theorem changed_sound (order : Order s) (h : Nat) (ok : Bool)
    (ended : ∃ change u, s.changes h = some change ∧ change.helperEnded = some u) : Moves s (changed s h ok) ∧ Order (changed s h ok) := by
  have same : Moves s s ∧ Order s := ⟨.of_jobs rfl rfl rfl rfl, order⟩
  obtain ⟨change, u, found, ended⟩ := ended
  unfold changed
  rw [found]
  dsimp only
  split
  · constructor
    · refine ⟨fun r run at_r => .inl ⟨run, at_r, .refl _ _⟩, fun r run at_r => ⟨run, at_r, .refl _ _⟩,
        fun key entry cached => .inl ⟨?_, fun run run' old new => ?_⟩, fun c call at_c => .inl ⟨call, at_c, rfl, rfl⟩,
        fun g change' at_g => .inl ?_⟩
      · change Function.update s.cache change.key none key = some entry at cached
        by_cases own : key = change.key
        · rw [own, Function.update_self] at cached
          cases cached
        · rwa [Function.update_of_ne own] at cached
      · exact (Option.some.inj (old.symm.trans new)) ▸ rfl
      · change Function.update s.changes h _ g = some change' at at_g
        by_cases own : g = h
        · subst own
          rw [Function.update_self, Option.some.injEq] at at_g
          exact ⟨change, found, at_g ▸ .resolved (Function.update_self ..) u ended⟩
        · rw [Function.update_of_ne own] at at_g
          exact ⟨change', at_g, .same⟩
    · refine order.frame (fun r run at_r => ⟨run, at_r, .refl (order.started r run at_r)⟩) (fun r absent => absent)
        (fun r x member => member) (fun r run _ _ _ first => first) fun g ok' member => ?_
      change ∃ change' u, Function.update s.changes h _ g = some change' ∧ change'.helperEnded = some u
      by_cases own : g = h
      · subst own
        rw [Function.update_self]
        exact ⟨_, u, rfl, ended⟩
      · rw [Function.update_of_ne own]
        exact order.queued g ok' member
  · exact same

/-- A run whose reaction is queued is settled. -/
theorem Order.reacting (order : Order s) {r : Nat} {run : SetupRun} {x : Reaction} (found : s.runs r = some run)
    (member : Job.react r x ∈ s.jobs) : ∃ ok, run.phase = .settled ok := by
  by_contra waits
  exact (order.pending r run found fun ok same => waits ⟨ok, same⟩).1 x member

/-- A call that is answered keeps its key and its run. -/
theorem answered_call {c d r : Nat} {call' : GetCall}
    (at_d : Function.update s.calls c ((s.calls c).map fun call => { call with answer := some r }) d = some call') :
    ∃ call, s.calls d = some call ∧ call'.key = call.key ∧ call'.run = call.run := by
  by_cases own : d = c
  · rw [own, Function.update_self, Option.map_eq_some_iff] at at_d
    obtain ⟨call, at_c, rfl⟩ := at_d
    exact ⟨call, own ▸ at_c, rfl, rfl⟩
  · rw [Function.update_of_ne own] at at_d
    exact ⟨call', at_d, rfl, rfl⟩

theorem removeFailed_cache {r : Nat} {run : SetupRun} {key : Key} {entry : Entry}
    (cached : (removeFailed s r run).cache key = some entry) : s.cache key = some entry ∧ (key = run.key → entry.run ≠ r) := by
  unfold removeFailed at cached
  by_cases own : key = run.key
  · simp only [own, if_true, Option.filter_eq_some_iff] at cached
    exact ⟨own ▸ cached.1, fun _ => by simpa using cached.2⟩
  · simp only [own, if_false] at cached
    exact ⟨cached, fun same => (own same).elim⟩

/-- A reaction runs: the removal is the first to see that a run has failed. -/
theorem react_sound (order : Order s) (fresh : Fresh s.clock s) {r : Nat} {x : Reaction} (head : s.jobs = .react r x :: rest) :
    Moves s (react { s with jobs := rest } r x) ∧ Order (react { s with jobs := rest } r x) := by
  have queued_here : Job.react r x ∈ s.jobs := head ▸ List.mem_cons_self
  cases found : s.runs r with
  | none => exact (order.unborn r found x queued_here).elim
  | some run =>
    obtain ⟨ok, phase⟩ := order.reacting found queued_here
    have later : ∀ q y, Job.react q y ∈ rest → Job.react q y ∈ s.jobs := fun q y member => head ▸ List.mem_cons_of_mem _ member
    have changes : ∀ h ok, Job.changed h ok ∈ rest → ∃ change u, s.changes h = some change ∧ change.helperEnded = some u :=
      fun h ok member => order.queued h ok (head ▸ List.mem_cons_of_mem _ member)
    have first : ∀ q, q ≠ r ∨ (∃ c, x = .caller c) → RemovedFirst q s.jobs → RemovedFirst q rest := by
      intro q other removed
      rw [head] at removed
      refine removed.tail fun same => ?_
      obtain ⟨rfl, rfl⟩ := Job.react.inj same
      rcases other with other | ⟨c, caller⟩
      · exact other rfl
      · cases caller
    have found_here : ({ s with jobs := rest } : State).runs r = some run := found
    unfold react
    rw [found_here]
    dsimp only
    cases ok with
    | true =>
      have whole : run.phase ≠ .settled false := by simp [phase]
      have first : ∀ q other, s.runs q = some other → other.phase = .settled false → other.failureSeen = none →
          RemovedFirst q s.jobs → RemovedFirst q rest := by
        intro q other at_q failed _
        refine first q (.inl ?_)
        rintro rfl
        rw [found, Option.some.injEq] at at_q
        exact whole (at_q ▸ failed)
      have dropped : ∀ s', s'.runs = s.runs → s'.changes = s.changes → s'.jobs = rest → Order s' := by
        intro s' runs same_changes jobs
        refine order.frame (fun q other at_q => ?_) (fun q absent => runs ▸ absent) (fun q y member => later q y (jobs ▸ member))
          (fun q other at_q failed unseen removed => jobs ▸ first q other (runs ▸ at_q) failed unseen removed)
          fun h ok member => same_changes ▸ changes h ok (jobs ▸ member)
        rw [runs] at at_q
        exact ⟨other, at_q, .refl (order.started q other at_q)⟩
      simp only [whole, if_false]
      cases x with
      | remove => exact ⟨.of_jobs rfl rfl rfl rfl, dropped _ rfl rfl rfl⟩
      | caller c =>
        refine ⟨.of_run found (.refl _ _) (by rw [← found, Function.update_eq_self]) rfl (fun d call' at_d => ?_)
          fun key entry cached => ⟨cached, fun _ => rfl⟩, dropped _ rfl rfl rfl⟩
        exact answered_call at_d
    | false =>
      have evolves : Evolves s.clock run { run with failureSeen := run.failureSeen.or (some s.clock) } := by
        refine ⟨rfl, .inl rfl, ?_⟩
        cases seen : run.failureSeen with
        | none => exact .inr ⟨rfl, rfl⟩
        | some t => exact .inl rfl
      have stage : SameStage run { run with failureSeen := run.failureSeen.or (some s.clock) } := by
        refine ⟨order.started r run found, fun pending => (pending false phase).elim, fun _ unseen => ?_⟩
        simp at unseen
      obtain ⟨runs, kept⟩ := update_stage order found stage
      have dropped : ∀ s', s'.runs = Function.update s.runs r (some { run with failureSeen := run.failureSeen.or (some s.clock) }) →
          s'.changes = s.changes → s'.jobs = rest → Order s' := by
        intro s' same_runs same_changes jobs
        refine order.frame (fun q other at_q => runs q other (same_runs ▸ at_q)) (fun q absent => kept q (same_runs ▸ absent))
          (fun q y member => later q y (jobs ▸ member)) (fun q other at_q failed unseen removed => ?_)
          fun h ok member => same_changes ▸ changes h ok (jobs ▸ member)
        rw [jobs]
        refine first q (.inl ?_) removed
        rintro rfl
        rw [same_runs, Function.update_self, Option.some.injEq] at at_q
        subst at_q
        simp at unseen
      simp only [if_pos phase]
      cases x with
      | remove =>
        refine ⟨.of_run found evolves rfl rfl (fun c call at_c => ⟨call, at_c, rfl, rfl⟩) fun key entry cached => ?_, dropped _ rfl rfl rfl⟩
        obtain ⟨was_cached, other⟩ := removeFailed_cache cached
        refine ⟨was_cached, fun own => ?_⟩
        obtain ⟨old, at_old, same_key, -⟩ := fresh.cached key entry was_cached
        rw [own, found, Option.some.injEq] at at_old
        exact (other (at_old ▸ same_key.symm) own).elim
      | caller c =>
        refine ⟨.of_run found evolves rfl rfl (fun d call' at_d => answered_call at_d) fun key entry cached => ⟨cached, fun _ => ?_⟩,
          dropped _ rfl rfl rfl⟩
        cases seen : run.failureSeen with
        | some t => rfl
        | none =>
          obtain ⟨before, after, same, none_before⟩ := head ▸ order.failed r run found phase seen
          cases before with
          | nil => cases same
          | cons job before => exact (none_before c ((List.cons.inj same).1 ▸ List.mem_cons_self)).elim

end Jobs

section Callers

variable {s s' : State}

def Waits (s : State) (r c : Nat) : Prop := ∃ call, s.calls c = some call ∧ call.run = r

def Settled (s : State) (r : Nat) : Prop := ∃ run ok, s.runs r = some run ∧ run.phase = .settled ok

/-- A call waits for its own run, and is answered by it when it is settled. -/
structure Callers (s : State) : Prop where
  waiting : ∀ r run c, s.runs r = some run → .caller c ∈ run.reactions → Waits s r c
  queued : ∀ r c, .react r (.caller c) ∈ s.jobs → Waits s r c
  answered : ∀ c call r, s.calls c = some call → call.answer = some r → r = call.run ∧ Settled s r

theorem Callers.frame (callers : Callers s)
    (kept : ∀ c call, s.calls c = some call → ∃ call', s'.calls c = some call' ∧ call'.run = call.run)
    (settled : ∀ r, Settled s r → Settled s' r)
    (waiting : ∀ r run' c, s'.runs r = some run' → .caller c ∈ run'.reactions → Waits s r c)
    (queued : ∀ r c, .react r (.caller c) ∈ s'.jobs → Waits s r c)
    (answered : ∀ c call' r, s'.calls c = some call' → call'.answer = some r →
      ∃ call, s.calls c = some call ∧ call.run = call'.run ∧ (call.answer = some r ∨ r = call.run ∧ Settled s r)) : Callers s' := by
  have waits : ∀ r c, Waits s r c → Waits s' r c := by
    rintro r c ⟨call, at_c, own⟩
    obtain ⟨call', at_c', same⟩ := kept c call at_c
    exact ⟨call', at_c', same.trans own⟩
  refine ⟨fun r run' c at_r member => waits r c (waiting r run' c at_r member), fun r c member => waits r c (queued r c member),
    fun c call' r at_c answer => ?_⟩
  obtain ⟨call, before, own, was_answered | ⟨same, spent⟩⟩ := answered c call' r at_c answer
  · obtain ⟨same, spent⟩ := callers.answered c call r before was_answered
    exact ⟨same.trans own, settled r spent⟩
  · exact ⟨same.trans own, settled r spent⟩

/-- The calls are left as they are. -/
theorem Callers.same_calls (callers : Callers s) (calls : s'.calls = s.calls) (settled : ∀ r, Settled s r → Settled s' r)
    (waiting : ∀ r run' c, s'.runs r = some run' → .caller c ∈ run'.reactions → Waits s r c)
    (queued : ∀ r c, .react r (.caller c) ∈ s'.jobs → Waits s r c) : Callers s' :=
  callers.frame (fun _ call at_c => ⟨call, calls ▸ at_c, rfl⟩) settled waiting queued
    fun _ call' _ at_c answer => ⟨call', calls ▸ at_c, rfl, .inl answer⟩

/-- One run goes on, and every call that waits for it is one of its own. -/
theorem Callers.one_run (callers : Callers s) {r : Nat} {run run' : SetupRun} (found : s.runs r = some run)
    (runs : s'.runs = Function.update s.runs r (some run')) (calls : s'.calls = s.calls)
    (goes_on : ∀ ok, run.phase = .settled ok → run'.phase = .settled ok)
    (reactions : ∀ c, .caller c ∈ run'.reactions → Waits s r c) (queued : ∀ q c, .react q (.caller c) ∈ s'.jobs → Waits s q c) : Callers s' := by
  refine callers.same_calls calls ?_ (fun q other c at_q member => ?_) queued
  · rintro q ⟨other, ok, at_q, phase⟩
    by_cases own : q = r
    · subst own
      rw [found, Option.some.injEq] at at_q
      exact ⟨run', ok, by rw [runs, Function.update_self], goes_on ok (at_q ▸ phase)⟩
    · exact ⟨other, ok, by rw [runs, Function.update_of_ne own, at_q], phase⟩
  · rw [runs] at at_q
    by_cases own : q = r
    · subst own
      rw [Function.update_self, Option.some.injEq] at at_q
      exact reactions c (at_q ▸ member)
    · rw [Function.update_of_ne own] at at_q
      exact callers.waiting q other c at_q member

/-- A new call, of a run that no other call has waited for. -/
theorem Callers.new_call (callers : Callers s) (fresh : Fresh s.clock s) {call : GetCall} (unanswered : call.answer = none)
    (calls : s'.calls = Function.update s.calls s.clock (some call)) (settled : ∀ r, Settled s r → Settled s' r)
    (waiting : ∀ r run' c, s'.runs r = some run' → .caller c ∈ run'.reactions → Waits s r c)
    (queued : ∀ r c, .react r (.caller c) ∈ s'.jobs → Waits s r c) : Callers s' := by
  have old : ∀ c call, s.calls c = some call → c ≠ s.clock := fun c call at_c => Nat.ne_of_lt (fresh.called c call at_c).1
  have no_call : ∀ c call', s'.calls c = some call' → call'.answer ≠ none → s.calls c = some call' := by
    intro c call' at_c answered
    rw [calls] at at_c
    by_cases own : c = s.clock
    · rw [own, Function.update_self, Option.some.injEq] at at_c
      exact (answered (at_c ▸ unanswered)).elim
    · rwa [Function.update_of_ne own] at at_c
  refine callers.frame (fun c call at_c => ⟨call, ?_, rfl⟩) settled waiting queued fun c call' r at_c answer =>
    ⟨call', no_call c call' at_c (by simp [answer]), rfl, .inl answer⟩
  rw [calls, Function.update_of_ne (old c call at_c), at_c]

theorem get_callers (callers : Callers s) (times : Times s.clock s) (fresh : Fresh s.clock s) (config : Config) (username : String)
    (checked set : Int) : Callers (getOfflineMediaSetup s config username checked set) := by
  unfold getOfflineMediaSetup
  split
  · dsimp only
    split
    · refine callers.new_call fresh rfl rfl (fun r spent => spent) callers.waiting fun r c member => ?_
      rcases List.mem_append.mp member with old | new
      · exact callers.queued r c old
      · cases List.mem_singleton.mp new
    · obtain ⟨run, more, shape, born⟩ := register_start
        { s with cache := Function.update s.cache (setupCacheKey config username) (some { run := s.clock, expiresAt := set + setupTtl }) }
        (setupCacheKey config username) s.clock
      rw [shape]
      refine callers.new_call fresh rfl rfl ?_ (fun r other c at_r member => ?_) fun r c member => ?_
      · rintro r ⟨other, ok, at_r, phase⟩
        have old : r ≠ s.clock := Nat.ne_of_lt (times.runs r other at_r).1
        exact ⟨other, ok, (Function.update_of_ne old ..).trans at_r, phase⟩
      · change Function.update s.runs s.clock (some run) r = some other at at_r
        by_cases own : r = s.clock
        · rw [own, Function.update_self, Option.some.injEq] at at_r
          exact (born.uncalled c (at_r ▸ member)).elim
        · rw [Function.update_of_ne own] at at_r
          exact callers.waiting r other c at_r member
      · have member : Job.react r (.caller c) ∈ (s.jobs ++ more) ++ [.adopt s.clock] := member
        rcases List.mem_append.mp member with member | adopts
        · rcases List.mem_append.mp member with old | queued
          · exact callers.queued r c old
          · cases born.queued _ queued
        · cases List.mem_singleton.mp adopts
  · exact callers

theorem answered_callers (callers : Callers s) (r : Nat) (ok : Bool) : Callers (answered s r ok) := by
  have queued : ∀ q c, Job.react q (.caller c) ∈ s.jobs ++ [.resume r ok] → Waits s q c := by
    intro q c member
    rcases List.mem_append.mp member with old | new
    · exact callers.queued q c old
    · cases List.mem_singleton.mp new
  unfold answered
  split
  · rename_i run found
    split
    · rename_i phase
      exact callers.one_run found rfl rfl (fun ok spent => by simp [phase] at spent) (callers.waiting r run · found) queued
    · rename_i phase
      exact callers.one_run found rfl rfl (fun ok spent => by simp [phase] at spent) (callers.waiting r run · found) queued
    · exact callers
  · exact callers

theorem ended_callers (callers : Callers s) (h : Nat) (ok : Bool) : Callers (ended s h ok) := by
  unfold ended
  split
  · split
    · refine callers.same_calls rfl (fun r spent => spent) callers.waiting fun r c member => ?_
      rcases List.mem_append.mp member with old | new
      · exact callers.queued r c old
      · cases List.mem_singleton.mp new
    · exact callers
  · exact callers

theorem change_callers (callers : Callers s) (config : Config) (username : String) : Callers (startChange s config username) := by
  unfold startChange
  split
  · exact callers.same_calls rfl (fun r spent => spent) callers.waiting callers.queued
  · exact callers

theorem resume_callers (callers : Callers s) (r : Nat) (ok : Bool) : Callers (resume s r ok) := by
  unfold resume
  split
  · rename_i run found
    have settles : (∀ ok, run.phase ≠ .settled ok) → Callers (s.settle r run ok) := by
      intro waits
      refine callers.one_run found rfl rfl (fun ok spent => (waits ok spent).elim) (by simp) fun q c member => ?_
      rcases List.mem_append.mp member with old | new
      · exact callers.queued q c old
      · obtain ⟨x, waited, same⟩ := List.mem_map.mp new
        obtain ⟨rfl, rfl⟩ := Job.react.inj same
        exact callers.waiting r run c found waited
    split
    · rename_i phase
      split
      · exact callers.one_run found rfl rfl (fun ok spent => by simp [phase] at spent) (callers.waiting r run · found) callers.queued
      · exact settles fun ok => by simp [phase]
    · rename_i phase
      exact settles fun ok => by simp [phase]
    · exact callers
  · exact callers

theorem adopt_callers (callers : Callers s) (c : Nat) : Callers (adopt s c) := by
  unfold adopt
  split
  · rename_i call at_c
    split
    · rename_i run found
      unfold State.register
      split
      · refine callers.one_run found rfl rfl (fun ok spent => spent) (callers.waiting call.run run · found) fun q d member => ?_
        rcases List.mem_append.mp member with old | new
        · exact callers.queued q d old
        · obtain ⟨rfl, same⟩ := Job.react.inj (List.mem_singleton.mp new)
          exact Reaction.caller.inj same ▸ ⟨call, at_c, rfl⟩
      · refine callers.one_run found rfl rfl (fun ok spent => spent) (fun d member => ?_) callers.queued
        rcases List.mem_append.mp member with old | new
        · exact callers.waiting call.run run d found old
        · exact Reaction.caller.inj (List.mem_singleton.mp new) ▸ ⟨call, at_c, rfl⟩
    · exact callers
  · exact callers

theorem changed_callers (callers : Callers s) (h : Nat) (ok : Bool) : Callers (changed s h ok) := by
  unfold changed
  split
  · split
    · exact callers.same_calls rfl (fun r spent => spent) callers.waiting callers.queued
    · exact callers
  · exact callers

theorem Callers.drop {job : Job} {rest : List Job} (callers : Callers s) (head : s.jobs = job :: rest) :
    Callers { s with jobs := rest } :=
  callers.same_calls rfl (fun _ spent => spent) callers.waiting fun r c member =>
    callers.queued r c (head ▸ List.mem_cons_of_mem _ member)

/-- A call is answered by its own run. -/
theorem Callers.answer (callers : Callers s) {r c : Nat} (waits : Waits s r c) (spent : Settled s r) :
    Callers { s with calls := Function.update s.calls c ((s.calls c).map fun call => { call with answer := some r }) } := by
  obtain ⟨own, at_own, own_run⟩ := waits
  refine callers.frame (fun d call at_d => ?_) (fun q settled => settled) callers.waiting callers.queued fun d call' q at_d answer => ?_
  · by_cases same : d = c
    · subst same
      exact ⟨{ call with answer := some r }, by simp [at_d], rfl⟩
    · exact ⟨call, (Function.update_of_ne same ..).trans at_d, rfl⟩
  · by_cases same : d = c
    · subst same
      simp only [Function.update_self, at_own, Option.map_some, Option.some.injEq] at at_d
      subst at_d
      cases answer
      exact ⟨own, at_own, rfl, .inr ⟨own_run.symm, spent⟩⟩
    · exact ⟨call', (Function.update_of_ne same ..).symm.trans at_d, rfl, .inl answer⟩

theorem react_callers (callers : Callers s) (order : Order s) {rest : List Job} {r : Nat} {x : Reaction}
    (head : s.jobs = .react r x :: rest) : Callers (react { s with jobs := rest } r x) := by
  have queued_here : Job.react r x ∈ s.jobs := head ▸ List.mem_cons_self
  have dropped := callers.drop head
  cases found : s.runs r with
  | none => exact (order.unborn r found x queued_here).elim
  | some run =>
    obtain ⟨ok, phase⟩ := order.reacting found queued_here
    have found_here : ({ s with jobs := rest } : State).runs r = some run := found
    have seen : ∀ t, Callers (({ s with jobs := rest } : State).setRun r { run with failureSeen := t }) := fun t =>
      dropped.one_run found rfl rfl (fun ok spent => spent) (dropped.waiting r run · found) dropped.queued
    unfold react
    rw [found_here]
    dsimp only
    by_cases failed : run.phase = .settled false
    · simp only [if_pos failed]
      cases x with
      | remove => exact (seen _).same_calls rfl (fun q spent => spent) (seen _).waiting (seen _).queued
      | caller c => exact (seen _).answer (callers.queued r c queued_here) ⟨_, ok, Function.update_self .., phase⟩
    · simp only [if_neg failed]
      cases x with
      | remove => exact dropped
      | caller c => exact dropped.answer (callers.queued r c queued_here) ⟨run, ok, found, phase⟩

end Callers

section Reached

variable {s : State}

/-- Everything that holds whenever a step is taken. -/
structure Sound (s : State) : Prop where
  times : Times s.clock s
  fresh : Fresh s.clock s
  order : Order s
  callers : Callers s

theorem job_moves {s' : State} {rest : List Job} (moves : Moves { s with jobs := rest } s') : Moves s s' :=
  ⟨moves.runs, moves.kept, moves.cache, moves.calls, moves.changes⟩

theorem runJob_sound (sound : Sound s) : Moves s (runJob s) ∧ Order (runJob s) ∧ Callers (runJob s) := by
  unfold runJob
  split
  · exact ⟨.of_jobs rfl rfl rfl rfl, sound.order, sound.callers⟩
  · rename_i job rest head
    have callers := sound.callers.drop head
    cases job with
    | resume r ok =>
      obtain ⟨moves, order⟩ := resume_sound (sound.order.drop head nofun) r ok
      exact ⟨job_moves moves, order, resume_callers callers r ok⟩
    | react r x =>
      obtain ⟨moves, order⟩ := react_sound sound.order sound.fresh head
      exact ⟨moves, order, react_callers sound.callers sound.order head⟩
    | adopt c =>
      obtain ⟨moves, order⟩ := adopt_sound (sound.order.drop head nofun) c
      exact ⟨job_moves moves, order, adopt_callers callers c⟩
    | changed h ok =>
      have ended := sound.order.queued h ok (head ▸ List.mem_cons_self)
      obtain ⟨moves, order⟩ := changed_sound (sound.order.drop head nofun) h ok ended
      exact ⟨job_moves moves, order, changed_callers callers h ok⟩

theorem act_sound (sound : Sound s) (a : Action) : Moves s (act s a) ∧ Order (act s a) ∧ Callers (act s a) := by
  cases a with
  | get config username checked set =>
    obtain ⟨moves, order⟩ := get_sound sound.order sound.times config username checked set
    exact ⟨moves, order, get_callers sound.callers sound.times sound.fresh config username checked set⟩
  | change config username =>
    obtain ⟨moves, order⟩ := change_sound sound.order sound.times config username
    exact ⟨moves, order, change_callers sound.callers config username⟩
  | answered r ok =>
    obtain ⟨moves, order⟩ := answered_sound sound.order r ok
    exact ⟨moves, order, answered_callers sound.callers r ok⟩
  | ended h ok =>
    obtain ⟨moves, order⟩ := ended_sound sound.order sound.times h ok
    exact ⟨moves, order, ended_callers sound.callers h ok⟩
  | job => exact runJob_sound sound

theorem step_sound (s : State) (a : Action) (sound : Sound s) : Sound (step s a) := by
  obtain ⟨moves, order, callers⟩ := act_sound sound a
  have times := sound.times.moves moves
  have fresh := sound.fresh.moves sound.times moves
  exact ⟨⟨times.runs, times.changes, times.ended, times.resolved⟩, ⟨fresh.cached, fresh.called⟩,
    ⟨order.started, order.unborn, order.pending, order.failed, order.queued⟩, ⟨callers.waiting, callers.queued, callers.answered⟩⟩

theorem reached_sound (actions : List Action) : Sound (Runs.run step {} actions) :=
  Runs.run_invariant step Sound step_sound {} actions
    ⟨⟨nofun, nofun, nofun, nofun⟩, ⟨nofun, nofun⟩, ⟨nofun, by simp, nofun, nofun, by simp⟩, ⟨nofun, by simp, nofun⟩⟩

/-- In every state that is reached: a call that starts after a change of its user has resolved has a run
whose status helper starts after the change's helper has ended, and is answered by no other; the cache
has at most one run of a user and configuration; and no call starts with a run that has been seen to fail. -/
theorem answers_fresh (actions : List Action) :
    (∀ c call h change t, (Runs.run step {} actions).calls c = some call → (Runs.run step {} actions).changes h = some change →
      change.key = call.key → change.resolvedAt = some t → t < c →
      ∃ run e, (Runs.run step {} actions).runs call.run = some run ∧ run.key = call.key ∧
        change.helperEnded = some e ∧ (∀ u, run.statusStarted = some u → e < u) ∧
        ∀ r, call.answer = some r → r = call.run ∧ ∃ ok, run.phase = .settled ok ∧
          (ok = true → configured call.key.offlineMediaStatusCommand = true → run.statusStarted.isSome = true)) ∧
    (∀ key other entry entry' run run', (Runs.run step {} actions).cache key = some entry →
      (Runs.run step {} actions).cache other = some entry' → (Runs.run step {} actions).runs entry.run = some run →
      (Runs.run step {} actions).runs entry'.run = some run' → run.key = run'.key → entry = entry') ∧
    ∀ c call run seen, (Runs.run step {} actions).calls c = some call → (Runs.run step {} actions).runs call.run = some run →
      run.failureSeen = some seen → ¬seen < c := by
  have sound := reached_sound actions
  refine ⟨fun c call h change t at_c at_h same resolved later => ?_, fun key other entry entry' run run' cached cached' at_r at_r' same => ?_,
    fun c call run seen at_c at_r failed => ?_⟩
  · obtain ⟨-, run, at_r, own, -, old⟩ := sound.fresh.called c call at_c
    obtain ⟨-, e, ended, before⟩ := sound.times.resolved h change t at_h resolved
    have younger : t < call.run := old h change t at_h same resolved later
    refine ⟨run, e, at_r, own, ended, fun u status => ?_, fun r answer => ?_⟩
    · have started := (sound.times.runs call.run run at_r).2 u status
      omega
    · obtain ⟨rfl, run', ok, at_r', phase⟩ := sound.callers.answered c call r at_c answer
      obtain rfl := Option.some.inj (at_r.symm.trans at_r')
      have started := sound.order.started call.run run at_r
      rw [SetupRun.Started, phase, own] at started
      exact ⟨rfl, ok, phase, started⟩
  · obtain ⟨found, at_found, own, -⟩ := sound.fresh.cached key entry cached
    obtain ⟨found', at_found', own', -⟩ := sound.fresh.cached other entry' cached'
    obtain rfl := Option.some.inj (at_r.symm.trans at_found)
    obtain rfl := Option.some.inj (at_r'.symm.trans at_found')
    obtain rfl : key = other := own.symm.trans (same.trans own')
    exact Option.some.inj (cached.symm.trans cached')
  · obtain ⟨-, run', at_r', -, seen_after, -⟩ := sound.fresh.called c call at_c
    obtain rfl := Option.some.inj (at_r.symm.trans at_r')
    exact Nat.not_lt.mpr (seen_after seen failed)

end Reached

end NixHomeServer.Homepage.SetupCache
