import NixHomeServer.Library.Runs
import NixHomeServer.Library.Table

/-! The sync lock of one account: a file with the process id of its holder, taken,
judged and removed by processes that interleave at every file-system step. -/
namespace NixHomeServer.MailArchive

open NixHomeServer.Library

/-- A lock file, and the process id that its text gives. -/
structure LockFile where
  inode : Nat
  pid : Option Nat := none
  deriving DecidableEq, Repr

/-- What a caller of `remove_stale_sync_lock` does when that returns. -/
inductive After
  | create | restart | finish
  deriving DecidableEq, Repr

/-- Who asks whether the process id in the lock file is active. -/
inductive Use
  | stale (after : After)
  | taken
  | reconcile
  deriving DecidableEq, Repr

/-- The next file-system step of a process; a judgement remembers the file it read. -/
inductive Pc
  | idle
  | checkExists (after : After)
  | readLock (use : Use)
  | checkProc (use : Use) (seen : Option Nat) (inode : Option Nat)
  | remove (after : After) (inode : Option Nat)
  | create
  | writePid (inode : Nat)
  | holding (inode : Nat)
  deriving DecidableEq, Repr

structure Process where
  pid : Nat
  live : Bool := true
  pc : Pc := .idle
  deriving DecidableEq, Repr

structure LockState where
  file : Option LockFile := none
  nextInode : Nat := 0
  processes : Table Process := .empty

inductive Call
  | acquireAccountLock | reconcileInterruptedSyncs | release
  deriving DecidableEq, Repr

inductive LockEvent
  | spawn (pid : Nat)
  | call (process : Nat) (call : Call)
  | step (process : Nat)
  | die (process : Nat)
  deriving DecidableEq, Repr

def After.pc : After → Pc
  | .create => .create
  | .restart => .checkExists .create
  | .finish => .idle

namespace LockState

/-- The process id has a directory under `/proc`. -/
def procExists (s : LockState) (pid : Nat) : Bool :=
  !(s.processes.select (fun _ p => p.live && p.pid == pid)).isEmpty

def move (s : LockState) (process : Nat) (pc : Pc) : LockState :=
  { s with processes := s.processes.modify process (fun p => { p with pc := pc }) }

end LockState

def lockPidIsActive (s : LockState) : Option Nat → Bool
  | none => false
  | some pid => decide (0 < pid) && s.procExists pid

/-- One file-system step of a process at its place in the program. -/
def stepLock (s : LockState) (i : Nat) (pid : Nat) : Pc → LockState
  | .idle => s
  | .checkExists after =>
    match s.file with
    | none => s.move i after.pc
    | some _ => s.move i (.readLock (.stale after))
  | .readLock use => s.move i (.checkProc use (s.file.bind LockFile.pid) (s.file.map LockFile.inode))
  | .checkProc use seen inode =>
    match use, lockPidIsActive s seen with
    | .stale after, true => s.move i after.pc
    | .stale after, false => s.move i (.remove after inode)
    | .taken, true => s.move i .idle
    | .taken, false => s.move i (.checkExists .restart)
    | .reconcile, true => s.move i .idle
    | .reconcile, false => s.move i (.checkExists .finish)
  | .remove after _ =>
    match s.file with
    | none => s.move i .idle
    | some _ => { s with file := none }.move i after.pc
  | .create =>
    match s.file with
    | none =>
      { s with file := some { inode := s.nextInode }, nextInode := s.nextInode + 1 }.move i
        (.writePid s.nextInode)
    | some _ => s.move i (.readLock .taken)
  | .writePid inode =>
    { s with
      file := s.file.map (fun f : LockFile => if f.inode = inode then { f with pid := some pid } else f) }.move i
      (.holding inode)
  | .holding _ => s

def callLock (s : LockState) (i : Nat) : Call → Pc → LockState
  | .acquireAccountLock, .idle => s.move i (.checkExists .create)
  | .reconcileInterruptedSyncs, .idle => s.move i (.readLock .reconcile)
  | .release, .holding _ => { s with file := none }.move i .idle
  | _, _ => s

/-- One event; a new process has a process id that no live process has. -/
def lockStep (s : LockState) : LockEvent → LockState
  | .spawn pid =>
    if 0 < pid ∧ s.procExists pid = false then
      { s with processes := s.processes.insert { pid := pid } }
    else s
  | .call i call =>
    match s.processes.get i with
    | some p => if p.live then callLock s i call p.pc else s
    | none => s
  | .step i =>
    match s.processes.get i with
    | some p => if p.live then stepLock s i p.pid p.pc else s
    | none => s
  | .die i => { s with processes := s.processes.modify i (fun p => { p with live := false }) }

/-- Some live process has made the file and not yet written its process id into it. -/
def unwritten (s : LockState) (inode : Nat) : Bool :=
  !(s.processes.select (fun _ p => p.live && decide (p.pc = .writePid inode))).isEmpty

/-- The step reads no file that its maker is about to write, and removes no file but the one it read. -/
def Orderly (s : LockState) : LockEvent → Prop
  | .step i =>
    match s.processes.get i with
    | some { live := true, pc := .readLock _, .. } => ∀ f ∈ s.file, unwritten s f.inode = false
    | some { live := true, pc := .remove _ inode, .. } => ∀ f ∈ s.file, inode = some f.inode
    | _ => True
  | _ => True

instance (s : LockState) (event : LockEvent) : Decidable (Orderly s event) := by
  unfold Orderly
  split
  · split <;> infer_instance
  · infer_instance

section Ownership

variable {s : LockState} {i j : Nat}

/-- A live process that made the lock file and has not given it back. -/
def Owner (s : LockState) (i : Nat) (p : Process) (k : Nat) : Prop :=
  s.processes.get i = some p ∧ p.live = true ∧ (p.pc = .writePid k ∨ p.pc = .holding k)

structure LockOk (s : LockState) : Prop where
  positive : ∀ i p, s.processes.get i = some p → 0 < p.pid
  fresh_file : ∀ f, s.file = some f → f.inode < s.nextInode
  fresh_owner : ∀ i p k, Owner s i p k → k < s.nextInode
  written : ∀ i p k, Owner s i p k → ∃ f, s.file = some f ∧ f.inode = k ∧
    (f.pid = none ∧ p.pc = .writePid k ∨ f.pid = some p.pid)
  unique : ∀ i p j q k, Owner s i p k → Owner s j q k → i = j
  judged : ∀ i p use seen k, s.processes.get i = some p → p.pc = .checkProc use seen (some k) →
    k < s.nextInode ∧ ∀ j q, Owner s j q k → seen = some q.pid
  doomed : ∀ i p after k, s.processes.get i = some p → p.pc = .remove after (some k) →
    k < s.nextInode ∧ ∀ j q, ¬Owner s j q k

/-- A process that is not the owner of anything at its new place. -/
def Pc.Free : Pc → Prop
  | .writePid _ | .holding _ => False
  | _ => True

theorem move_get (pc : Pc) (x : Nat) (p : Process) (found : (s.move i pc).processes.get x = some p) :
    ∃ old, s.processes.get x = some old ∧ p.pid = old.pid ∧ p.live = old.live ∧
      (x = i ∧ p.pc = pc ∨ x ≠ i ∧ p = old) := by
  obtain ⟨old, was, rfl⟩ := Table.get_modify_cases _ _ _ _ _ found
  refine ⟨old, was, ?_⟩
  by_cases same : x = i
  · rw [if_pos same]
    exact ⟨rfl, rfl, Or.inl ⟨same, rfl⟩⟩
  · rw [if_neg same]
    exact ⟨rfl, rfl, Or.inr ⟨same, rfl⟩⟩

theorem owner_move {pc : Pc} {x k : Nat} {p : Process} (owner : Owner (s.move i pc) x p k) :
    (x = i ∧ (pc = .writePid k ∨ pc = .holding k)) ∨ (x ≠ i ∧ Owner s x p k) := by
  obtain ⟨found, live, place⟩ := owner
  obtain ⟨old, was, _, _, ⟨same, there⟩ | ⟨other, rfl⟩⟩ := move_get pc x p found
  · rw [there] at place
    exact Or.inl ⟨same, place⟩
  · exact Or.inr ⟨other, was, live, place⟩

/-- A step that leaves the lock file alone and takes its process to a free place. -/
theorem LockOk.move (ok : LockOk s) (pc : Pc) (free : pc.Free)
    (judged : ∀ use seen k, pc = .checkProc use seen (some k) →
      k < s.nextInode ∧ ∀ j q, Owner s j q k → seen = some q.pid)
    (doomed : ∀ after k, pc = .remove after (some k) → k < s.nextInode ∧ ∀ j q, ¬Owner s j q k) :
    LockOk (s.move i pc) := by
  have owners : ∀ x p k, Owner (s.move i pc) x p k → Owner s x p k := by
    intro x p k owner
    rcases owner_move owner with ⟨_, rfl | rfl⟩ | ⟨_, before⟩
    · exact free.elim
    · exact free.elim
    · exact before
  constructor
  · intro x p found
    obtain ⟨old, was, same, _⟩ := move_get pc x p found
    rw [same]
    exact ok.positive x old was
  · exact ok.fresh_file
  · exact fun x p k owner => ok.fresh_owner x p k (owners x p k owner)
  · exact fun x p k owner => ok.written x p k (owners x p k owner)
  · exact fun x p y q k first second => ok.unique x p y q k (owners x p k first) (owners y q k second)
  · intro x p use seen k found place
    obtain ⟨old, was, _, _, ⟨same, there⟩ | ⟨other, rfl⟩⟩ := move_get pc x p found
    · obtain ⟨bound, all⟩ := judged use seen k (there.symm.trans place)
      exact ⟨bound, fun j q owner => all j q (owners j q k owner)⟩
    · obtain ⟨bound, all⟩ := ok.judged x p use seen k was place
      exact ⟨bound, fun j q owner => all j q (owners j q k owner)⟩
  · intro x p after k found place
    obtain ⟨old, was, _, _, ⟨same, there⟩ | ⟨other, rfl⟩⟩ := move_get pc x p found
    · obtain ⟨bound, all⟩ := doomed after k (there.symm.trans place)
      exact ⟨bound, fun j q owner => all j q (owners j q k owner)⟩
    · obtain ⟨bound, all⟩ := ok.doomed x p after k was place
      exact ⟨bound, fun j q owner => all j q (owners j q k owner)⟩

theorem LockOk.move_plain (ok : LockOk s) (pc : Pc)
    (plain : pc = .idle ∨ (∃ after, pc = .checkExists after) ∨ (∃ use, pc = .readLock use) ∨ pc = .create) :
    LockOk (s.move i pc) := by
  rcases plain with rfl | ⟨after, rfl⟩ | ⟨use, rfl⟩ | rfl <;>
    exact ok.move _ trivial (fun _ _ _ impossible => by cases impossible)
      (fun _ _ impossible => by cases impossible)

theorem LockOk.move_after (ok : LockOk s) (after : After) : LockOk (s.move i after.pc) := by
  cases after with
  | create => exact ok.move_plain _ (Or.inr (Or.inr (Or.inr rfl)))
  | restart => exact ok.move_plain _ (Or.inr (Or.inl ⟨_, rfl⟩))
  | finish => exact ok.move_plain _ (Or.inl rfl)

/-- The lock file goes while nobody owns it. -/
theorem LockOk.unlink (ok : LockOk s) (unowned : ∀ j q k, ¬Owner s j q k) :
    LockOk { s with file := none } where
  positive := ok.positive
  fresh_file _ impossible := by cases impossible
  fresh_owner := ok.fresh_owner
  written i p k owner := absurd owner (unowned i p k)
  unique := ok.unique
  judged := ok.judged
  doomed := ok.doomed

theorem procExists_of_live {p : Process} (found : s.processes.get i = some p) (live : p.live = true) :
    s.procExists p.pid = true := by
  unfold LockState.procExists
  cases none : (s.processes.select fun _ q => q.live && q.pid == p.pid).isEmpty with
  | false => rfl
  | true =>
    have all := (Table.select_eq_nil _ _).mp (List.isEmpty_iff.mp none) i p found
    simp only [live, BEq.rfl, Bool.and_self, Bool.true_eq_false] at all

theorem unwritten_of_owner {p : Process} {k : Nat} (found : s.processes.get i = some p)
    (live : p.live = true) (place : p.pc = .writePid k) : unwritten s k = true := by
  unfold unwritten
  cases none : (s.processes.select fun _ q => q.live && decide (q.pc = .writePid k)).isEmpty with
  | false => rfl
  | true =>
    have all := (Table.select_eq_nil _ _).mp (List.isEmpty_iff.mp none) i p found
    simp only [live, place, decide_true, Bool.and_self, Bool.true_eq_false] at all

/-- A file that was read with its process id tells who may own it. -/
theorem LockOk.read (ok : LockOk s) (use : Use) (orderly : ∀ f ∈ s.file, unwritten s f.inode = false) :
    LockOk (s.move i (.checkProc use (s.file.bind LockFile.pid) (s.file.map LockFile.inode))) := by
  apply ok.move
  · trivial
  · intro use' seen k same
    cases same_file : s.file with
    | none =>
      rw [same_file] at same
      cases same
    | some f =>
      rw [same_file] at same
      cases same
      refine ⟨ok.fresh_file f same_file, ?_⟩
      intro j q owner
      obtain ⟨g, there, _, content⟩ := ok.written j q _ owner
      rw [same_file] at there
      cases there
      rcases content with ⟨_, writing⟩ | known
      · have pending := unwritten_of_owner owner.1 owner.2.1 writing
        rw [orderly f same_file] at pending
        cases pending
      · exact known
  · exact fun _ _ impossible => by cases impossible

/-- A process id that is not active tells that the file that gave it has no owner. -/
theorem LockOk.doom (ok : LockOk s) (after : After) {p : Process} {use : Use} {seen inode : Option Nat}
    (found : s.processes.get i = some p) (place : p.pc = .checkProc use seen inode)
    (stale : lockPidIsActive s seen = false) : LockOk (s.move i (.remove after inode)) := by
  apply ok.move
  · trivial
  · exact fun _ _ _ impossible => by cases impossible
  · intro after' k same
    cases same
    obtain ⟨bound, all⟩ := ok.judged i p use seen k found place
    refine ⟨bound, ?_⟩
    intro j q owner
    rw [all j q owner] at stale
    simp only [lockPidIsActive, procExists_of_live owner.1 owner.2.1, Bool.and_true, decide_eq_false_iff_not]
      at stale
    exact stale (ok.positive j q owner.1)

/-- A new file is made where there is none, and nobody owns it yet. -/
theorem LockOk.make (ok : LockOk s) (free : s.file = none) :
    LockOk { s with file := some { inode := s.nextInode }, nextInode := s.nextInode + 1 } ∧
      ∀ j q k, ¬Owner s j q k := by
  have unowned : ∀ j q k, ¬Owner s j q k := by
    intro j q k owner
    obtain ⟨f, there, _⟩ := ok.written j q k owner
    rw [free] at there
    cases there
  refine ⟨?_, unowned⟩
  constructor
  · exact ok.positive
  · rintro f ⟨⟩
    exact Nat.lt_succ_self _
  · exact fun x q k owner => absurd owner (unowned x q k)
  · exact fun x q k owner => absurd owner (unowned x q k)
  · exact fun x q y r k owner _ => absurd owner (unowned x q k)
  · intro x q use seen k there place
    obtain ⟨bound, all⟩ := ok.judged x q use seen k there place
    exact ⟨Nat.lt_succ_of_lt bound, all⟩
  · intro x q after k there place
    obtain ⟨bound, all⟩ := ok.doomed x q after k there place
    exact ⟨Nat.lt_succ_of_lt bound, all⟩

/-- A process comes to own a file, or stays its owner on the way from making it to holding it. -/
theorem LockOk.own (ok : LockOk s) {k : Nat} {f : LockFile} (there : s.file = some f) (same : f.inode = k)
    (pc : Pc) (place : pc = .writePid k ∨ pc = .holding k)
    (content : ∀ p, s.processes.get i = some p → f.pid = none ∧ pc = .writePid k ∨ f.pid = some p.pid)
    (only : ∀ j q k', Owner s j q k' → j = i)
    (judged : ∀ j p use seen, s.processes.get j = some p → p.pc = .checkProc use seen (some k) →
      ∀ q, s.processes.get i = some q → seen = some q.pid)
    (spared : ∀ j p after, s.processes.get j = some p → p.pc ≠ .remove after (some k)) :
    LockOk (s.move i pc) := by
  have owners : ∀ x q k', Owner (s.move i pc) x q k' → x = i ∧ k' = k ∧
      ∃ old, s.processes.get i = some old ∧ q.pid = old.pid ∧ q.pc = pc := by
    intro x q k' owner
    rcases owner_move owner with ⟨here, held⟩ | ⟨other, before⟩
    · obtain ⟨old, was, pid, _, ⟨_, new⟩ | ⟨other, _⟩⟩ := move_get _ x q owner.1
      · have inode : k' = k := by
          rcases place with rfl | rfl <;> rcases held with held | held <;> cases held <;> rfl
        rw [here] at was
        exact ⟨here, inode, old, was, pid, new⟩
      · exact absurd here other
    · exact absurd (only x q k' before) other
  constructor
  · intro x q found
    obtain ⟨old, was, pid, _⟩ := move_get _ x q found
    rw [pid]
    exact ok.positive x old was
  · exact ok.fresh_file
  · intro x q k' owner
    rw [(owners x q k' owner).2.1, ← same]
    exact ok.fresh_file f there
  · intro x q k' owner
    obtain ⟨_, inode, old, was, pid, new⟩ := owners x q k' owner
    refine ⟨f, there, same.trans inode.symm, ?_⟩
    rw [pid, new, inode]
    exact content old was
  · intro x q y r k' first second
    rw [(owners x q k' first).1, (owners y r k' second).1]
  · intro x q use seen k' found judging
    obtain ⟨old, was, _, _, ⟨_, new⟩ | ⟨_, rfl⟩⟩ := move_get _ x q found
    · rw [new] at judging
      rcases place with rfl | rfl <;> cases judging
    · refine ⟨(ok.judged x q use seen k' was judging).1, ?_⟩
      intro j r owner
      obtain ⟨_, inode, old, was', pid, _⟩ := owners j r k' owner
      rw [inode] at judging
      rw [pid]
      exact judged x q use seen was judging old was'
  · intro x q after k' found removing
    obtain ⟨old, was, _, _, ⟨_, new⟩ | ⟨_, rfl⟩⟩ := move_get _ x q found
    · rw [new] at removing
      rcases place with rfl | rfl <;> cases removing
    · refine ⟨(ok.doomed x q after k' was removing).1, ?_⟩
      intro j r owner
      rw [(owners j r k' owner).2.1] at removing
      exact spared x q after was removing

theorem LockOk.create (ok : LockOk s) (free : s.file = none) :
    LockOk ({ s with file := some { inode := s.nextInode }, nextInode := s.nextInode + 1 }.move i
      (.writePid s.nextInode)) := by
  obtain ⟨made, unowned⟩ := ok.make free
  apply made.own rfl rfl _ (Or.inl rfl)
  · exact fun _ _ => Or.inl ⟨rfl, rfl⟩
  · exact fun j q k owner => absurd owner (unowned j q k)
  · intro j p use seen found judging
    exact absurd (ok.judged j p use seen _ found judging).1 (Nat.lt_irrefl _)
  · intro j p after found removing
    exact absurd (ok.doomed j p after _ found removing).1 (Nat.lt_irrefl _)

theorem LockOk.write (ok : LockOk s) {p : Process} {k : Nat} (found : s.processes.get i = some p)
    (live : p.live = true) (place : p.pc = .writePid k) :
    LockOk ({ s with file := s.file.map (fun f : LockFile =>
      if f.inode = k then { f with pid := some p.pid } else f) }.move i (.holding k)) := by
  have mine : Owner s i p k := ⟨found, live, Or.inl place⟩
  obtain ⟨f, there, same, _⟩ := ok.written i p k mine
  have only : ∀ j q k', Owner s j q k' → j = i := by
    intro j q k' owner
    obtain ⟨g, there', same', _⟩ := ok.written j q k' owner
    rw [there] at there'
    cases there'
    rw [← same', same] at owner
    exact ok.unique j q i p k owner mine
  have file : (s.file.map fun f : LockFile => if f.inode = k then { f with pid := some p.pid } else f) =
      some { f with pid := some p.pid } := by
    rw [there, Option.map_some, if_pos same]
  rw [file]
  have written : LockOk { s with file := some { f with pid := some p.pid } } := by
    constructor
    · exact ok.positive
    · rintro g ⟨⟩
      exact ok.fresh_file f there
    · exact ok.fresh_owner
    · intro j q k' owner
      obtain rfl := only j q k' owner
      obtain ⟨g, there', same', _⟩ := ok.written j q k' owner
      rw [there] at there'
      cases there'
      have process := owner.1
      rw [show s.processes.get j = some p from found] at process
      cases process
      exact ⟨_, rfl, same', Or.inr rfl⟩
    · exact ok.unique
    · exact ok.judged
    · exact ok.doomed
  apply written.own rfl same _ (Or.inr rfl)
  · intro q process
    rw [show s.processes.get i = some p from found] at process
    cases process
    exact Or.inr rfl
  · exact only
  · intro j q use seen process judging r process'
    rw [show s.processes.get i = some p from found] at process'
    cases process'
    exact (ok.judged j q use seen k process judging).2 i p mine
  · intro j q after process removing
    exact (ok.doomed j q after k process removing).2 i p mine

/-- The owner gives the lock back. -/
theorem LockOk.release (ok : LockOk s) {p : Process} {k : Nat} (found : s.processes.get i = some p)
    (live : p.live = true) (place : p.pc = .holding k) : LockOk ({ s with file := none }.move i .idle) := by
  have mine : Owner s i p k := ⟨found, live, Or.inr place⟩
  obtain ⟨f, there, same, _⟩ := ok.written i p k mine
  have left : LockOk (s.move i .idle) := ok.move_plain .idle (Or.inl rfl)
  have unowned : ∀ j q k', ¬Owner (s.move i .idle) j q k' := by
    intro j q k' owner
    rcases owner_move owner with ⟨_, impossible | impossible⟩ | ⟨other, before⟩
    · cases impossible
    · cases impossible
    · obtain ⟨g, there', same', _⟩ := ok.written j q k' before
      rw [there] at there'
      cases there'
      rw [← same', same] at before
      exact other (ok.unique j q i p k before mine)
  exact left.unlink unowned

theorem stepLock_ok (ok : LockOk s) {p : Process} (found : s.processes.get i = some p)
    (live : p.live = true) (orderly : Orderly s (.step i)) : LockOk (stepLock s i p.pid p.pc) := by
  obtain ⟨pid, alive, pc⟩ := p
  cases live
  simp only [Orderly, found] at orderly
  cases pc with
  | idle => exact ok
  | holding inode => exact ok
  | checkExists after =>
    simp only [stepLock]
    cases s.file with
    | none => exact ok.move_after after
    | some _ => exact ok.move_plain _ (Or.inr (Or.inr (Or.inl ⟨_, rfl⟩)))
  | readLock use => exact ok.read use orderly
  | checkProc use seen inode =>
    simp only [stepLock]
    cases active : lockPidIsActive s seen with
    | true =>
      cases use with
      | stale after => exact ok.move_after after
      | taken | reconcile => exact ok.move_plain _ (Or.inl rfl)
    | false =>
      cases use with
      | stale after => exact ok.doom after found rfl active
      | taken | reconcile => exact ok.move_plain _ (Or.inr (Or.inl ⟨_, rfl⟩))
  | remove after inode =>
    simp only [stepLock]
    cases there : s.file with
    | none => exact ok.move_plain _ (Or.inl rfl)
    | some f =>
      have same := orderly f there
      obtain ⟨_, unowned⟩ := ok.doomed i _ after f.inode found (by rw [← same])
      have gone : LockOk { s with file := none } := by
        apply ok.unlink
        intro j q k owner
        obtain ⟨g, there', inode, _⟩ := ok.written j q k owner
        rw [there] at there'
        cases there'
        rw [← inode] at owner
        exact unowned j q owner
      exact gone.move_after after
  | create =>
    simp only [stepLock]
    cases free : s.file with
    | none => exact ok.create free
    | some _ => exact ok.move_plain _ (Or.inr (Or.inr (Or.inl ⟨_, rfl⟩)))
  | writePid inode => exact ok.write found rfl rfl

theorem callLock_ok (ok : LockOk s) {p : Process} (found : s.processes.get i = some p)
    (live : p.live = true) (call : Call) : LockOk (callLock s i call p.pc) := by
  obtain ⟨pid, alive, pc⟩ := p
  cases live
  cases call with
  | acquireAccountLock =>
    cases pc with
    | idle => exact ok.move_plain _ (Or.inr (Or.inl ⟨_, rfl⟩))
    | _ => exact ok
  | reconcileInterruptedSyncs =>
    cases pc with
    | idle => exact ok.move_plain _ (Or.inr (Or.inr (Or.inl ⟨_, rfl⟩)))
    | _ => exact ok
  | release =>
    cases pc with
    | holding inode => exact ok.release found rfl rfl
    | _ => exact ok

theorem LockOk.spawn (ok : LockOk s) {pid : Nat} (positive : 0 < pid) :
    LockOk { s with processes := s.processes.insert { pid := pid } } := by
  have owners : ∀ x q k, Owner { s with processes := s.processes.insert { pid := pid } } x q k →
      Owner s x q k := by
    rintro x q k ⟨found, live, place⟩
    rcases Table.get_insert_cases _ _ _ _ found with old | ⟨_, rfl⟩
    · exact ⟨old, live, place⟩
    · rcases place with impossible | impossible <;> cases impossible
  constructor
  · intro x q found
    rcases Table.get_insert_cases _ _ _ _ found with old | ⟨_, rfl⟩
    · exact ok.positive x q old
    · exact positive
  · exact ok.fresh_file
  · exact fun x q k owner => ok.fresh_owner x q k (owners x q k owner)
  · exact fun x q k owner => ok.written x q k (owners x q k owner)
  · exact fun x q y r k first second => ok.unique x q y r k (owners x q k first) (owners y r k second)
  · intro x q use seen k found judging
    rcases Table.get_insert_cases _ _ _ _ found with old | ⟨_, rfl⟩
    · obtain ⟨bound, all⟩ := ok.judged x q use seen k old judging
      exact ⟨bound, fun j r owner => all j r (owners j r k owner)⟩
    · cases judging
  · intro x q after k found removing
    rcases Table.get_insert_cases _ _ _ _ found with old | ⟨_, rfl⟩
    · obtain ⟨bound, all⟩ := ok.doomed x q after k old removing
      exact ⟨bound, fun j r owner => all j r (owners j r k owner)⟩
    · cases removing

theorem LockOk.die (ok : LockOk s) :
    LockOk { s with processes := s.processes.modify i (fun p => { p with live := false }) } := by
  have before : ∀ x q, (s.processes.modify i (fun p => { p with live := false })).get x = some q →
      ∃ old, s.processes.get x = some old ∧ q.pid = old.pid ∧ q.pc = old.pc ∧
        (q.live = true → q = old) := by
    intro x q found
    obtain ⟨old, was, rfl⟩ := Table.get_modify_cases _ _ _ _ _ found
    refine ⟨old, was, ?_⟩
    split
    · exact ⟨rfl, rfl, fun impossible => by cases impossible⟩
    · exact ⟨rfl, rfl, fun _ => rfl⟩
  have owners : ∀ x q k, Owner { s with
      processes := s.processes.modify i (fun p => { p with live := false }) } x q k → Owner s x q k := by
    rintro x q k ⟨found, live, place⟩
    obtain ⟨old, was, _, _, same⟩ := before x q found
    have equal := same live
    subst equal
    exact ⟨was, live, place⟩
  constructor
  · intro x q found
    obtain ⟨old, was, pid, _⟩ := before x q found
    rw [pid]
    exact ok.positive x old was
  · exact ok.fresh_file
  · exact fun x q k owner => ok.fresh_owner x q k (owners x q k owner)
  · exact fun x q k owner => ok.written x q k (owners x q k owner)
  · exact fun x q y r k first second => ok.unique x q y r k (owners x q k first) (owners y r k second)
  · intro x q use seen k found judging
    obtain ⟨old, was, _, pc, _⟩ := before x q found
    obtain ⟨bound, all⟩ := ok.judged x old use seen k was (pc.symm.trans judging)
    exact ⟨bound, fun j r owner => all j r (owners j r k owner)⟩
  · intro x q after k found removing
    obtain ⟨old, was, _, pc, _⟩ := before x q found
    obtain ⟨bound, all⟩ := ok.doomed x old after k was (pc.symm.trans removing)
    exact ⟨bound, fun j r owner => all j r (owners j r k owner)⟩

theorem lockStep_ok (s : LockState) (event : LockEvent) (orderly : Orderly s event) (ok : LockOk s) :
    LockOk (lockStep s event) := by
  cases event with
  | call i call =>
    simp only [lockStep]
    cases found : s.processes.get i with
    | none => exact ok
    | some p =>
      simp only
      split
      · rename_i live
        exact callLock_ok ok found live call
      · exact ok
  | step i =>
    simp only [lockStep]
    cases found : s.processes.get i with
    | none => exact ok
    | some p =>
      simp only
      split
      · rename_i live
        exact stepLock_ok ok found live orderly
      · exact ok
  | spawn pid =>
    simp only [lockStep]
    split
    · rename_i fresh
      exact ok.spawn fresh.1
    · exact ok
  | die i => exact ok.die

/-- A process holds the lock of the account. -/
def Holds (s : LockState) (i : Nat) : Prop :=
  ∃ p k, s.processes.get i = some p ∧ p.live = true ∧ p.pc = .holding k

/-- In a run that reads no file about to be written and removes no file but the one that was read,
at most one live process holds the lock, and its file is there. -/
theorem one_holder (events : List LockEvent) (orderly : Runs.Along lockStep Orderly {} events) :
    (∀ i j, Holds (Runs.run lockStep {} events) i → Holds (Runs.run lockStep {} events) j → i = j) ∧
      ∀ i p k, Owner (Runs.run lockStep {} events) i p k →
        ∃ f, (Runs.run lockStep {} events).file = some f ∧ f.inode = k := by
  have ok : LockOk (Runs.run lockStep {} events) := by
    apply Runs.run_invariant_along lockStep Orderly LockOk lockStep_ok {} events orderly
    constructor <;> intros <;> simp_all [Owner]
  constructor
  · rintro i j ⟨p, k, found, live, holding⟩ ⟨q, k', found', live', holding'⟩
    have first : Owner _ i p k := ⟨found, live, Or.inr holding⟩
    have second : Owner _ j q k' := ⟨found', live', Or.inr holding'⟩
    obtain ⟨f, there, same, _⟩ := ok.written i p k first
    obtain ⟨g, there', same', _⟩ := ok.written j q k' second
    rw [there] at there'
    cases there'
    rw [← same] at first
    rw [← same'] at second
    exact ok.unique i p j q f.inode first second
  · intro i p k owner
    obtain ⟨f, there, same, _⟩ := ok.written i p k owner
    exact ⟨f, there, same⟩

/-- A process takes over the lock of one that died while it held it, and gives it back. -/
def takeover : List LockEvent :=
  [.spawn 7, .call 1 .acquireAccountLock, .step 1, .step 1, .step 1, .die 1,
    .spawn 8, .call 2 .acquireAccountLock, .step 2, .step 2, .step 2, .step 2, .step 2, .step 2,
    .spawn 9, .call 3 .reconcileInterruptedSyncs, .step 3, .step 3]

theorem takeover_has_one_holder :
    Holds (Runs.run lockStep {} takeover) 2 ∧
      ∀ i j, Holds (Runs.run lockStep {} takeover) i → Holds (Runs.run lockStep {} takeover) j → i = j :=
  ⟨⟨{ pid := 8, pc := .holding 1 }, 1, by decide, rfl, rfl⟩, (one_holder takeover (by decide)).1⟩

/-- A second process takes the file that a first has made and not written for a stale one. -/
def raced : List LockEvent :=
  [.spawn 7, .spawn 8, .call 1 .acquireAccountLock, .call 2 .acquireAccountLock, .step 1, .step 1,
    .step 2, .step 2, .step 2, .step 2, .step 2, .step 2, .step 1]

theorem raced_has_two_holders :
    Holds (Runs.run lockStep {} raced) 1 ∧ Holds (Runs.run lockStep {} raced) 2 :=
  ⟨⟨{ pid := 7, pc := .holding 0 }, 0, by decide, rfl, rfl⟩,
    ⟨{ pid := 8, pc := .holding 1 }, 1, by decide, rfl, rfl⟩⟩

end Ownership

end NixHomeServer.MailArchive
