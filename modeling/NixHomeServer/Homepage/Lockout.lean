import NixHomeServer.Homepage.Genuine

/-! How many guesses the counters of failed attempts let through. -/
namespace NixHomeServer.Homepage

open NixHomeServer.Library

/-- The local parts that `normaliseUsername` lets through. -/
def isUsername (name : String) : Bool :=
  match name.toList with
  | [] => false
  | first :: rest => ('a' ≤ first && first ≤ 'z') && decide (rest.length ≤ 63) && rest.all fun c =>
      ('a' ≤ c && c ≤ 'z') || ('0' ≤ c && c ≤ '9') || c == '.' || c == '_' || c == '-'

/-- Whose failures are counted: a user's at one address, or at all of them. -/
inductive Subject
  | pair (username address : String)
  | user (username : String)
  deriving DecidableEq, Repr

namespace Subject

def username : Subject → String
  | pair username _ => username
  | user username => username

def covers : Subject → String → String → Bool
  | pair username address, u, a => u == username && a == address
  | user username, u, _ => u == username

/-- The key that the failures of a user at an address are counted under. -/
def keyOf : Subject → String → String → String
  | pair _ _, username, address => remoteAttemptKey username address
  | user _, username, _ => username

def key : Subject → String
  | pair username address => remoteAttemptKey username address
  | user username => username

def limit : Subject → Nat
  | pair _ _ => maxFailedAttempts
  | user _ => maxFailedAttemptsPerUser

def attempts : Subject → Vault → Attempts
  | pair _ _, v => v.remoteAttempts
  | user _, v => v.userAttempts

def state (σ : Subject) (v : Vault) : Option LoginAttemptState := σ.attempts v σ.key

def lockedUntil (σ : Subject) (v : Vault) : Int := ((σ.state v).map LoginAttemptState.lockedUntil).getD 0

def failures (σ : Subject) (v : Vault) : Nat := ((σ.state v).map LoginAttemptState.failures).getD 0

/-- The lock is running. -/
def Locked (σ : Subject) (v : Vault) : Prop := v.now < σ.lockedUntil v

instance (σ : Subject) (v : Vault) : Decidable (σ.Locked v) := inferInstanceAs (Decidable (_ < _))

/-- A credential was sent for the subject and Kanidm denied it. -/
def denies (σ : Subject) : Act → Bool
  | .refused username address => σ.covers username address
  | _ => false

/-- A request for the subject reaches Kanidm. -/
def posts (σ : Subject) : Act → Bool
  | .posted username address _ => σ.covers username address
  | _ => false

def succeeds (σ : Subject) : Act → Bool
  | .unlocked username address => σ.covers username address
  | _ => false

end Subject

/-- What a step adds to the record. -/
def Vault.news (v : Vault) (event : Event) : List Act :=
  ((v.step event).log.drop v.log.length).map Entry.act

/-- A vault with the number of credentials of one subject that were denied since its last success,
the end of its last lock or its last idle period. -/
structure Watch where
  vault : Vault := {}
  denied : Nat := 0
  lastDenied : Int := 0

def Watch.step (σ : Subject) (w : Watch) (event : Event) : Watch :=
  let vault := w.vault.step event
  let news := w.vault.news event
  let expired := σ.Locked w.vault ∧ σ.lockedUntil w.vault ≤ vault.now
  let idle := vault.now - w.lastDenied > lockoutStateTtlMs
  let kept := if news.any σ.succeeds ∨ expired ∨ idle then 0 else w.denied
  { vault := vault
    denied := kept + news.countP σ.denies
    lastDenied := if news.any σ.denies then vault.now else w.lastDenied }

/-- The lockout holds over a step: no more than the limit were denied, nothing is sent while the lock
is running, and only a success shortens it. -/
structure Watch.Holds (σ : Subject) (w : Watch) (event : Event) : Prop where
  bounded : (w.step σ event).denied ≤ σ.limit
  shut : σ.Locked w.vault → (w.vault.news event).any σ.posts = false
  kept : σ.Locked w.vault → (w.vault.news event).any σ.succeeds = false →
    σ.lockedUntil w.vault ≤ σ.lockedUntil (w.step σ event).vault

/-- What the callers and the clock promise. -/
def Event.Promised (w : Watch) : Event → Prop
  | .unlock username _ _ => isUsername username = true
  | .clock now => w.vault.now ≤ now
  | _ => True

instance (w : Watch) (event : Event) : Decidable (event.Promised w) := by
  cases event <;> simp only [Event.Promised] <;> infer_instance

/-- An attempt still waits for Kanidm. -/
def Flight.waits (f : Flight) : Bool := f.phase != .finished && f.phase != .revoking

/-- No attempt of the subject goes on while the lock is running. -/
def Watch.Calm (σ : Subject) (w : Watch) : Event → Prop
  | .answer i _ _ => ∀ f ∈ w.vault.flights[i]?, f.waits = true → σ.covers f.username f.address = true →
      ¬σ.Locked w.vault
  | _ => True

instance (σ : Subject) (w : Watch) (event : Event) : Decidable (w.Calm σ event) := by
  cases event <;> simp only [Watch.Calm] <;> infer_instance

section Keys

theorem bar_notMem_username {name : String} (valid : isUsername name = true) : '|' ∉ name.toList := by
  unfold isUsername at valid
  cases chars : name.toList with
  | nil => exact List.not_mem_nil
  | cons first rest =>
    rw [chars] at valid
    simp only [Bool.and_eq_true, List.all_eq_true] at valid
    intro member
    cases member with
    | head => exact absurd valid.1.1 (by decide)
    | tail _ later => exact absurd (valid.2 '|' later) (by decide)

theorem remoteAttemptKey_inj {u u' a a' : String} (valid : isUsername u = true) (valid' : isUsername u' = true)
    (same : remoteAttemptKey u a = remoteAttemptKey u' a') : u = u' ∧ a = a' := by
  have chars := congrArg String.toList same
  simp only [remoteAttemptKey, String.toList_append, List.append_assoc] at chars
  have bar : "|".toList = ['|'] := rfl
  rw [bar, List.singleton_append, List.singleton_append] at chars
  have users := congrArg (List.takeWhile (· != '|')) chars
  have plain : ∀ {name : String}, isUsername name = true → ∀ rest : List Char,
      (name.toList ++ '|' :: rest).takeWhile (· != '|') = name.toList := by
    intro name ok rest
    have before : ∀ c ∈ name.toList, (c != '|') = true := fun c member =>
      bne_iff_ne.mpr fun is => bar_notMem_username ok (Eq.subst is member)
    rw [List.takeWhile_append_of_pos before]
    exact List.append_nil _
  rw [plain valid, plain valid'] at users
  rw [users] at chars
  have rest := List.append_cancel_left chars
  exact ⟨String.toList_injective users, String.toList_injective (List.cons.inj rest).2⟩

/-- Under a subject's key only its own failures are counted. -/
theorem Subject.covers_of_key {σ : Subject} {u a : String} (owner : isUsername σ.username = true)
    (valid : isUsername u = true) (same : σ.keyOf u a = σ.key) : σ.covers u a = true := by
  cases σ with
  | pair username address =>
    obtain ⟨rfl, rfl⟩ := remoteAttemptKey_inj valid owner same
    simp only [covers, beq_self_eq_true, Bool.and_true]
  | user username => exact beq_iff_eq.mpr same

theorem Subject.key_of_covers {σ : Subject} {u a : String} (covered : σ.covers u a = true) :
    σ.keyOf u a = σ.key := by
  cases σ with
  | pair username address =>
    simp only [covers, Bool.and_eq_true, beq_iff_eq] at covered
    rw [keyOf, key, covered.1, covered.2]
  | user username => exact beq_iff_eq.mp covered

end Keys

section Counters

variable {now : Int}

/-- The state after one more failure. -/
def failed (old : Option LoginAttemptState) (threshold : Nat) (now : Int) : LoginAttemptState :=
  let state := old.getD ⟨0, 0, now⟩
  if state.failures + 1 ≥ threshold then ⟨0, now + lockoutDurationMs, now⟩
  else ⟨state.failures + 1, state.lockedUntil, now⟩

/-- A state is left alone or, where it is old and its lock is over, forgotten. -/
inductive Settles (now : Int) (old : Option LoginAttemptState) : Option LoginAttemptState → Prop
  | same : Settles now old old
  | forgotten (state : LoginAttemptState) (was : old = some state) (spent : state.lockedUntil ≤ now)
      (stale : now - state.updatedAt > lockoutStateTtlMs) : Settles now old none

theorem Settles.cases {old new : Option LoginAttemptState} (settles : Settles now old new) :
    new = old ∨ (new = none ∧ ∃ state, old = some state ∧ state.lockedUntil ≤ now ∧
      now - state.updatedAt > lockoutStateTtlMs) := by
  cases settles with
  | same => exact Or.inl rfl
  | forgotten state was spent stale => exact Or.inr ⟨rfl, state, was, spent, stale⟩

theorem bump_self (attempts : Attempts) (key : String) (threshold : Nat) (now : Int) :
    bump attempts key threshold now key = some (failed (attempts key) threshold now) :=
  Function.update_self key _ attempts

theorem bump_other (attempts : Attempts) {key other : String} (apart : key ≠ other) (threshold : Nat) (now : Int) :
    bump attempts key threshold now other = attempts other :=
  Function.update_of_ne (Ne.symm apart) _ attempts

theorem remainingLockMs_settles (attempts : Attempts) (key watched : String) (now : Int) :
    Settles now (attempts watched) ((remainingLockMs attempts key now).1 watched) := by
  unfold remainingLockMs
  split
  · exact .same
  · rename_i state found
    split
    · exact .same
    · rename_i spent
      split
      · rename_i stale
        by_cases same : watched = key
        · subst same
          have gone : Function.update attempts watched none watched = none := Function.update_self ..
          dsimp only
          rw [gone]
          exact .forgotten state found (Int.not_lt.mp spent) stale
        · have kept : Function.update attempts key none watched = attempts watched :=
            Function.update_of_ne same ..
          dsimp only
          rw [kept]
          exact .same
      · exact .same

theorem remainingLockMs_over {attempts : Attempts} {key : String} (start : 0 ≤ now)
    (free : (remainingLockMs attempts key now).2 ≤ 0) :
    ((attempts key).map LoginAttemptState.lockedUntil).getD 0 ≤ now := by
  unfold remainingLockMs at free
  cases found : attempts key with
  | none => exact start
  | some state =>
    simp only [found] at free
    by_cases locked : now < state.lockedUntil
    · rw [if_pos locked] at free
      have left : state.lockedUntil - now ≤ 0 := free
      omega
    · exact Int.not_lt.mp locked

theorem pruneAttempts_settles (attempts : Attempts) (watched : String) (now : Int) :
    Settles now (attempts watched) (pruneAttempts attempts now watched) := by
  unfold pruneAttempts
  cases found : attempts watched with
  | none => exact .same
  | some state =>
    by_cases old : now - state.updatedAt > lockoutStateTtlMs ∧ now ≥ state.lockedUntil
    · have gone : (some state).filter (fun state => !(decide (now - state.updatedAt > lockoutStateTtlMs) &&
          decide (now ≥ state.lockedUntil))) = none := by
        simp only [Option.filter_eq_none_iff, Option.some.injEq, forall_eq', old.1, old.2]
        decide
      rw [gone]
      exact .forgotten state rfl old.2 old.1
    · have kept : (some state).filter (fun state => !(decide (now - state.updatedAt > lockoutStateTtlMs) &&
          decide (now ≥ state.lockedUntil))) = some state := by
        simp only [Option.filter_eq_some_iff, true_and, Bool.not_eq_true', Bool.and_eq_false_iff,
          decide_eq_false_iff_not]
        exact Classical.not_and_iff_not_or_not.mp old
      rw [kept]
      exact .same

end Counters

namespace Subject

variable (σ : Subject) (v : Vault)

theorem attempts_recordFailedLogin (username address : String) :
    σ.attempts (v.recordFailedLogin username (remoteAttemptKey username address)) =
      bump (σ.attempts v) (σ.keyOf username address) σ.limit v.now := by
  cases σ <;> rfl

theorem attempts_clearFailedLogins (username address : String) :
    σ.attempts (v.clearFailedLogins username (remoteAttemptKey username address)) =
      Function.update (σ.attempts v) (σ.keyOf username address) none := by
  cases σ <;> rfl

theorem attempts_loginLockedRemainingMs (username address : String) :
    σ.attempts (v.loginLockedRemainingMs username (remoteAttemptKey username address)).1 =
      (remainingLockMs (σ.attempts v) (σ.keyOf username address) v.now).1 := by
  cases σ <;> rfl

theorem remaining_le (username address : String) :
    (remainingLockMs (σ.attempts v) (σ.keyOf username address) v.now).2 ≤
      (v.loginLockedRemainingMs username (remoteAttemptKey username address)).2 := by
  cases σ with
  | pair _ _ => exact Int.le_max_left _ _
  | user _ => exact Int.le_max_right _ _

@[simp] theorem state_note (chain : Nat) (acts : List Act) : σ.state (v.note chain acts) = σ.state v := by
  cases σ <;> rfl

@[simp] theorem state_move (i : Nat) (f : Flight) (phase : Phase) : σ.state (v.move i f phase) = σ.state v := by
  cases σ <;> rfl

end Subject

end NixHomeServer.Homepage
