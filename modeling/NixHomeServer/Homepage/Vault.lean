import Mathlib.Algebra.GroupWithZero.Nat
import NixHomeServer.Homepage.SignIn
import NixHomeServer.Library.Census

/-! Requests that unlock the vault. Each goes on from one answer of Kanidm to the
next, between those of other requests; they share the counters of failed
attempts and the map of sign-ins that wait for a code. -/
namespace NixHomeServer.Homepage

open NixHomeServer.Library

def maxFailedAttempts : Nat := 5
def maxFailedAttemptsPerUser : Nat := 20
def lockoutDurationMs : Int := 5 * 60 * 1000
def lockoutStateTtlMs : Int := 15 * 60 * 1000
def pendingTotpTtlMs : Int := 3 * 60 * 1000
def maxPendingFlows : Nat := 20

structure LoginAttemptState where
  failures : Nat
  lockedUntil : Int
  updatedAt : Int
  deriving DecidableEq, Repr

abbrev Attempts := String → Option LoginAttemptState

def remoteAttemptKey (username remoteAddress : String) : String := username ++ "|" ++ remoteAddress

/-- The first address of the header, given as its first value. -/
def remoteAddressOf (forwarded : Option String) : String :=
  let candidate := trim (((splitAll ',' (forwarded.getD "").toList).head?).getD [])
  if candidate = [] then "unknown" else String.ofList candidate

def remainingLockMs (attempts : Attempts) (key : String) (now : Int) : Attempts × Int :=
  match attempts key with
  | none => (attempts, 0)
  | some state =>
    if now < state.lockedUntil then (attempts, state.lockedUntil - now)
    else if now - state.updatedAt > lockoutStateTtlMs then (Function.update attempts key none, 0)
    else (attempts, 0)

/-- One more failure under a key. -/
def bump (attempts : Attempts) (key : String) (threshold : Nat) (now : Int) : Attempts :=
  let state := (attempts key).getD ⟨0, 0, now⟩
  Function.update attempts key (some
    (if state.failures + 1 ≥ threshold then ⟨0, now + lockoutDurationMs, now⟩
     else ⟨state.failures + 1, state.lockedUntil, now⟩))

def pruneAttempts (attempts : Attempts) (now : Int) : Attempts := fun key =>
  (attempts key).filter fun state => !(now - state.updatedAt > lockoutStateTtlMs && now ≥ state.lockedUntil)

/-- A request under way. -/
structure Flight where
  username : String
  address : String
  chain : Nat
  phase : Phase
  deriving DecidableEq, Repr

/-- What is on record of a sign-in; `unlocked` is where the session is minted. -/
inductive Act
  | began (username password : String)
  | posted (username address : String) (request : Request)
  | answered (a : Answer)
  | refused (username address : String)
  | registered (username : String) (time : Int)
  | resumed (username : String) (code : Nat) (time : Int)
  | unlocked (username address : String)
  deriving DecidableEq, Repr

structure Entry where
  chain : Nat
  act : Act
  deriving DecidableEq, Repr

structure Vault where
  now : Int := 0
  remoteAttempts : Attempts := fun _ => none
  userAttempts : Attempts := fun _ => none
  pendingTotps : List PendingTotp := []
  flights : List Flight := []
  chains : Nat := 0
  log : List Entry := []

/-- The fields of a request that are strings. -/
structure Body where
  password : Option String := none
  totp : Option String := none
  pendingId : Option String := none
  deriving DecidableEq, Repr

def utf16Length (text : String) : Nat := (text.toList.map fun c => if c.val < 0x10000 then 1 else 2).sum

def passwordRuleOk (password : String) : Bool := 1 ≤ utf16Length password && utf16Length password ≤ 1024

/-- A code of six digits. -/
def parseCode (totp : String) : Option Nat :=
  let code := trim totp.toList
  if code.length = 6 ∧ code.all (fun c => '0' ≤ c && c ≤ '9') then
    some (code.foldl (fun n c => 10 * n + (c.toNat - '0'.toNat)) 0)
  else none

namespace Vault

def note (v : Vault) (chain : Nat) (acts : List Act) : Vault :=
  { v with log := v.log ++ acts.map fun act => ⟨chain, act⟩ }

def move (v : Vault) (i : Nat) (flight : Flight) (phase : Phase) : Vault :=
  { v with flights := v.flights.set i { flight with phase := phase } }

def loginLockedRemainingMs (v : Vault) (username remoteKey : String) : Vault × Int :=
  let (remote, first) := remainingLockMs v.remoteAttempts remoteKey v.now
  let (user, second) := remainingLockMs v.userAttempts username v.now
  ({ v with remoteAttempts := remote, userAttempts := user }, max first second)

def recordFailedLogin (v : Vault) (username remoteKey : String) : Vault :=
  { v with
    remoteAttempts := bump v.remoteAttempts remoteKey maxFailedAttempts v.now
    userAttempts := bump v.userAttempts username maxFailedAttemptsPerUser v.now }

def clearFailedLogins (v : Vault) (username remoteKey : String) : Vault :=
  { v with
    remoteAttempts := Function.update v.remoteAttempts remoteKey none
    userAttempts := Function.update v.userAttempts username none }

end Vault

/-- The first of the flows that were registered earliest. -/
def oldest (flows : List PendingTotp) : Option PendingTotp :=
  flows.foldl (fun best flow => match best with
    | some b => if flow.createdAt < b.createdAt then some flow else best
    | none => some flow) none

/-- Deletes the oldest flow until there is room for one more, at most so many times. -/
def makeRoom : Nat → List PendingTotp → List PendingTotp
  | 0, flows => flows
  | fuel + 1, flows =>
    if flows.length ≥ maxPendingFlows then
      match oldest flows with
      | some flow => makeRoom fuel (flows.filter fun other => other.id ≠ flow.id)
      | none => flows
    else flows

/-- `Map.set`, which keeps the place of a key that is there. -/
def setPending (flows : List PendingTotp) (flow : PendingTotp) : List PendingTotp :=
  if flows.any fun other => other.id = flow.id then
    flows.map fun other => if other.id = flow.id then flow else other
  else flows ++ [flow]

namespace Vault

def registerPendingTotp (v : Vault) (flight : Flight) (carried : Carried) (password : Option String)
    (id : { id : String // id ≠ "" }) : Vault :=
  let kept := v.pendingTotps.filter fun flow =>
    !(v.now - flow.createdAt > pendingTotpTtlMs || flow.username = flight.username)
  let flow : PendingTotp := ⟨id, flight.username, carried, v.now, password, flight.chain⟩
  { v with pendingTotps := setPending (makeRoom kept.length kept) flow }.note flight.chain
    [.registered flight.username v.now]

/-- The part of `startKanidmPasswordAuth` before its first await. -/
def startKanidmPasswordAuth (v : Vault) (username address password : String) : Vault :=
  { v with
    flights := v.flights ++ [Flight.mk username address v.chains (.init password)]
    chains := v.chains + 1 }.note v.chains
    [.began username password, .posted username address (.of (.init2 username) {})]

/-- The part of `submitKanidmTotp` before its first await, with the failure that it may come to. -/
def submitKanidmTotp (v : Vault) (username address pendingId totp : String) : Vault :=
  let denied := fun v : Vault => v.recordFailedLogin username (remoteAttemptKey username address)
  match v.pendingTotps.find? fun flow => flow.id.val = pendingId with
  | none => denied v
  | some flow =>
    if flow.username ≠ username then denied v
    else
      let v := { v with pendingTotps := v.pendingTotps.filter fun other => other.id.val ≠ pendingId }
      if v.now - flow.createdAt ≥ pendingTotpTtlMs then denied v
      else match parseCode totp with
        | none => denied v
        | some code =>
          { v with flights := v.flights ++ [Flight.mk username address flow.chain (.totp flow)] }.note flow.chain
            [.resumed username code v.now, .posted username address (.of (.totp code) flow.carried)]

/-- `attemptVaultUnlock` up to its first await. -/
def attemptVaultUnlock (v : Vault) (username address : String) (body : Body) : Vault :=
  let (v, remaining) := v.loginLockedRemainingMs username (remoteAttemptKey username address)
  if remaining > 0 then v
  else match body.pendingId.filter fun id => id != "", body.password.filter passwordRuleOk with
    | some id, _ => v.submitKanidmTotp username address id (body.totp.getD "")
    | none, some password => v.startKanidmPasswordAuth username address password
    | none, none => v

/-- A request only looks at the locks, or it goes on where none is running. -/
theorem attemptVaultUnlock_cases (v : Vault) (username address : String) (body : Body) :
    let checked := (v.loginLockedRemainingMs username (remoteAttemptKey username address))
    v.attemptVaultUnlock username address body = checked.1 ∨
      (checked.2 ≤ 0 ∧ ∃ id, v.attemptVaultUnlock username address body =
        checked.1.submitKanidmTotp username address id (body.totp.getD "")) ∨
      (checked.2 ≤ 0 ∧ ∃ password, v.attemptVaultUnlock username address body =
        checked.1.startKanidmPasswordAuth username address password) := by
  dsimp only
  unfold attemptVaultUnlock
  generalize v.loginLockedRemainingMs username (remoteAttemptKey username address) = checked
  obtain ⟨w, remaining⟩ := checked
  dsimp only
  by_cases locked : remaining > 0
  · exact Or.inl (if_pos locked)
  · rw [if_neg locked]
    have free := Int.not_lt.mp locked
    cases body.pendingId.filter fun id => id != "" with
    | some id => exact Or.inr (Or.inl ⟨free, id, rfl⟩)
    | none =>
      cases body.password.filter passwordRuleOk with
      | some password => exact Or.inr (Or.inr ⟨free, password, rfl⟩)
      | none => exact Or.inl rfl

/-- A request goes on with what follows on an answer. -/
def perform (v : Vault) (i : Nat) (flight : Flight) (id : { id : String // id ≠ "" }) : Move → Vault
  | .post step carried phase =>
    (v.move i flight phase).note flight.chain [.posted flight.username flight.address (.of step carried)]
  | .register carried password => (v.move i flight .finished).registerPendingTotp flight carried password id
  | .revoke => v.move i flight .revoking
  | .deny =>
    (v.move i flight .finished).recordFailedLogin flight.username
      (remoteAttemptKey flight.username flight.address)
  | .fail => v.move i flight .finished

/-- The continuation of a request after an await. -/
def resume (v : Vault) (i : Nat) (response : Option Response) (id : { id : String // id ≠ "" })
    (flight : Flight) : Vault :=
  match flight.phase with
  | .finished => v
  | .revoking =>
    (((v.move i flight .finished).clearFailedLogins flight.username
      (remoteAttemptKey flight.username flight.address))).note flight.chain
      [.unlocked flight.username flight.address]
  | phase => match postKanidmAuth response with
    | none => v.move i flight .finished
    | some a =>
      let refusal := match phase.credential, a.state with
        | true, some (.denied _) => [.refused flight.username flight.address]
        | _, _ => []
      (v.note flight.chain (.answered a :: refusal)).perform i flight id (phase.next a)

/-- A request that waits for Kanidm fails or goes on with what it is answered. -/
theorem resume_asking {flight : Flight} (going : flight.phase ≠ .finished) (asking : flight.phase ≠ .revoking)
    (v : Vault) (i : Nat) (response : Option Response) (id : { id : String // id ≠ "" }) :
    v.resume i response id flight = match postKanidmAuth response with
      | none => v.move i flight .finished
      | some a => (v.note flight.chain (.answered a :: match flight.phase.credential, a.state with
          | true, some (.denied _) => [.refused flight.username flight.address]
          | _, _ => [])).perform i flight id (flight.phase.next a) := by
  unfold resume
  cases is : flight.phase with
  | finished => exact absurd is going
  | revoking => exact absurd is asking
  | _ => rfl

end Vault

inductive Event
  | unlock (username : String) (forwarded : Option String) (body : Body)
  | answer (i : Nat) (response : Option Response) (id : { id : String // id ≠ "" })
  | sweep
  | clock (now : Int)

def Vault.step (v : Vault) : Event → Vault
  | .unlock username forwarded body => v.attemptVaultUnlock username (remoteAddressOf forwarded) body
  | .answer i response id => match v.flights[i]? with
    | some flight => v.resume i response id flight
    | none => v
  | .sweep => { v with
      pendingTotps := v.pendingTotps.filter fun flow => !(v.now - flow.createdAt > pendingTotpTtlMs)
      remoteAttempts := pruneAttempts v.remoteAttempts v.now
      userAttempts := pruneAttempts v.userAttempts v.now }
  | .clock now => { v with now := now }

end NixHomeServer.Homepage
