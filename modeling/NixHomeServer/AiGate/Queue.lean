import Mathlib.Algebra.Group.Nat.Defs
import NixHomeServer.Library.Census
import NixHomeServer.Library.Runs
import Mathlib.Data.List.Nodup

/-! Requests at the gate in front of the local model: a semaphore for those that
are forwarded and a counter for those that wait. A handler goes on one atomic
operation at a time; it can be dropped wherever it awaits. -/
namespace NixHomeServer.AiGate

open NixHomeServer.Library

structure Settings where
  maxInflight : Nat
  maxQueued : Nat
  maxBodyBytes : Nat
  inflight_pos : 0 < maxInflight
  queued_lt : maxQueued < 2 ^ 64

inductive Status
  | payloadTooLarge | tooManyRequests | gatewayTimeout | serviceUnavailable | badGateway
  | upstream (code : Nat)
  deriving DecidableEq, Repr

/-- Where a handler is. -/
inductive Phase
  | arrived
  | refusedPermit
  | mayWait
  | counted
  | waiting
  | woken
  | admitted
  | leaving (status : Status)
  | forwarding
  | answering (status : Status)
  | answered (status : Status)
  | dropped
  deriving DecidableEq, Repr

/-- From raising the counter to lowering it. -/
def Phase.queues : Phase → Bool
  | .counted | .waiting | .woken | .admitted | .leaving _ => true
  | _ => false

/-- A permit of the semaphore belongs to the handler. -/
def Phase.holds : Phase → Bool
  | .woken | .admitted | .forwarding | .answering _ => true
  | _ => false

def Phase.forwards : Phase → Bool
  | .forwarding => true
  | _ => false

structure GateFull where
  deriving DecidableEq, Repr

def decideQueue (inflightPermits queued maxQueued : Nat) : Except GateFull Bool :=
  if inflightPermits > 0 then .ok false
  else if queued ≥ maxQueued then .error {}
  else .ok true

structure Gate where
  permits : Nat
  /-- The handlers in the semaphore's queue, the first to be served in front. -/
  waiters : List Nat := []
  queued : Nat := 0
  handlers : List Phase := []
  deriving DecidableEq, Repr

/-- Counters are 64 bits wide and wrap. -/
def fetchAdd (n : Nat) : Nat := (n + 1) % 2 ^ 64
def fetchSub (n : Nat) : Nat := (n + (2 ^ 64 - 1)) % 2 ^ 64

namespace Gate

def initial (c : Settings) : Gate := { permits := c.maxInflight }

def move (g : Gate) (i : Nat) (phase : Phase) : Gate := { g with handlers := g.handlers.set i phase }

/-- A permit goes to the first waiter, or back. -/
def release (g : Gate) : Gate :=
  match g.waiters with
  | [] => { g with permits := g.permits + 1 }
  | first :: rest => { g with waiters := rest }.move first .woken

/-- The next atomic operation of a handler that need not wait. -/
def resume (c : Settings) (g : Gate) (i : Nat) : Phase → Gate
  | .arrived =>
    if g.permits > 0 then { g with permits := g.permits - 1 }.move i .forwarding
    else g.move i .refusedPermit
  | .refusedPermit =>
    match decideQueue 0 g.queued c.maxQueued with
    | .error _ => g.move i (.answered .tooManyRequests)
    | .ok _ => g.move i .mayWait
  | .mayWait => { g with queued := fetchAdd g.queued }.move i .counted
  | .counted =>
    if g.permits > 0 then { g with permits := g.permits - 1 }.move i .admitted
    else { g with waiters := g.waiters ++ [i] }.move i .waiting
  | .woken => g.move i .admitted
  | .admitted => { g with queued := fetchSub g.queued }.move i .forwarding
  | .leaving status => { g with queued := fetchSub g.queued }.move i (.answered status)
  | .answering status => (g.move i (.answered status)).release
  | .waiting | .forwarding | .answered _ | .dropped => g

/-- A wait that ends without a permit. -/
def giveUp (g : Gate) (i : Nat) (status : Status) : Phase → Gate
  | .waiting => { g with waiters := g.waiters.erase i }.move i (.leaving status)
  | _ => g

/-- The future of a handler is dropped at an await; only destructors run. -/
def drop (g : Gate) (i : Nat) : Phase → Gate
  | .waiting => { g with waiters := g.waiters.erase i }.move i .dropped
  | .woken | .forwarding => (g.move i .dropped).release
  | _ => g

end Gate

inductive Action
  | arrive (bodyBytes : Nat)
  | resume (i : Nat)
  | timeout (i : Nat)
  | close (i : Nat)
  | reply (i : Nat) (status : Status)
  | drop (i : Nat)
  deriving DecidableEq, Repr

def Gate.step (c : Settings) (g : Gate) : Action → Gate
  | .arrive bodyBytes =>
    let first := if bodyBytes > c.maxBodyBytes then .answered .payloadTooLarge else .arrived
    { g with handlers := g.handlers ++ [first] }
  | .resume i => match g.handlers[i]? with
    | some phase => g.resume c i phase
    | none => g
  | .timeout i => match g.handlers[i]? with
    | some phase => g.giveUp i .gatewayTimeout phase
    | none => g
  | .close i => match g.handlers[i]? with
    | some phase => g.giveUp i .serviceUnavailable phase
    | none => g
  | .reply i status => match g.handlers[i]? with
    | some .forwarding => g.move i (.answering status)
    | _ => g
  | .drop i => match g.handlers[i]? with
    | some phase => g.drop i phase
    | none => g

def Gate.queueing (g : Gate) : Nat := g.handlers.countP Phase.queues
def Gate.holding (g : Gate) : Nat := g.handlers.countP Phase.holds
def Gate.forwarded (g : Gate) : Nat := g.handlers.countP Phase.forwards

/-- A handler that reads the counter now is refused. -/
def Gate.Full (c : Settings) (g : Gate) : Prop := decideQueue 0 g.queued c.maxQueued = .error {}

/-- The condition under which a step keeps the account: nobody is dropped while it waits, and a
handler that may wait still finds a free place when it raises the counter. -/
def Gate.Meets (c : Settings) (g : Gate) : Action → Prop
  | .drop i => g.handlers[i]? ≠ some .waiting ∧ g.handlers[i]? ≠ some .woken
  | .resume i => g.handlers[i]? = some .mayWait → g.queued < c.maxQueued
  | _ => True

instance (c : Settings) (g : Gate) (a : Action) : Decidable (g.Meets c a) := by
  cases a <;> simp only [Gate.Meets] <;> infer_instance

namespace Gate

section Moves

variable {c : Settings} {g : Gate} {i : Nat} {old : Phase}

@[simp] theorem move_queued (g : Gate) (i : Nat) (phase : Phase) : (g.move i phase).queued = g.queued := rfl

@[simp] theorem move_permits (g : Gate) (i : Nat) (phase : Phase) : (g.move i phase).permits = g.permits := rfl

@[simp] theorem move_waiters (g : Gate) (i : Nat) (phase : Phase) : (g.move i phase).waiters = g.waiters := rfl

@[simp] theorem release_queued (g : Gate) : g.release.queued = g.queued := by
  unfold release
  split <;> rfl

theorem queueing_move (at_i : g.handlers[i]? = some old) (new : Phase) :
    (g.move i new).queueing + old.queues.toNat = g.queueing + new.queues.toNat :=
  census_set Phase.queues at_i new

theorem holding_move (at_i : g.handlers[i]? = some old) (new : Phase) :
    (g.move i new).holding + old.holds.toNat = g.holding + new.holds.toNat :=
  census_set Phase.holds at_i new

/-- The semaphore's queue is the handlers that wait, each once. -/
structure Lined (g : Gate) : Prop where
  waits : ∀ i, i ∈ g.waiters ↔ g.handlers[i]? = some .waiting
  once : g.waiters.Nodup

theorem Lined.move (lined : g.Lined) (at_i : g.handlers[i]? = some old) (before : old ≠ .waiting)
    (new : Phase) (after : new ≠ .waiting) : (g.move i new).Lined where
  waits j := by
    rw [move_waiters, lined.waits]
    by_cases same : j = i
    · subst same
      rw [Gate.move, getElem?_set_of_getElem? at_i, at_i]
      simp only [Option.some.injEq, before, after]
    · rw [Gate.move, List.getElem?_set_ne (Ne.symm same)]
  once := lined.once

theorem Lined.join (lined : g.Lined) (at_i : g.handlers[i]? = some old) (before : old ≠ .waiting) :
    ({ g with waiters := g.waiters ++ [i] }.move i .waiting).Lined where
  waits j := by
    simp only [Gate.move, List.mem_append, List.mem_singleton, lined.waits]
    by_cases same : j = i
    · subst same
      simp only [or_true, getElem?_set_of_getElem? at_i]
    · rw [List.getElem?_set_ne (Ne.symm same)]
      simp only [same, or_false]
  once := by
    have absent : i ∉ g.waiters := fun member => by
      rw [lined.waits, at_i] at member
      exact before (Option.some.inj member)
    refine List.nodup_append.mpr ⟨lined.once, List.nodup_singleton i, ?_⟩
    rintro j member k single rfl
    exact absent (List.mem_singleton.mp single ▸ member)

theorem Lined.leave (lined : g.Lined) (at_i : g.handlers[i]? = some .waiting) (new : Phase)
    (after : new ≠ .waiting) : ({ g with waiters := g.waiters.erase i }.move i new).Lined where
  waits j := by
    simp only [Gate.move, lined.once.mem_erase_iff, lined.waits]
    by_cases same : j = i
    · subst same
      simp only [ne_eq, not_true, false_and, getElem?_set_of_getElem? at_i, Option.some.injEq, after]
    · rw [List.getElem?_set_ne (Ne.symm same)]
      simp only [ne_eq, same, not_false_eq_true, true_and]
  once := lined.once.erase i

theorem release_nil (line : g.waiters = []) : g.release = { g with permits := g.permits + 1 } := by
  simp only [release, line]

theorem release_cons {first : Nat} {rest : List Nat} (line : g.waiters = first :: rest) :
    g.release = { g with waiters := rest }.move first .woken := by
  simp only [release, line]

/-- A permit that is given back is free, or it is held by a handler that waited for it. -/
theorem Lined.release (lined : g.Lined) :
    g.release.Lined ∧ g.release.queueing = g.queueing ∧
      g.release.permits + g.release.holding = g.permits + g.holding + 1 := by
  cases line : g.waiters with
  | nil =>
    rw [release_nil line]
    exact ⟨⟨lined.waits, lined.once⟩, rfl, by simp only [Gate.holding]; omega⟩
  | cons first rest =>
    have at_first : g.handlers[first]? = some .waiting := (lined.waits first).mp (line ▸ List.mem_cons_self)
    have out := lined.leave at_first .woken (by decide)
    rw [line, List.erase_cons_head] at out
    have queue := queueing_move at_first .woken
    have hold := holding_move at_first .woken
    simp only [Phase.queues, Phase.holds, Bool.toNat_true, Bool.toNat_false] at queue hold
    rw [release_cons line]
    refine ⟨out, Nat.add_right_cancel queue, ?_⟩
    simp only [Gate.holding, Gate.move] at hold ⊢
    omega

/-- Every permit is free or held, and the semaphore's queue is in order. -/
structure Sound (c : Settings) (g : Gate) : Prop where
  lined : g.Lined
  permits : g.permits + g.holding = c.maxInflight

theorem sound_initial (c : Settings) : (initial c).Sound c where
  lined := ⟨fun _ => ⟨nofun, nofun⟩, List.nodup_nil⟩
  permits := rfl

/-- What a step does to the account, by whether it meets the condition. -/
inductive Effect (c : Settings) (g g' : Gate) (meets : Prop) : Prop
  | keeps (met : meets) (queued : g'.queued = g.queued) (queueing : g'.queueing = g.queueing)
  | raises (free : meets ↔ g.queued < c.maxQueued) (queued : g'.queued = fetchAdd g.queued)
      (queueing : g'.queueing = g.queueing + 1)
  | lowers (met : meets) (queued : g'.queued = fetchSub g.queued) (queueing : g'.queueing + 1 = g.queueing)
  | leaks (unmet : ¬meets) (queued : g'.queued = g.queued) (queueing : g'.queueing + 1 = g.queueing)

/-- A handler moves on outside the semaphore's queue. -/
theorem Sound.moved (sound : g.Sound c) (at_i : g.handlers[i]? = some old) (before : old ≠ .waiting)
    (new : Phase) (after : new ≠ .waiting) (permits queued : Nat)
    (hold : permits + new.holds.toNat = g.permits + old.holds.toNat) :
    ({ g with permits := permits, queued := queued }.move i new).Sound c ∧
      ({ g with permits := permits, queued := queued }.move i new).queueing + old.queues.toNat =
        g.queueing + new.queues.toNat := by
  have lined := sound.lined.move at_i before new after
  refine ⟨⟨⟨lined.waits, lined.once⟩, ?_⟩, queueing_move at_i new⟩
  have total := sound.permits
  have held := holding_move at_i new
  simp only [holding, move] at total held ⊢
  omega

theorem Sound.left (sound : g.Sound c) (at_i : g.handlers[i]? = some .waiting) (new : Phase)
    (after : new ≠ .waiting) (free : new.holds = false) :
    ({ g with waiters := g.waiters.erase i }.move i new).Sound c ∧
      ({ g with waiters := g.waiters.erase i }.move i new).queueing + 1 = g.queueing + new.queues.toNat := by
  refine ⟨⟨sound.lined.leave at_i new after, ?_⟩, queueing_move at_i new⟩
  have total := sound.permits
  have held := Nat.add_right_cancel ((holding_move at_i new).trans (congrArg _ (congrArg Bool.toNat free)))
  exact (congrArg _ held).trans total

theorem Sound.released (sound : g.Sound c) (at_i : g.handlers[i]? = some old) (held : old.holds = true)
    (new : Phase) (after : new ≠ .waiting) (free : new.holds = false) :
    (g.move i new).release.Sound c ∧
      (g.move i new).release.queueing + old.queues.toNat = g.queueing + new.queues.toNat := by
  have before : old ≠ .waiting := fun same => by rw [same] at held; cases held
  obtain ⟨lined, queueing, permits⟩ := (sound.lined.move at_i before new after).release
  refine ⟨⟨lined, ?_⟩, queueing ▸ queueing_move at_i new⟩
  have total := sound.permits
  have moved := holding_move at_i new
  simp only [held, free, Bool.toNat_true, Bool.toNat_false, move_permits] at moved permits
  omega

theorem Sound.resume (sound : g.Sound c) (at_i : g.handlers[i]? = some old) :
    (g.resume c i old).Sound c ∧ Effect c g (g.resume c i old) (g.Meets c (.resume i)) := by
  have meets : old ≠ .mayWait → g.Meets c (.resume i) := fun other waits =>
    absurd (Option.some.inj (at_i.symm.trans waits)) other
  cases old with
  | arrived =>
    simp only [Gate.resume]
    split
    case isTrue free =>
      have next := sound.moved at_i nofun .forwarding nofun (g.permits - 1) g.queued
        (by simp only [Phase.holds, Bool.toNat_true, Bool.toNat_false]; omega)
      exact ⟨next.1, .keeps (meets nofun) rfl next.2⟩
    case isFalse =>
      have next := sound.moved at_i nofun .refusedPermit nofun g.permits g.queued rfl
      exact ⟨next.1, .keeps (meets nofun) rfl next.2⟩
  | refusedPermit =>
    simp only [Gate.resume]
    split
    · have next := sound.moved at_i nofun (.answered .tooManyRequests) nofun g.permits g.queued rfl
      exact ⟨next.1, .keeps (meets nofun) rfl next.2⟩
    · have next := sound.moved at_i nofun .mayWait nofun g.permits g.queued rfl
      exact ⟨next.1, .keeps (meets nofun) rfl next.2⟩
  | mayWait =>
    have next := sound.moved at_i nofun .counted nofun g.permits (fetchAdd g.queued) rfl
    exact ⟨next.1, .raises ⟨fun met => met at_i, fun free _ => free⟩ rfl next.2⟩
  | counted =>
    simp only [Gate.resume]
    split
    case isTrue free =>
      have next := sound.moved at_i nofun .admitted nofun (g.permits - 1) g.queued
        (by simp only [Phase.holds, Bool.toNat_true, Bool.toNat_false]; omega)
      exact ⟨next.1, .keeps (meets nofun) rfl (Nat.add_right_cancel next.2)⟩
    case isFalse =>
      have held := holding_move at_i .waiting
      have queue := queueing_move at_i .waiting
      refine ⟨⟨sound.lined.join at_i nofun, ?_⟩, .keeps (meets nofun) rfl (Nat.add_right_cancel queue)⟩
      exact (congrArg _ (Nat.add_right_cancel held)).trans sound.permits
  | woken =>
    have next := sound.moved at_i nofun .admitted nofun g.permits g.queued rfl
    exact ⟨next.1, .keeps (meets nofun) rfl (Nat.add_right_cancel next.2)⟩
  | admitted =>
    have next := sound.moved at_i nofun .forwarding nofun g.permits (fetchSub g.queued) rfl
    exact ⟨next.1, .lowers (meets nofun) rfl next.2⟩
  | leaving status =>
    have next := sound.moved at_i nofun (.answered status) nofun g.permits (fetchSub g.queued) rfl
    exact ⟨next.1, .lowers (meets nofun) rfl next.2⟩
  | answering status =>
    have next := sound.released at_i rfl (.answered status) nofun rfl
    exact ⟨next.1, .keeps (meets nofun) (release_queued _) next.2⟩
  | waiting => exact ⟨sound, .keeps (meets nofun) rfl rfl⟩
  | forwarding => exact ⟨sound, .keeps (meets nofun) rfl rfl⟩
  | answered _ => exact ⟨sound, .keeps (meets nofun) rfl rfl⟩
  | dropped => exact ⟨sound, .keeps (meets nofun) rfl rfl⟩

theorem Sound.giveUp (sound : g.Sound c) (at_i : g.handlers[i]? = some old) (status : Status) :
    (g.giveUp i status old).Sound c ∧ Effect c g (g.giveUp i status old) True := by
  by_cases waits : old = .waiting
  · subst waits
    have next := sound.left at_i (.leaving status) nofun rfl
    exact ⟨next.1, .keeps trivial rfl (Nat.add_right_cancel next.2)⟩
  · have same : g.giveUp i status old = g := by cases old <;> first | rfl | exact absurd rfl waits
    rw [same]
    exact ⟨sound, .keeps trivial rfl rfl⟩

theorem Sound.drop (sound : g.Sound c) (at_i : g.handlers[i]? = some old) :
    (g.drop i old).Sound c ∧ Effect c g (g.drop i old) (g.Meets c (.drop i)) := by
  have meets : old ≠ .waiting → old ≠ .woken → g.Meets c (.drop i) := fun first second =>
    ⟨fun waits => first (Option.some.inj (at_i.symm.trans waits)),
      fun woken => second (Option.some.inj (at_i.symm.trans woken))⟩
  cases old with
  | waiting =>
    have next := sound.left at_i .dropped nofun rfl
    exact ⟨next.1, .leaks (fun met => met.1 at_i) rfl next.2⟩
  | woken =>
    have next := sound.released at_i rfl .dropped nofun rfl
    exact ⟨next.1, .leaks (fun met => met.2 at_i) (release_queued _) next.2⟩
  | forwarding =>
    have next := sound.released at_i rfl .dropped nofun rfl
    exact ⟨next.1, .keeps (meets nofun nofun) (release_queued _) next.2⟩
  | arrived => exact ⟨sound, .keeps (meets nofun nofun) rfl rfl⟩
  | refusedPermit => exact ⟨sound, .keeps (meets nofun nofun) rfl rfl⟩
  | mayWait => exact ⟨sound, .keeps (meets nofun nofun) rfl rfl⟩
  | counted => exact ⟨sound, .keeps (meets nofun nofun) rfl rfl⟩
  | admitted => exact ⟨sound, .keeps (meets nofun nofun) rfl rfl⟩
  | leaving _ => exact ⟨sound, .keeps (meets nofun nofun) rfl rfl⟩
  | answering _ => exact ⟨sound, .keeps (meets nofun nofun) rfl rfl⟩
  | answered _ => exact ⟨sound, .keeps (meets nofun nofun) rfl rfl⟩
  | dropped => exact ⟨sound, .keeps (meets nofun nofun) rfl rfl⟩

theorem Sound.step (sound : g.Sound c) (a : Action) :
    (g.step c a).Sound c ∧ Effect c g (g.step c a) (g.Meets c a) := by
  cases a with
  | arrive bodyBytes =>
    have place : ∀ phase, phase = .answered .payloadTooLarge ∨ phase = .arrived →
        ({ g with handlers := g.handlers ++ [phase] } : Gate).Sound c ∧
          ({ g with handlers := g.handlers ++ [phase] } : Gate).queueing = g.queueing := by
      intro phase which
      have fresh : phase ≠ .waiting ∧ phase.queues = false ∧ phase.holds = false := by
        rcases which with rfl | rfl <;> exact ⟨nofun, rfl, rfl⟩
      refine ⟨⟨⟨fun i => ?_, sound.lined.once⟩, ?_⟩, ?_⟩
      · rw [sound.lined.waits, List.getElem?_append]
        split
        · rfl
        · rename_i past
          rw [List.getElem?_eq_none (by omega), List.getElem?_singleton]
          split <;> simp [fresh.1]
      · have total := sound.permits
        simp only [holding, census_append, fresh.2.2, Bool.toNat_false, Nat.add_zero] at total ⊢
        exact total
      · simp only [queueing, census_append, fresh.2.1, Bool.toNat_false, Nat.add_zero]
    unfold Gate.step
    dsimp only
    split
    · have next := place _ (Or.inl rfl)
      exact ⟨next.1, .keeps trivial rfl next.2⟩
    · have next := place _ (Or.inr rfl)
      exact ⟨next.1, .keeps trivial rfl next.2⟩
  | resume i =>
    simp only [Gate.step]
    cases at_i : g.handlers[i]? with
    | some phase => exact sound.resume at_i
    | none => exact ⟨sound, .keeps (fun waits => nomatch at_i.symm.trans waits) rfl rfl⟩
  | timeout i =>
    simp only [Gate.step]
    cases at_i : g.handlers[i]? with
    | some phase => exact sound.giveUp at_i .gatewayTimeout
    | none => exact ⟨sound, .keeps trivial rfl rfl⟩
  | close i =>
    simp only [Gate.step]
    cases at_i : g.handlers[i]? with
    | some phase => exact sound.giveUp at_i .serviceUnavailable
    | none => exact ⟨sound, .keeps trivial rfl rfl⟩
  | reply i status =>
    unfold Gate.step
    dsimp only
    split
    · rename_i at_i
      have next := sound.moved at_i nofun (.answering status) nofun g.permits g.queued rfl
      exact ⟨next.1, .keeps trivial rfl next.2⟩
    · exact ⟨sound, .keeps trivial rfl rfl⟩
  | drop i =>
    simp only [Gate.step]
    cases at_i : g.handlers[i]? with
    | some phase => exact sound.drop at_i
    | none => exact ⟨sound, .keeps ⟨fun waits => (nomatch at_i.symm.trans waits),
        fun woken => (nomatch at_i.symm.trans woken)⟩ rfl rfl⟩

end Moves

section Account

variable {c : Settings} {g : Gate}

theorem full_iff (c : Settings) (g : Gate) : g.Full c ↔ c.maxQueued ≤ g.queued := by
  unfold Full decideQueue
  simp only [gt_iff_lt, Nat.lt_irrefl, if_false, ge_iff_le]
  split <;> simp_all

/-- The counter is the number of those that queue, within its bound; only permits are forwarded on;
and the gate is full only while the whole queue is taken. -/
structure Accounted (c : Settings) (g : Gate) : Prop where
  counter : g.queued = g.queueing
  bounded : g.queueing ≤ c.maxQueued
  inflight : g.forwarded ≤ c.maxInflight
  refuses : g.Full c → c.maxQueued ≤ g.queueing
  opens : g.queueing = 0 → ¬g.Full c

theorem Sound.forwarded_le (sound : g.Sound c) : g.forwarded ≤ c.maxInflight := by
  have fewer : g.forwarded ≤ g.holding :=
    List.countP_mono_left fun phase _ forwards => by cases phase <;> first | rfl | cases forwards
  have total := sound.permits
  omega

theorem Sound.accounted_iff (sound : g.Sound c) (room : 0 < c.maxQueued) :
    g.Accounted c ↔ g.queued = g.queueing ∧ g.queueing ≤ c.maxQueued := by
  constructor
  · intro accounted
    exact ⟨accounted.counter, accounted.bounded⟩
  · rintro ⟨counter, bounded⟩
    refine ⟨counter, bounded, sound.forwarded_le, fun full => ?_, fun nobody full => ?_⟩
    · rw [full_iff] at full
      omega
    · rw [full_iff] at full
      omega

/-- Where the account is right, a step keeps it right exactly if it meets the condition. -/
theorem Sound.accounted_step_iff (sound : g.Sound c) (room : 0 < c.maxQueued) (accounted : g.Accounted c)
    (a : Action) : (g.step c a).Accounted c ↔ g.Meets c a := by
  obtain ⟨sound', effect⟩ := sound.step a
  rw [sound'.accounted_iff room]
  have counter := accounted.counter
  have bounded := accounted.bounded
  have small := c.queued_lt
  cases effect with
  | keeps met queued queueing => exact iff_of_true (by omega) met
  | raises free queued queueing =>
    rw [free, queued, queueing, fetchAdd]
    omega
  | lowers met queued queueing =>
    refine iff_of_true ?_ met
    rw [queued, fetchSub]
    omega
  | leaks unmet queued queueing => exact iff_of_false (by omega) unmet

end Account

end Gate

/-- The account of the gate is exact in every state of a run exactly if the gate has a queue, nobody
is dropped while it waits, and no handler raises the counter past the bound it has checked. -/
theorem queue_accounting_exact (c : Settings) (actions : List Action) :
    (∀ early late, actions = early ++ late → (Runs.run (Gate.step c) (.initial c) early).Accounted c) ↔
      0 < c.maxQueued ∧ Runs.Along (Gate.step c) (Gate.Meets c) (.initial c) actions := by
  have exactly : 0 < c.maxQueued → _ := fun room =>
    Runs.prefixes_iff_along (Gate.step c) (Gate.Meets c) (Gate.Sound c) (Gate.Accounted c)
      (fun g a sound => (sound.step a).1) (fun g a sound accounted => sound.accounted_step_iff room accounted a)
      (.initial c) actions (Gate.sound_initial c) (((Gate.sound_initial c).accounted_iff room).mpr ⟨rfl, Nat.zero_le _⟩)
  constructor
  · intro all
    have open_gate := (all [] actions rfl).opens rfl
    have room : 0 < c.maxQueued := by
      rw [Gate.full_iff] at open_gate
      exact Nat.lt_of_not_le open_gate
    exact ⟨room, (exactly room).mp all⟩
  · rintro ⟨room, along⟩
    exact (exactly room).mpr along

/-- One request at a time and one in the queue. -/
def oneByOne : Settings := ⟨1, 1, 15 * 1024 * 1024, by decide, by decide⟩

/-- A request waits behind another one and its client goes away; from then on the counter stays
up, and a third request is refused although nobody waits. In the second run two requests pass the
check before either raises the counter. -/
theorem dropped_waiter_closes_gate :
    let enter (i : Nat) : List Action := [.arrive 0, .resume i, .resume i]
    let left := Runs.run (Gate.step oneByOne) (.initial oneByOne)
      ([.arrive 0, .resume 0] ++ enter 1 ++ [.resume 1, .resume 1, .drop 1])
    let refused := Runs.run (Gate.step oneByOne) left (enter 2)
    let crowded := Runs.run (Gate.step oneByOne) (.initial oneByOne)
      ([.arrive 0, .resume 0] ++ enter 1 ++ enter 2 ++ [.resume 1, .resume 2])
    (left.queued = 1 ∧ left.queueing = 0 ∧ ¬left.Accounted oneByOne) ∧
    (refused.handlers[2]? = some (.answered .tooManyRequests) ∧ refused.queueing = 0) ∧
    (crowded.queued = 2 ∧ crowded.queueing = 2 ∧ ¬crowded.Accounted oneByOne) := by
  refine ⟨⟨by decide, by decide, fun accounted => ?_⟩, by decide, by decide, by decide, fun accounted => ?_⟩
  · exact absurd accounted.counter (by decide)
  · exact absurd accounted.bounded (by decide)

end NixHomeServer.AiGate
