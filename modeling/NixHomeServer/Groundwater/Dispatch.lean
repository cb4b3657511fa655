import NixHomeServer.Groundwater.AttemptInvariant

/-! The tracker and the durable rows together, over every run.
The journal is the evidence of the previous module: an accepted attempt has an
outgoing packet and a broker confirmation of the same packet, both observed
while that attempt was tracked. -/
namespace NixHomeServer.Groundwater.Dispatch

open NixHomeServer.Library

variable {J : Type} [Jsonb J]

/-- One packet id was seen leaving and seen confirmed for the attempt. -/
def Confirmed (journal : List (Event J)) (a : AttemptId) : Prop :=
  ∃ packet, Event.outgoing a packet ∈ journal ∧ Event.puback a packet ∈ journal

def Acknowledged (journal : List (Event J)) (c : CommandId) : Prop :=
  Event.firmwareAck c ∈ journal

structure WorldOk (w : World J) : Prop where
  store : StoreOk (Confirmed w.journal) (Acknowledged w.journal) w.store
  packet : ∀ p k, w.publisher.pending = some p → p.packetId = some k →
    Event.outgoing p.attemptId k ∈ w.journal
  acked : ∀ p, w.publisher.pending = some p → p.brokerAckedAt.isSome →
    ∃ k, p.packetId = some k ∧ Event.puback p.attemptId k ∈ w.journal

/-- What no later world takes back; an enqueued attempt is one the same step created. -/
structure Advances (w w' : World J) : Prop where
  store : Later w.store w'.store
  journal : ∃ new, w'.journal = new ++ w.journal ∧
    ∀ a, Event.enqueued a ∈ new → w.store.attempts.get a = none

theorem Advances.refl (w : World J) : Advances w w :=
  ⟨Later.refl w.store, [], rfl, fun _ impossible => nomatch impossible⟩

theorem Advances.trans {w x y : World J} (first : Advances w x) (second : Advances x y) :
    Advances w y := by
  obtain ⟨store₁, new₁, journal₁, fresh₁⟩ := first
  obtain ⟨store₂, new₂, journal₂, fresh₂⟩ := second
  refine ⟨store₁.trans store₂, new₂ ++ new₁, ?_, ?_⟩
  · rw [journal₂, journal₁, List.append_assoc]
  · intro a member
    rcases List.mem_append.mp member with late | early
    · have missing := fresh₂ a late
      cases before : w.store.attempts.get a with
      | none => rfl
      | some att =>
        obtain ⟨att', found, _⟩ := store₁.attempt_stays a att before
        rw [found] at missing
        cases missing
    · exact fresh₁ a early

/-- A step from an invariant world: the invariant again, and nothing taken back. -/
def Good (w w' : World J) : Prop := WorldOk w' ∧ Advances w w'

theorem Good.refl {w : World J} (ok : WorldOk w) : Good w w := ⟨ok, Advances.refl w⟩

theorem Good.trans {w x y : World J} (first : Good w x) (second : WorldOk x → Good x y) : Good w y :=
  ⟨(second first.1).1, first.2.trans (second first.1).2⟩

theorem andThen_good {w : World J} {r : World J × Bool} {next : World J → World J × Bool}
    (first : Good w r.1) (second : ∀ x, WorldOk x → Good x (next x).1) :
    Good w (andThen r next).1 := by
  unfold andThen
  cases r.2 with
  | true => exact first.trans (second r.1)
  | false => exact first

theorem Confirmed.mono {journal : List (Event J)} {a : AttemptId} (e : Event J)
    (confirmed : Confirmed journal a) : Confirmed (e :: journal) a := by
  obtain ⟨packet, out, back⟩ := confirmed
  exact ⟨packet, List.mem_cons_of_mem _ out, List.mem_cons_of_mem _ back⟩

/-- Noting an event keeps the invariant; only an enqueue is a claim about the journal. -/
theorem note_good {w : World J} (ok : WorldOk w) (e : Event J)
    (fresh : ∀ a, e = .enqueued a → w.store.attempts.get a = none) : Good w (w.note e) := by
  constructor
  · constructor
    · exact ok.store.mono (fun a => Confirmed.mono e) (fun c known => List.mem_cons_of_mem _ known)
    · intro p k pending named
      exact List.mem_cons_of_mem _ (ok.packet p k pending named)
    · intro p pending acked
      obtain ⟨k, named, seen⟩ := ok.acked p pending acked
      exact ⟨k, named, List.mem_cons_of_mem _ seen⟩
  · refine ⟨Later.refl w.store, [e], rfl, ?_⟩
    intro a member
    exact fresh a (List.mem_singleton.mp member).symm

/-- A transaction that moves the store and leaves the tracker alone. -/
theorem store_good {w : World J} (ok : WorldOk w) (s : Store J)
    (moves : StoreOk (Confirmed w.journal) (Acknowledged w.journal) s ∧ Later w.store s) :
    Good w { w with store := s } :=
  ⟨⟨moves.1, ok.packet, ok.acked⟩, moves.2, [], rfl, fun _ impossible => nomatch impossible⟩

/-- A tracker that knows nothing more about the same attempt. -/
theorem publisher_good {w : World J} (ok : WorldOk w) (publisher : Publisher)
    (known : ∀ p', publisher.pending = some p' → ∃ p, w.publisher.pending = some p ∧
      p'.attemptId = p.attemptId ∧ p'.packetId = p.packetId ∧ p'.brokerAckedAt = p.brokerAckedAt) :
    Good w { w with publisher := publisher } := by
  constructor
  · constructor
    · exact ok.store
    · intro p' k pending named
      obtain ⟨p, was, attempt, packet, _⟩ := known p' pending
      rw [attempt]
      exact ok.packet p k was (packet ▸ named)
    · intro p' pending acked
      obtain ⟨p, was, attempt, packet, broker⟩ := known p' pending
      rw [attempt, packet]
      exact ok.acked p was (broker ▸ acked)
  · exact ⟨Later.refl w.store, [], rfl, fun _ impossible => nomatch impossible⟩

/-- Whatever the outcome, a transaction that keeps the invariant leaves it kept. -/
theorem commit_good {β : Type} {w : World J} (ok : WorldOk w) (o : Outcome)
    (result : Option (Store J × β))
    (moves : ∀ s' answer, result = some (s', answer) →
      StoreOk (Confirmed w.journal) (Acknowledged w.journal) s' ∧ Later w.store s') :
    Good w { w with store := (commit o w.store result).1 } := by
  apply store_good ok
  rcases commit_cases o w.store result with ⟨same, _⟩ | ⟨s', answer, produced, same, _⟩
  · rw [same]
    exact ⟨ok.store, Later.refl w.store⟩
  · rw [same]
    exact moves s' answer produced

section Reconciliation

theorem recoverStep_good (f : Faults) (w : World J) (ok : WorldOk w) : Good w (recoverStep f w).1 := by
  apply commit_good ok
  intro s' answer produced
  cases produced
  exact abandonAttempts_moves _ _ _ ok.store

theorem saveStep_good (f : Faults) (w : World J) (ok : WorldOk w) : Good w (saveStep f w).1 := by
  unfold saveStep
  cases pending : w.publisher.pending with
  | none => exact Good.refl ok
  | some p =>
    simp only
    by_cases saved : p.outgoingSaved = true
    · rw [if_pos saved]
      exact Good.refl ok
    · rw [if_neg saved]
      cases packet : p.packetId with
      | none => exact Good.refl ok
      | some k =>
        cases sent : p.dispatchedAt with
        | none => exact Good.refl ok
        | some dispatched =>
          simp only
          have committed := commit_good ok f.save
            ((recordOutgoing p.attemptId k dispatched w.store).map (fun s => (s, ()))) (by
              intro s' answer produced
              obtain ⟨_, recorded, same⟩ := Option.map_eq_some_iff.mp produced
              cases same
              exact recordOutgoing_moves p.attemptId k dispatched w.store s' ok.store recorded)
          split
          · refine committed.trans fun ok' => publisher_good ok' _ ?_
            intro p' same
            cases same
            exact ⟨p, pending, rfl, packet.symm, rfl⟩
          · exact committed

theorem settleStep_good (f : Faults) (w : World J) (ok : WorldOk w) :
    Good w (settleStep f w).1 := by
  unfold settleStep
  cases pending : w.publisher.pending with
  | none => exact Good.refl ok
  | some p =>
    simp only
    have cleared : ∀ x : World J, WorldOk x → Good x { x with
        publisher := { x.publisher with pending := none } } :=
      fun x ok' => publisher_good ok' _ (fun p' impossible => nomatch impossible)
    cases acked : p.brokerAckedAt with
    | some ackedAt =>
      simp only
      obtain ⟨k, named, seen⟩ := ok.acked p pending (acked ▸ rfl)
      have confirmed : Confirmed w.journal p.attemptId := ⟨k, ok.packet p k pending named, seen⟩
      have committed := commit_good ok f.settle (accept p.attemptId ackedAt w.store) (by
        intro s' device produced
        exact accept_moves p.attemptId ackedAt w.store s' device ok.store confirmed produced)
      split
      · exact committed.trans (cleared _)
      · exact committed
    | none =>
      simp only
      by_cases lost : p.lost = true
      · rw [if_pos lost]
        have committed := commit_good ok f.settle
          (some (abandon p.attemptId "transport lost or enqueue rejected" w.store, ())) (by
            intro s' answer produced
            cases produced
            exact abandonAttempts_moves _ _ _ ok.store)
        split
        · exact committed.trans (cleared _)
        · exact committed
      · rw [if_neg lost]
        exact Good.refl ok

theorem reconcile_good (f : Faults) (w : World J) (ok : WorldOk w) : Good w (reconcile f w).1 :=
  andThen_good (andThen_good (recoverStep_good f w ok) (saveStep_good f)) (settleStep_good f)

end Reconciliation

section Actions

theorem outgoing_good (packet : Nat) (now : Int) (f : Faults) (w : World J) (ok : WorldOk w) :
    Good w (outgoing packet now f w).1 := by
  unfold outgoing
  cases pending : w.publisher.pending with
  | none => exact Good.refl ok
  | some p =>
    simp only
    split
    · exact Good.refl ok
    · rename_i allowed
      refine Good.trans ?_ (reconcile_good f _)
      constructor
      · constructor
        · exact ok.store.mono (fun a => Confirmed.mono _) (fun c known => List.mem_cons_of_mem _ known)
        · intro p' k same named
          cases same
          cases named
          exact List.mem_cons_self
        · intro p' same acked
          cases same
          obtain ⟨k, named, seen⟩ := ok.acked p pending acked
          refine ⟨packet, rfl, ?_⟩
          have agree : packet = k := by
            by_contra different
            apply allowed
            refine Or.inr ⟨named ▸ rfl, ?_⟩
            rw [named]
            exact fun h => different (Option.some.inj h).symm
          rw [agree]
          exact List.mem_cons_of_mem _ seen
      · refine ⟨Later.refl w.store, [_], rfl, ?_⟩
        intro a member
        cases List.mem_singleton.mp member

theorem puback_good (packet : Nat) (now : Int) (f : Faults) (w : World J) (ok : WorldOk w) :
    Good w (puback packet now f w).1 := by
  unfold puback
  cases pending : w.publisher.pending with
  | none => exact Good.refl ok
  | some p =>
    simp only
    split
    · rename_i named
      refine Good.trans ?_ (reconcile_good f _)
      constructor
      · constructor
        · exact ok.store.mono (fun a => Confirmed.mono _) (fun c known => List.mem_cons_of_mem _ known)
        · intro p' k same named'
          cases same
          exact List.mem_cons_of_mem _ (ok.packet p k pending named')
        · intro p' same _
          cases same
          exact ⟨packet, named, List.mem_cons_self⟩
      · refine ⟨Later.refl w.store, [_], rfl, ?_⟩
        intro a member
        cases List.mem_singleton.mp member
    · exact Good.refl ok

variable (supported : Device J → CommandKind → J → Bool)

theorem reservation_good (t : TickInput) (w : World J) (ok : WorldOk w) :
    Good w (reservation supported t w).1 := by
  unfold reservation
  cases result : reserve supported t.now t.routes t.locked w.store with
  | none => exact Good.refl ok
  | some pair =>
    obtain ⟨reserved, prepared⟩ := pair
    cases prepared with
    | none => exact Good.refl ok
    | some p =>
      have moved := store_good ok reserved
        (reserve_moves supported t.now t.routes t.locked w.store reserved p ok.store result)
      obtain ⟨_, _, _, _, _, drawn, _⟩ :=
        reserve_cases supported t.now t.routes t.locked w.store reserved p result
      have fresh : w.store.attempts.get p.attempt = none :=
        w.store.attempts.above p.attempt (Nat.le_of_eq drawn.symm)
      simp only
      cases t.reservation with
      | refused => exact Good.refl ok
      | lost => exact moved.trans fun ok' => note_good ok' _ nofun
      | done =>
        simp only
        refine Good.trans ?_ (reconcile_good t.second _)
        have tracked : WorldOk { w with
            store := reserved, publisher := w.publisher.enqueue p.attempt t.rejected } := by
          refine ⟨moved.1.store, ?_, ?_⟩
          · intro p' k same named
            cases same
            cases named
          · intro p' same acked
            cases same
            cases acked
        refine ⟨?_, moved.2.store, [_, _], rfl, ?_⟩
        · have noted := (note_good tracked (.reserved p.attempt p.command t.now w.store) nofun).1
          constructor
          · exact noted.store.mono (fun a => Confirmed.mono _)
              (fun c known => List.mem_cons_of_mem _ known)
          · intro p' k same named
            exact List.mem_cons_of_mem _ (noted.packet p' k same named)
          · intro p' same acked
            obtain ⟨k, named, seen⟩ := noted.acked p' same acked
            exact ⟨k, named, List.mem_cons_of_mem _ seen⟩
        · intro a member
          cases member with
          | head => exact fresh
          | tail _ rest => cases List.mem_singleton.mp rest

theorem tick_good (t : TickInput) (w : World J) (ok : WorldOk w) :
    Good w (tick supported t w).1 := by
  apply andThen_good (reconcile_good t.first w ok)
  intro x ok'
  split
  · exact Good.refl ok'
  · exact reservation_good supported t x ok'

variable [DecidableEq J]

theorem step_good (w : World J) (action : Action J) (ok : WorldOk w) :
    Good w (step supported w action) := by
  cases action with
  | queue device kind payload wire by_ =>
    exact store_good ok _ (queue_moves device kind payload wire by_ w.store ok.store)
  | cancel device id now username =>
    exact store_good ok _ (cancel_moves device id now username w.store ok.store)
  | tick t => exact tick_good supported t w ok
  | outgoing packet now f => exact outgoing_good packet now f w ok
  | puback packet now f => exact puback_good packet now f w ok
  | disconnected =>
    refine Good.trans (publisher_good ok w.publisher.disconnected ?_) fun ok' => note_good ok' _ nofun
    intro p' same
    obtain ⟨p, was, rfl⟩ := Option.map_eq_some_iff.mp same
    exact ⟨p, was, rfl, rfl, rfl⟩
  | connected value =>
    exact publisher_good ok _ (fun p' same => ⟨p', same, rfl, rfl, rfl⟩)
  | reconcile f => exact reconcile_good f w ok
  | ancillary ack =>
    simp only [step, World.acknowledge]
    cases matched : candidate ack w.store with
    | none =>
      exact store_good ok _ (ancillary_moves ack w.store ok.store (by
        intro id c impossible
        rw [matched] at impossible
        cases impossible))
    | some pair =>
      obtain ⟨id, c⟩ := pair
      obtain ⟨noted, advanced⟩ := note_good ok (.firmwareAck id) nofun
      obtain ⟨ok', later⟩ := ancillary_moves ack w.store noted.store (by
        intro id' c' same
        rw [matched] at same
        cases same
        exact List.mem_cons_self)
      exact ⟨⟨ok', noted.packet, noted.acked⟩, later, [_], rfl, fun a member => by
        cases List.mem_singleton.mp member⟩
  | presence device now status =>
    have moved := store_good ok (devicePresence device now status w.store)
      (updateDevice_moves w.store device _ ok.store)
    cases status with
    | awake => exact moved.trans fun ok' => note_good ok' _ nofun
    | asleep => exact moved.trans fun ok' => note_good ok' _ nofun
  | invalidate => exact store_good ok _ (invalidateReady_moves w.store ok.store)
  | crash =>
    exact Good.trans (publisher_good ok {} nofun) fun ok' => note_good ok' _ nofun
  | recover => exact store_good ok _ (abandonAttempts_moves _ _ _ ok.store)

omit [DecidableEq J] in
theorem start_ok (devices : DeviceId → Device J) : WorldOk (World.start devices) := by
  refine ⟨⟨?_, ?_, ?_, ?_, ?_, ?_, ?_, ?_, ?_⟩, nofun, nofun⟩
  all_goals intro x row
  all_goals simp only [World.start, Table.get_empty, reduceCtorEq, false_implies, implies_true]

theorem run_ok (devices : DeviceId → Device J) (actions : List (Action J)) :
    WorldOk (Runs.run (step supported) (World.start devices) actions) :=
  Runs.run_invariant (step supported) WorldOk
    (fun w action ok => (step_good supported w action ok).1) _ actions (start_ok devices)

theorem run_advances (w : World J) (actions : List (Action J)) (ok : WorldOk w) :
    Advances w (Runs.run (step supported) w actions) :=
  Runs.run_monotone (step supported) WorldOk Advances Advances.refl
    (fun _ _ _ first second => first.trans second)
    (fun w action ok => (step_good supported w action ok).1)
    (fun w action ok => (step_good supported w action ok).2) w actions ok

end Actions

section Contract

/-- The active attempt of a command is its one attempt that is prepared or inflight. -/
def ActiveIsUnsettled (w : World J) : Prop :=
  ∀ c cmd, w.store.commands.get c = some cmd → ∀ a, cmd.activePublishAttempt = some a ↔
    (∃ att, w.store.attempts.get a = some att ∧ att.command = c ∧
      (att.state = .prepared ∨ att.state = .inflight)) ∧
    ∀ b att, w.store.attempts.get b = some att → att.command = c →
      (att.state = .prepared ∨ att.state = .inflight) → b = a

/-- A broker acknowledgement or a delivered state appears only with a newly accepted attempt whose
packet was seen leaving and seen confirmed. -/
def DeliveredByPuback (w w' : World J) : Prop :=
  ∀ c cmd cmd', w.store.commands.get c = some cmd → w'.store.commands.get c = some cmd' →
    (cmd'.brokerAckedAt ≠ cmd.brokerAckedAt ∨
      (cmd.state = .queued ∧ (cmd'.state = .sent ∨ cmd'.state = .acked))) →
    ∃ a att packet, w'.store.attempts.get a = some att ∧ att.command = c ∧ att.state = .accepted ∧
      (∀ old, w.store.attempts.get a = some old → old.state ≠ .accepted) ∧
      Event.outgoing a packet ∈ w'.journal ∧ Event.puback a packet ∈ w'.journal

/-- No attempt of the command is created or enqueued between the two worlds. -/
def NoFurtherAttempt (w w' : World J) (c : CommandId) : Prop :=
  (∀ a att', w'.store.attempts.get a = some att' → att'.command = c →
    ∃ att, w.store.attempts.get a = some att) ∧
  ∃ new, w'.journal = new ++ w.journal ∧ ∀ a att', Event.enqueued a ∈ new →
    w'.store.attempts.get a = some att' → att'.command ≠ c

def CancelledIsFinal (w w' : World J) : Prop :=
  ∀ c cmd, w.store.commands.get c = some cmd → cmd.state = .cancelled →
    (∃ cmd', w'.store.commands.get c = some cmd' ∧ cmd'.state = .cancelled) ∧ NoFurtherAttempt w w' c

/-- Without an expected firmware acknowledgement broker acceptance is terminal; with one, the
acknowledged state needs both confirmations. -/
def AckDiscipline (w w' : World J) : Prop :=
  ∀ c cmd, w.store.commands.get c = some cmd →
    (cmd.firmwareAckExpected = false → cmd.state ≠ .acked ∧ (cmd.state = .sent →
      (∃ cmd', w'.store.commands.get c = some cmd' ∧
        (cmd'.state = .sent ∨ cmd'.state = .cancelled)) ∧ NoFurtherAttempt w w' c)) ∧
    (cmd.firmwareAckExpected = true → cmd.state = .acked → cmd.brokerAckedAt.isSome ∧
      Event.firmwareAck c ∈ w.journal ∧
      ∃ a att packet, w.store.attempts.get a = some att ∧ att.command = c ∧ att.state = .accepted ∧
        Event.outgoing a packet ∈ w.journal ∧ Event.puback a packet ∈ w.journal)

omit [Jsonb J] in
theorem unsettled_iff (a : Attempt J) :
    a.unsettled = true ↔ a.state = .prepared ∨ a.state = .inflight := by
  simp only [Attempt.unsettled, Bool.or_eq_true, decide_eq_true_eq]

theorem active_is_unsettled (w : World J) (ok : WorldOk w) : ActiveIsUnsettled w := by
  intro c cmd found a
  simp only [← unsettled_iff]
  constructor
  · intro active
    refine ⟨ok.store.active_unsettled c cmd a found active, ?_⟩
    intro b att found_b named open_
    obtain ⟨cmd', found', active'⟩ := ok.store.unsettled_active b att found_b open_
    rw [named, found] at found'
    cases found'
    exact Option.some.inj (active'.symm.trans active)
  · rintro ⟨⟨att, found_a, named, open_⟩, _⟩
    obtain ⟨cmd', found', active⟩ := ok.store.unsettled_active a att found_a open_
    rw [named, found] at found'
    cases found'
    exact active

theorem delivered_by_puback (w w' : World J) (ok' : WorldOk w') (advances : Advances w w') :
    DeliveredByPuback w w' := by
  intro c cmd cmd' found found' changed
  obtain ⟨a, att, found_a, named, accepted, fresh⟩ :=
    advances.store.new_delivery c cmd cmd' found found' changed
  obtain ⟨packet, out, back⟩ := ok'.store.accepted_confirmed a att found_a accepted
  exact ⟨a, att, packet, found_a, named, accepted, fresh, out, back⟩

theorem finished_has_no_further_attempt (w w' : World J) (advances : Advances w w') (c : CommandId)
    (cmd : Command J) (found : w.store.commands.get c = some cmd) (finished : cmd.finished) :
    NoFurtherAttempt w w' c := by
  have created : ∀ a att', w'.store.attempts.get a = some att' → att'.command = c →
      ∃ att, w.store.attempts.get a = some att := by
    intro a att' found_a named
    cases before : w.store.attempts.get a with
    | some att => exact ⟨att, rfl⟩
    | none =>
      subst named
      exact absurd finished (advances.store.new_attempt a att' found_a before cmd found)
  obtain ⟨new, journal, fresh⟩ := advances.journal
  refine ⟨created, new, journal, ?_⟩
  intro a att' enqueued found_a named
  obtain ⟨att, before⟩ := created a att' found_a named
  rw [fresh a enqueued] at before
  cases before

theorem cancelled_is_final (w w' : World J) (advances : Advances w w') : CancelledIsFinal w w' := by
  intro c cmd found cancelled
  obtain ⟨cmd', found', _, _, _, _, stays⟩ := advances.store.command_stays c cmd found
  exact ⟨⟨cmd', found', stays cancelled⟩,
    finished_has_no_further_attempt w w' advances c cmd found (Or.inl cancelled)⟩

theorem ack_discipline (w w' : World J) (ok : WorldOk w) (advances : Advances w w') :
    AckDiscipline w w' := by
  intro c cmd found
  constructor
  · intro unexpected
    constructor
    · intro acked
      rw [(ok.store.acked_evidence c cmd found acked).1] at unexpected
      cases unexpected
    · intro sent
      have finished : cmd.finished := Or.inr ⟨sent, unexpected⟩
      obtain ⟨cmd', found', _, _, _, stays, _⟩ := advances.store.command_stays c cmd found
      refine ⟨⟨cmd', found', ?_⟩, finished_has_no_further_attempt w w' advances c cmd found finished⟩
      rcases stays finished with cancelled | ⟨sent', _⟩
      · exact Or.inr cancelled
      · exact Or.inl sent'
  · intro _ acked
    obtain ⟨broker, a, att, found_a, named, accepted⟩ :=
      ok.store.delivered c cmd found (Or.inr (Or.inr acked))
    obtain ⟨packet, out, back⟩ := ok.store.accepted_confirmed a att found_a accepted
    exact ⟨broker, (ok.store.acked_evidence c cmd found acked).2, a, att, packet, found_a, named,
      accepted, out, back⟩

/-- Every reachable world, and every world reached from it. -/
theorem publish_attempts_sound [DecidableEq J] (supported : Device J → CommandKind → J → Bool)
    (devices : DeviceId → Device J) (actions further : List (Action J)) :
    let w := Runs.run (step supported) (World.start devices) actions
    let w' := Runs.run (step supported) w further
    ActiveIsUnsettled w ∧ DeliveredByPuback w w' ∧ CancelledIsFinal w w' ∧ AckDiscipline w w' := by
  intro w w'
  have ok : WorldOk w := run_ok supported devices actions
  have advances : Advances w w' := run_advances supported w further ok
  have ok' : WorldOk w' := Runs.run_invariant (step supported) WorldOk
    (fun x action ok => (step_good supported x action ok).1) w further ok
  exact ⟨active_is_unsettled w ok, delivered_by_puback w w' ok' advances,
    cancelled_is_final w w' advances, ack_discipline w w' ok advances⟩

end Contract

end NixHomeServer.Groundwater.Dispatch
