import Mathlib.Data.List.Induction
import NixHomeServer.Groundwater.Dispatch

/-! Firmware acknowledgements and the broker confirmation commute.
Before the confirmation an acknowledgement is buffered on the inflight attempt
and merged by `accept`; after it, it updates the sent command directly. Both
end in the row `settledCommand`, which depends on the acknowledgements only. -/
namespace NixHomeServer.Groundwater.Dispatch

open NixHomeServer.Library

variable {J : Type} [Jsonb J]

section Definitions

def bufferedAt (acks : List (FirmwareAck J)) (old : Option Int) : Option Int :=
  acks.foldl (fun at_ ack => some (at_.getD ack.now)) old

def bufferedPayload (acks : List (FirmwareAck J)) (old : Option J) : Option J :=
  acks.foldl (fun payload ack => accumulate ack payload) old

def Attempt.buffer (acks : List (FirmwareAck J)) (a : Attempt J) : Attempt J :=
  { a with
    firmwareAckedAt := bufferedAt acks a.firmwareAckedAt
    firmwareAckPayload := bufferedPayload acks a.firmwareAckPayload }

/-- The command after the confirmation and the acknowledgements, in whatever order they came. -/
def settledCommand (a : Attempt J) (ackedAt : Int) (acks : List (FirmwareAck J)) (c : Command J) :
    Command J :=
  acceptCommand (a.buffer acks) (a.dispatchedAt.getD 0) ackedAt c

def settledConfig (a : Attempt J) (acks : List (FirmwareAck J)) (c : Command J) (old : Option J) :
    Option J :=
  if c.kind = .cfg && (bufferedAt acks a.firmwareAckedAt).isSome then
    some (Jsonb.merge (old.getD Jsonb.emptyObject) c.payload)
  else old

/-- Merging the same toggles a second time changes nothing, as `||` does on JSON objects. -/
def MergeAgain (payload : J) (old : Option J) : Prop :=
  Jsonb.merge (Jsonb.merge (old.getD Jsonb.emptyObject) payload) payload =
    Jsonb.merge (old.getD Jsonb.emptyObject) payload

def applyAcks [DecidableEq J] (acks : List (FirmwareAck J)) (s : Store J) : Store J :=
  acks.foldl (fun s ack => ancillary ack s) s

end Definitions

section Buffers

omit [Jsonb J] in
theorem bufferedAt_append (early late : List (FirmwareAck J)) (old : Option Int) :
    bufferedAt (early ++ late) old = bufferedAt late (bufferedAt early old) :=
  List.foldl_append

theorem bufferedPayload_append (early late : List (FirmwareAck J)) (old : Option J) :
    bufferedPayload (early ++ late) old = bufferedPayload late (bufferedPayload early old) :=
  List.foldl_append

omit [Jsonb J] in
theorem bufferedAt_isSome (acks : List (FirmwareAck J)) (old : Option Int) :
    (bufferedAt acks old).isSome = true ↔ old.isSome = true ∨ acks ≠ [] := by
  induction acks generalizing old with
  | nil => simp only [bufferedAt, List.foldl_nil, ne_eq, not_true, or_false]
  | cons ack rest ih =>
    have next := ih (some (old.getD ack.now))
    simp only [bufferedAt, List.foldl_cons] at next ⊢
    simp only [next, Option.isSome_some, true_or, ne_eq, reduceCtorEq, not_false_eq_true, or_true]

end Buffers

section Matching

variable [DecidableEq J]

/-- The match of an acknowledgement, seen from the id of a command. -/
def matchesId (ack : FirmwareAck J) (s : Store J) (id : CommandId) : Bool :=
  (s.commands.get id).any (matchesAck ack s)

theorem candidate_id (ack : FirmwareAck J) (s : Store J) :
    (candidate ack s).map Prod.fst =
      ((List.range s.commands.next).filter (matchesId ack s)).getLast? := by
  rw [candidate, ← List.getLast?_map, Table.select_ids]
  rfl

/-- Stores in which the same commands match choose the same command. -/
theorem candidate_congr (ack : FirmwareAck J) (s s' : Store J) (id : CommandId) (row : Command J)
    (next : s'.commands.next = s.commands.next)
    (same : ∀ x, matchesId ack s' x = matchesId ack s x)
    (chosen : (candidate ack s).map Prod.fst = some id) (found : s'.commands.get id = some row) :
    candidate ack s' = some (id, row) := by
  have ids : (candidate ack s').map Prod.fst = some id := by
    rw [candidate_id, next, funext same, ← candidate_id]
    exact chosen
  obtain ⟨⟨id', row'⟩, picked, named⟩ := Option.map_eq_some_iff.mp ids
  cases named
  have found' := (candidate_matches ack s' id' row' picked).1
  rw [found] at found'
  cases found'
  exact picked

end Matching

section Stages

variable [DecidableEq J]

/-- The part of the active attempt that decides a match. -/
def joined (s : Store J) (row : Command J) : Option (Option Int × Int) :=
  (inflightAttempt s row).map (fun pair => (pair.2.dispatchedAt, pair.2.readyAt))

theorem matchesAck_congr (ack : FirmwareAck J) (s s' : Store J) (row : Command J)
    (window : (s'.devices row.device).presenceStatus = (s.devices row.device).presenceStatus ∧
      (s'.devices row.device).lastReadyAt = (s.devices row.device).lastReadyAt)
    (same : joined s' row = joined s row) : matchesAck ack s' row = matchesAck ack s row := by
  have sent : sentInWindow ack s' row = sentInWindow ack s row := by
    unfold joined at same
    simp only [sentInWindow, window.2]
    cases before : inflightAttempt s row with
    | none =>
      cases after : inflightAttempt s' row with
      | none => rfl
      | some pair =>
        rw [before, after] at same
        cases same
    | some pair =>
      cases after : inflightAttempt s' row with
      | none =>
        rw [before, after] at same
        cases same
      | some pair' =>
        rw [before, after] at same
        simp only [Option.map_some, Option.some.injEq, Prod.mk.injEq] at same
        simp only [same.1, same.2]
  simp only [matchesAck, window.1, window.2, sent]

/-- An inflight attempt of a command that has not been settled. -/
structure Outstanding (s : Store J) (c : CommandId) (cmd : Command J) (a : AttemptId)
    (att : Attempt J) : Prop where
  found : s.commands.get c = some cmd
  active : cmd.activePublishAttempt = some a
  attempt : s.attempts.get a = some att
  inflight : att.state = .inflight
  command : att.command = c
  sole : ∀ x row, s.commands.get x = some row → row.activePublishAttempt = some a → x = c
  unsettled : cmd.state ≠ .cancelled

omit [DecidableEq J] in
theorem Outstanding.of_ok {confirmed : AttemptId → Prop} {acknowledged : CommandId → Prop}
    {s : Store J} (ok : StoreOk confirmed acknowledged s) (c : CommandId) (cmd : Command J)
    (a : AttemptId) (att : Attempt J) (found : s.commands.get c = some cmd)
    (active : cmd.activePublishAttempt = some a) (attempt : s.attempts.get a = some att)
    (inflight : att.state = .inflight) : Outstanding s c cmd a att := by
  have owner : ∀ x row, s.commands.get x = some row → row.activePublishAttempt = some a →
      att.command = x := by
    intro x row found_x active_x
    obtain ⟨att', attempt', named, _⟩ := ok.active_unsettled x row a found_x active_x
    rw [attempt] at attempt'
    cases attempt'
    exact named
  have command := owner c cmd found active
  refine ⟨found, active, attempt, inflight, command, ?_, ?_⟩
  · intro x row found_x active_x
    exact (owner x row found_x active_x).symm.trans command
  · intro cancelled
    rw [ok.finished_idle c cmd found (Or.inl cancelled)] at active
    cases active

/-- The acknowledgements so far are buffered on the attempt and nothing else has moved. -/
structure Buffered (s s' : Store J) (cmd : Command J) (a : AttemptId) (att : Attempt J)
    (acks : List (FirmwareAck J)) : Prop where
  commands : s'.commands = s.commands
  attempt : s'.attempts.get a = some (att.buffer acks)
  others : ∀ x, x ≠ a → s'.attempts.get x = s.attempts.get x
  window : ∀ d, (s'.devices d).presenceStatus = (s.devices d).presenceStatus ∧
    (s'.devices d).lastReadyAt = (s.devices d).lastReadyAt
  config : (s'.devices cmd.device).appliedConfig = (s.devices cmd.device).appliedConfig

/-- The broker has confirmed the attempt and the acknowledgements so far have been merged. -/
structure Settled (s s' : Store J) (c : CommandId) (cmd : Command J) (a : AttemptId)
    (att : Attempt J) (ackedAt : Int) (acks : List (FirmwareAck J)) : Prop where
  command : s'.commands.get c = some (settledCommand att ackedAt acks cmd)
  commands : ∀ x, x ≠ c → s'.commands.get x = s.commands.get x
  next : s'.commands.next = s.commands.next
  attempts : ∀ x, x ≠ a → s'.attempts.get x = s.attempts.get x
  window : ∀ d, (s'.devices d).presenceStatus = (s.devices d).presenceStatus ∧
    (s'.devices d).lastReadyAt = (s.devices d).lastReadyAt
  config : (s'.devices cmd.device).appliedConfig =
    settledConfig att acks cmd (s.devices cmd.device).appliedConfig

omit [DecidableEq J] in
theorem joined_inflight (s : Store J) (row : Command J) (a : AttemptId) (att : Attempt J)
    (active : row.activePublishAttempt = some a) (attempt : s.attempts.get a = some att)
    (inflight : att.state = .inflight) : inflightAttempt s row = some (a, att) := by
  simp only [inflightAttempt, active, attempt, inflight, if_true]

omit [DecidableEq J] in
theorem joined_other (s s' : Store J) (row : Command J) (a : AttemptId)
    (other : row.activePublishAttempt ≠ some a)
    (same : ∀ x, x ≠ a → s'.attempts.get x = s.attempts.get x) : joined s' row = joined s row := by
  unfold joined inflightAttempt
  cases active : row.activePublishAttempt with
  | none => rfl
  | some x =>
    have distinct : x ≠ a := by
      intro hit
      rw [active, hit] at other
      exact other rfl
    simp only [same x distinct]

/-- What a match in the first store says about the command and its inflight attempt. -/
theorem outstanding_match (ack : FirmwareAck J) (s : Store J) (c : CommandId) (cmd : Command J)
    (a : AttemptId) (att : Attempt J) (out : Outstanding s c cmd a att)
    (chosen : (candidate ack s).map Prod.fst = some c) :
    matchesAck ack s cmd = true ∧ cmd.device = ack.device ∧ cmd.kind = ack.kind ∧
      cmd.firmwareAckExpected = true ∧
      (∃ dispatched, att.dispatchedAt = some dispatched ∧ dispatched ≤ ack.now) ∧
      some att.readyAt = (s.devices cmd.device).lastReadyAt ∧
      (ack.kind ≠ .cfg ∨ cmd.payload = ack.payload) ∧
      (s.devices cmd.device).presenceStatus = some .awake ∧
      (match (s.devices cmd.device).lastReadyAt with
        | some ready => decide (ack.now - seconds 480 < ready)
        | none => false) = true := by
  have picked := candidate_congr ack s s c cmd rfl (fun _ => rfl) chosen out.found
  have fits := (candidate_matches ack s c cmd picked).2
  refine ⟨fits, ?_⟩
  simp only [matchesAck, Bool.and_eq_true, Bool.or_eq_true, decide_eq_true_eq] at fits
  obtain ⟨⟨⟨⟨⟨⟨⟨device, kind⟩, expected⟩, _⟩, awake⟩, fresh⟩, window⟩, echo⟩ := fits
  simp only [sentInWindow, joined_inflight s cmd a att out.active out.attempt out.inflight,
    Bool.and_eq_true, decide_eq_true_eq] at window
  obtain ⟨went, ready⟩ := window
  refine ⟨device, kind, expected, ?_, ready, echo, awake, fresh⟩
  cases dispatched : att.dispatchedAt with
  | none =>
    rw [dispatched] at went
    cases went
  | some instant =>
    rw [dispatched] at went
    exact ⟨instant, rfl, of_decide_eq_true went⟩

omit [DecidableEq J] in
theorem buffered_start (s : Store J) (c : CommandId) (cmd : Command J) (a : AttemptId)
    (att : Attempt J) (out : Outstanding s c cmd a att) : Buffered s s cmd a att [] :=
  ⟨rfl, out.attempt, fun _ _ => rfl, fun _ => ⟨rfl, rfl⟩, rfl⟩

omit [DecidableEq J] in
theorem seen_window (ack : FirmwareAck J) (s : Store J) (d : DeviceId) :
    ((s.updateDevice ack.device (signOfLife ack)).devices d).presenceStatus =
        (s.devices d).presenceStatus ∧
      ((s.updateDevice ack.device (signOfLife ack)).devices d).lastReadyAt = (s.devices d).lastReadyAt ∧
      ((s.updateDevice ack.device (signOfLife ack)).devices d).appliedConfig =
        (s.devices d).appliedConfig := by
  by_cases own : d = ack.device
  · subst own
    simp only [Store.updateDevice, Function.update_self, signOfLife]
    split <;> exact ⟨rfl, rfl, rfl⟩
  · simp only [Store.updateDevice, Function.update_of_ne own, and_self]

theorem buffered_step (ack : FirmwareAck J) (s s' : Store J) (c : CommandId) (cmd : Command J)
    (a : AttemptId) (att : Attempt J) (acks : List (FirmwareAck J))
    (out : Outstanding s c cmd a att) (stage : Buffered s s' cmd a att acks)
    (chosen : (candidate ack s).map Prod.fst = some c) :
    Buffered s (ancillary ack s') cmd a att (acks ++ [ack]) := by
  have inflight' : (att.buffer acks).state = .inflight := out.inflight
  have same : ∀ x, matchesId ack s' x = matchesId ack s x := by
    intro x
    unfold matchesId
    rw [stage.commands]
    cases found_x : s.commands.get x with
    | none => rfl
    | some row =>
      apply matchesAck_congr ack s s' row (stage.window row.device)
      by_cases points : row.activePublishAttempt = some a
      · unfold joined
        rw [joined_inflight s row a att points out.attempt out.inflight,
          joined_inflight s' row a _ points stage.attempt inflight']
        rfl
      · exact joined_other s s' row a points stage.others
  have found' : s'.commands.get c = some cmd := stage.commands ▸ out.found
  have picked := candidate_congr ack s s' c cmd (stage.commands ▸ rfl) same chosen found'
  rw [ancillary_eq, picked]
  simp only [joined_inflight s' cmd a _ out.active stage.attempt inflight']
  constructor
  · exact stage.commands
  · change (s'.attempts.modify a _).get a = _
    rw [Table.get_modify_self, stage.attempt]
    simp only [Attempt.buffer, bufferedAt_append, bufferedPayload_append, Option.map_some]
    rfl
  · intro x other
    change (s'.attempts.modify a _).get x = _
    rw [Table.get_modify_of_ne _ _ _ _ other]
    exact stage.others x other
  · intro d
    obtain ⟨presence, ready, _⟩ := seen_window ack s' d
    exact ⟨presence.trans (stage.window d).1, ready.trans (stage.window d).2⟩
  · exact (seen_window ack s' cmd.device).2.2.trans stage.config

/-- The deliveries after the broker has confirmed an attempt. -/
def confirmedDeliveries (deliveries : Table OutDelivery) (attempt : Attempt J) : Table OutDelivery :=
  match attempt.deliveryId with
  | some delivery => deliveries.modify delivery (fun d => { d with state := .brokerAccepted })
  | none => deliveries

theorem accept_settles (ack : FirmwareAck J) (s s' : Store J) (c : CommandId) (cmd : Command J)
    (a : AttemptId) (att : Attempt J) (ackedAt : Int) (acks : List (FirmwareAck J))
    (out : Outstanding s c cmd a att) (stage : Buffered s s' cmd a att acks)
    (chosen : (candidate ack s).map Prod.fst = some c) :
    ∃ t, accept a ackedAt s' = some (t, some cmd.device) ∧ Settled s t c cmd a att ackedAt acks := by
  obtain ⟨_, _, _, expected, ⟨dispatched, went, _⟩, _, _⟩ :=
    outstanding_match ack s c cmd a att out chosen
  have found' : s'.commands.get (att.buffer acks).command = some cmd := by
    rw [stage.commands]
    exact out.command ▸ out.found
  have kind : cmd.kind ≠ .projectSettings := by
    intro settings
    simp only [Command.firmwareAckExpected, settings, ne_eq, not_true, decide_false,
      Bool.false_and, Bool.false_eq_true] at expected
  have state : (att.buffer acks).state = .inflight := out.inflight
  have sent : (att.buffer acks).dispatchedAt = some dispatched := went
  have device : ∃ d, acceptDevice (att.buffer acks) ackedAt cmd (s'.devices cmd.device) = some d ∧
      d.presenceStatus = (s'.devices cmd.device).presenceStatus ∧
      d.lastReadyAt = (s'.devices cmd.device).lastReadyAt ∧
      d.appliedConfig = settledConfig att acks cmd (s'.devices cmd.device).appliedConfig := by
    unfold acceptDevice settledConfig
    rw [if_neg kind]
    by_cases merged : (decide (cmd.kind = .cfg) && (att.buffer acks).firmwareAckedAt.isSome) = true
    · rw [if_pos merged]
      refine ⟨_, rfl, rfl, rfl, ?_⟩
      rw [if_pos (by simpa only [Attempt.buffer, Bool.and_eq_true, decide_eq_true_eq] using merged)]
    · rw [if_neg merged]
      refine ⟨_, rfl, rfl, rfl, ?_⟩
      rw [if_neg (by simpa only [Attempt.buffer, Bool.and_eq_true, decide_eq_true_eq] using merged)]
  obtain ⟨d, updated, presence, ready, config⟩ := device
  have unaccepted : ¬(att.buffer acks).state = .accepted := by
    rw [state]
    decide
  have allowed : ¬(att.buffer acks).state ≠ .inflight := fun h => h state
  have result : accept a ackedAt s' = some ({ s' with
      attempts := s'.attempts.modify a (fun a =>
        { a with state := .accepted, brokerAckedAt := some ackedAt })
      deliveries := confirmedDeliveries s'.deliveries (att.buffer acks)
      commands := s'.commands.modify (att.buffer acks).command
        (acceptCommand (att.buffer acks) dispatched ackedAt)
      devices := Function.update s'.devices cmd.device d }, some cmd.device) := by
    simp only [accept, stage.attempt, found', if_neg unaccepted, if_neg allowed, sent,
      if_neg out.unsettled, updated]
    all_goals rfl
  refine ⟨_, result, ?_⟩
  have own : (att.buffer acks).command = c := out.command
  constructor
  · change (s'.commands.modify (att.buffer acks).command _).get c = _
    rw [own, Table.get_modify_self, stage.commands, out.found]
    simp only [settledCommand, went, Option.getD_some, Option.map_some]
  · intro x other
    change (s'.commands.modify (att.buffer acks).command _).get x = _
    rw [own, Table.get_modify_of_ne _ _ _ _ other, stage.commands]
  · change s'.commands.next = _
    rw [stage.commands]
  · intro x other
    change (s'.attempts.modify a _).get x = _
    rw [Table.get_modify_of_ne _ _ _ _ other]
    exact stage.others x other
  · intro x
    by_cases same : x = cmd.device
    · subst same
      simp only [Function.update_self]
      exact ⟨presence.trans (stage.window _).1, ready.trans (stage.window _).2⟩
    · simp only [Function.update_of_ne same]
      exact stage.window x
  · simp only [Function.update_self]
    rw [config, stage.config]

omit [DecidableEq J] in
theorem settled_state (a : Attempt J) (ackedAt : Int) (acks : List (FirmwareAck J)) (c : Command J)
    (expected : c.firmwareAckExpected = true) :
    (settledCommand a ackedAt acks c).state =
      if (bufferedAt acks a.firmwareAckedAt).isSome then .acked else .sent := by
  simp only [settledCommand, acceptCommand, expected, Bool.true_and]
  rfl

/-- After the confirmation the same acknowledgement still picks the same command. -/
theorem settled_match (ack : FirmwareAck J) (s s' : Store J) (c : CommandId) (cmd : Command J)
    (a : AttemptId) (att : Attempt J) (ackedAt : Int) (acks : List (FirmwareAck J))
    (out : Outstanding s c cmd a att) (stage : Settled s s' c cmd a att ackedAt acks)
    (chosen : (candidate ack s).map Prod.fst = some c)
    (once : cmd.kind = .test ∨ bufferedAt acks att.firmwareAckedAt = none) :
    candidate ack s' = some (c, settledCommand att ackedAt acks cmd) := by
  obtain ⟨fits, device, kind, expected, ⟨dispatched, went, before⟩, ready, echo, awake, fresh⟩ :=
    outstanding_match ack s c cmd a att out chosen
  have row_expected : (settledCommand att ackedAt acks cmd).firmwareAckExpected = true :=
    (expected_congr rfl rfl).trans expected
  have states : ((settledCommand att ackedAt acks cmd).state = .sent ∨
      (ack.kind = .test ∧ (settledCommand att ackedAt acks cmd).state = .acked)) := by
    rw [settled_state att ackedAt acks cmd expected]
    rcases once with test | empty
    · split
      · exact Or.inr ⟨kind ▸ test, rfl⟩
      · exact Or.inl rfl
    · rw [empty]
      exact Or.inl rfl
  have window : sentInWindow ack s' (settledCommand att ackedAt acks cmd) = true := by
    have free : inflightAttempt s' (settledCommand att ackedAt acks cmd) = none := rfl
    have broker : (settledCommand att ackedAt acks cmd).brokerAckedAt = some ackedAt := rfl
    have sent : (settledCommand att ackedAt acks cmd).sentAt = some dispatched := by
      simp only [settledCommand, acceptCommand, went, Option.getD_some]
    have last : (settledCommand att ackedAt acks cmd).lastReadyAt = some att.readyAt := rfl
    have at_device : (settledCommand att ackedAt acks cmd).device = cmd.device := rfl
    simp only [sentInWindow, free, broker, sent, last, at_device, (stage.window cmd.device).2, ← ready,
      Option.isSome_some, Bool.and_true, Bool.and_eq_true, Bool.or_eq_true, decide_eq_true_eq]
    refine ⟨⟨?_, before⟩, trivial⟩
    rcases states with sent | ⟨_, acked⟩
    · exact Or.inl sent
    · exact Or.inr acked
  have own : matchesAck ack s' (settledCommand att ackedAt acks cmd) = true := by
    have row_device : (settledCommand att ackedAt acks cmd).device = cmd.device := rfl
    have row_kind : (settledCommand att ackedAt acks cmd).kind = cmd.kind := rfl
    have row_payload : (settledCommand att ackedAt acks cmd).payload = cmd.payload := rfl
    simp only [matchesAck, Bool.and_eq_true, Bool.or_eq_true, decide_eq_true_eq, row_device, row_kind,
      row_payload, row_expected, (stage.window cmd.device).1, (stage.window cmd.device).2, window]
    refine ⟨⟨⟨⟨⟨⟨⟨device, kind⟩, trivial⟩, ?_⟩, awake⟩, fresh⟩, trivial⟩, echo⟩
    rcases states with sent | finalized
    · exact Or.inl (Or.inr sent)
    · exact Or.inr finalized
  apply candidate_congr ack s s' c _ stage.next ?_ chosen stage.command
  intro x
  by_cases same : x = c
  · subst same
    simp only [matchesId, stage.command, out.found, Option.any_some, own, fits]
  · simp only [matchesId, stage.commands x same]
    cases found_x : s.commands.get x with
    | none => rfl
    | some row =>
      apply matchesAck_congr ack s s' row (stage.window row.device)
      exact joined_other s s' row a (fun points => same (out.sole x row found_x points)) stage.attempts

theorem settled_step (ack : FirmwareAck J) (s s' : Store J) (c : CommandId) (cmd : Command J)
    (a : AttemptId) (att : Attempt J) (ackedAt : Int) (acks : List (FirmwareAck J))
    (out : Outstanding s c cmd a att) (stage : Settled s s' c cmd a att ackedAt acks)
    (chosen : (candidate ack s).map Prod.fst = some c)
    (once : cmd.kind = .test ∨ bufferedAt acks att.firmwareAckedAt = none) :
    Settled s (ancillary ack s') c cmd a att ackedAt (acks ++ [ack]) := by
  obtain ⟨_, device, kind, expected, _, _, echo, _, _⟩ :=
    outstanding_match ack s c cmd a att out chosen
  have picked := settled_match ack s s' c cmd a att ackedAt acks out stage chosen once
  have free : inflightAttempt s' (settledCommand att ackedAt acks cmd) = none := rfl
  have row : ({ settledCommand att ackedAt acks cmd with
      state := .acked
      ackedAt := some ((settledCommand att ackedAt acks cmd).ackedAt.getD ack.now)
      ackPayload := accumulate ack (settledCommand att ackedAt acks cmd).ackPayload } : Command J) =
      settledCommand att ackedAt (acks ++ [ack]) cmd := by
    simp only [settledCommand, acceptCommand, expected, Attempt.buffer, bufferedAt_append,
      bufferedPayload_append, Bool.true_and, if_true]
    rfl
  have seen := fun d => seen_window ack s' d
  rw [ancillary_eq, picked]
  simp only [free]
  have modified : (s'.commands.modify c (fun c => { c with
      state := .acked
      ackedAt := some (c.ackedAt.getD ack.now)
      ackPayload := accumulate ack c.ackPayload })).get c =
      some (settledCommand att ackedAt (acks ++ [ack]) cmd) := by
    rw [Table.get_modify_self, stage.command, Option.map_some, row]
  by_cases config : ack.kind = .cfg
  · rw [if_pos config]
    have payload : cmd.payload = ack.payload := by
      rcases echo with other | same
      · exact absurd config other
      · exact same
    have cfg_kind : cmd.kind = .cfg := kind.trans config
    have empty : bufferedAt acks att.firmwareAckedAt = none := by
      rcases once with test | empty
      · rw [cfg_kind] at test
        cases test
      · exact empty
    constructor
    · exact modified
    · intro x other
      change (s'.commands.modify c _).get x = _
      rw [Table.get_modify_of_ne _ _ _ _ other]
      exact stage.commands x other
    · exact stage.next
    · exact stage.attempts
    · intro d
      by_cases same : d = ack.device
      · subst same
        simp only [Store.updateDevice, Function.update_self]
        obtain ⟨presence, ready, _⟩ := seen ack.device
        simp only [Store.updateDevice, Function.update_self] at presence ready
        exact ⟨presence.trans (stage.window _).1, ready.trans (stage.window _).2⟩
      · simp only [Store.updateDevice, Function.update_of_ne same]
        exact stage.window d
    · have before := stage.config
      simp only [settledConfig, empty, Option.isSome_none, Bool.and_false, Bool.false_eq_true,
        if_false] at before
      obtain ⟨_, _, kept⟩ := seen cmd.device
      simp only [device, Store.updateDevice, Function.update_self] at kept before ⊢
      have filled : (bufferedAt (acks ++ [ack]) att.firmwareAckedAt).isSome = true :=
        (bufferedAt_isSome _ _).mpr (Or.inr (List.append_ne_nil_of_right_ne_nil _ (List.cons_ne_nil _ _)))
      simp only [kept, before, settledConfig, cfg_kind, filled, payload, decide_true, Bool.true_and,
        if_true]
  · rw [if_neg config]
    have other_kind : ¬cmd.kind = .cfg := fun h => config (kind.symm.trans h)
    constructor
    · exact modified
    · intro x other
      change (s'.commands.modify c _).get x = _
      rw [Table.get_modify_of_ne _ _ _ _ other]
      exact stage.commands x other
    · exact stage.next
    · exact stage.attempts
    · intro d
      obtain ⟨presence, ready, _⟩ := seen d
      exact ⟨presence.trans (stage.window d).1, ready.trans (stage.window d).2⟩
    · have before := stage.config
      simp only [settledConfig, other_kind, decide_false, Bool.false_and, Bool.false_eq_true,
        if_false] at before ⊢
      exact (seen cmd.device).2.2.trans before

/-- Tests accumulate; a second `cfg` or `danger` acknowledgement finds the command acknowledged. -/
theorem repeated_ack (ack : FirmwareAck J) (s s' : Store J) (c : CommandId) (cmd : Command J)
    (a : AttemptId) (att : Attempt J) (ackedAt : Int) (out : Outstanding s c cmd a att)
    (stage : Settled s s' c cmd a att ackedAt [])
    (chosen : (candidate ack s).map Prod.fst = some c) (kind_once : cmd.kind ≠ .test)
    (already : att.firmwareAckedAt.isSome = true)
    (payload : att.firmwareAckPayload = some cmd.expectedAck)
    (repeated : cmd.kind = .cfg → MergeAgain cmd.payload (s.devices cmd.device).appliedConfig) :
    (ancillary ack s').commands.get c = some (settledCommand att ackedAt [ack] cmd) ∧
      ((ancillary ack s').devices cmd.device).appliedConfig =
        settledConfig att [ack] cmd (s.devices cmd.device).appliedConfig := by
  obtain ⟨_, device, kind, expected, _, _, echo, _, _⟩ :=
    outstanding_match ack s c cmd a att out chosen
  obtain ⟨first, at_first⟩ := Option.isSome_iff_exists.mp already
  have row : settledCommand att ackedAt [ack] cmd = settledCommand att ackedAt [] cmd := by
    have echoed := accumulate_expected ack cmd (some cmd.expectedAck) kind echo kind_once
    simp only [settledCommand, acceptCommand, Attempt.buffer, bufferedAt, bufferedPayload,
      List.foldl_cons, List.foldl_nil, at_first, Option.getD_some, payload, echoed]
  have config : settledConfig att [ack] cmd = settledConfig att [] cmd := by
    funext old
    simp only [settledConfig, bufferedAt, List.foldl_cons, List.foldl_nil, at_first, Option.isSome_some]
  have acked : (settledCommand att ackedAt [] cmd).state = .acked := by
    rw [settled_state att ackedAt [] cmd expected]
    simp only [bufferedAt, List.foldl_nil, already, if_true]
  have unmatched : ∀ row, candidate ack s' ≠ some (c, row) := by
    intro other picked
    obtain ⟨found, fits⟩ := candidate_matches ack s' c other picked
    rw [stage.command] at found
    cases found
    simp only [matchesAck, acked, Bool.and_eq_true, Bool.or_eq_true, decide_eq_true_eq] at fits
    obtain ⟨⟨⟨⟨⟨_, states⟩, _⟩, _⟩, _⟩, _⟩ := fits
    rcases states with (queued | sent) | ⟨test, _⟩
    · cases queued
    · cases sent
    · exact kind_once (kind.trans test)
  have before := stage.config
  have seen := seen_window ack s' cmd.device
  rw [row, config, ancillary_eq]
  cases picked : candidate ack s' with
  | none => exact ⟨stage.command, seen.2.2.trans before⟩
  | some pair =>
    obtain ⟨other, other_row⟩ := pair
    have elsewhere : c ≠ other := by
      intro same
      subst same
      exact unmatched other_row picked
    simp only
    cases inflightAttempt s' other_row with
    | some pair => exact ⟨stage.command, seen.2.2.trans before⟩
    | none =>
      simp only
      have kept : (s'.commands.modify other (fun c => { c with
          state := .acked
          ackedAt := some (c.ackedAt.getD ack.now)
          ackPayload := accumulate ack c.ackPayload })).get c =
          some (settledCommand att ackedAt [] cmd) := by
        rw [Table.get_modify_of_ne _ _ _ _ elsewhere]
        exact stage.command
      by_cases cfg : ack.kind = .cfg
      · rw [if_pos cfg]
        refine ⟨kept, ?_⟩
        have same_payload : cmd.payload = ack.payload := by
          rcases echo with different | same
          · exact absurd cfg different
          · exact same
        have cfg_kind : cmd.kind = .cfg := kind.trans cfg
        have merged : settledConfig att [] cmd (s.devices cmd.device).appliedConfig =
            some (Jsonb.merge ((s.devices cmd.device).appliedConfig.getD Jsonb.emptyObject)
              cmd.payload) := by
          simp only [settledConfig, cfg_kind, bufferedAt, List.foldl_nil, already, decide_true,
            Bool.and_self, if_true]
        have current := seen.2.2.trans (before.trans merged)
        rw [merged]
        have again := repeated cfg_kind
        simp only [MergeAgain, device, Store.updateDevice, Function.update_self] at current again ⊢
        rw [current, Option.getD_some, ← same_payload, again]
      · rw [if_neg cfg]
        exact ⟨kept, seen.2.2.trans before⟩

end Stages

section Orders

variable [DecidableEq J]

theorem buffered_run (s : Store J) (c : CommandId) (cmd : Command J) (a : AttemptId)
    (att : Attempt J) (out : Outstanding s c cmd a att) (acks : List (FirmwareAck J))
    (matching : ∀ ack ∈ acks, (candidate ack s).map Prod.fst = some c) :
    Buffered s (applyAcks acks s) cmd a att acks := by
  induction acks using List.reverseRecOn with
  | nil => exact buffered_start s c cmd a att out
  | append_singleton early ack ih =>
    have stage := ih (fun x member => matching x (List.mem_append_left _ member))
    have chosen := matching ack (List.mem_append_right _ (List.mem_singleton_self ack))
    simp only [applyAcks, List.foldl_append, List.foldl_cons, List.foldl_nil]
    exact buffered_step ack s _ c cmd a att early out stage chosen

/-- Test results keep accumulating on the confirmed command. -/
theorem settled_run (s s' : Store J) (c : CommandId) (cmd : Command J) (a : AttemptId)
    (att : Attempt J) (ackedAt : Int) (out : Outstanding s c cmd a att)
    (before after : List (FirmwareAck J)) (stage : Settled s s' c cmd a att ackedAt before)
    (test : cmd.kind = .test)
    (matching : ∀ ack ∈ after, (candidate ack s).map Prod.fst = some c) :
    Settled s (applyAcks after s') c cmd a att ackedAt (before ++ after) := by
  induction after using List.reverseRecOn with
  | nil =>
    rw [List.append_nil]
    exact stage
  | append_singleton early ack ih =>
    have stage' := ih (fun x member => matching x (List.mem_append_left _ member))
    have chosen := matching ack (List.mem_append_right _ (List.mem_singleton_self ack))
    simp only [applyAcks, List.foldl_append, List.foldl_cons, List.foldl_nil]
    rw [← List.append_assoc]
    exact settled_step ack s _ c cmd a att ackedAt _ out stage' chosen (Or.inl test)

/-- What is left of the two orders of a single acknowledgement. -/
theorem single_ack (s s' : Store J) (c : CommandId) (cmd : Command J) (a : AttemptId)
    (att : Attempt J) (ackedAt : Int) (out : Outstanding s c cmd a att) (ack : FirmwareAck J)
    (stage : Settled s s' c cmd a att ackedAt []) (kind_once : cmd.kind ≠ .test)
    (chosen : (candidate ack s).map Prod.fst = some c)
    (payload : att.firmwareAckedAt.isSome → att.firmwareAckPayload = some cmd.expectedAck)
    (repeated : cmd.kind = .cfg → MergeAgain cmd.payload (s.devices cmd.device).appliedConfig) :
    (ancillary ack s').commands.get c = some (settledCommand att ackedAt [ack] cmd) ∧
      ((ancillary ack s').devices cmd.device).appliedConfig =
        settledConfig att [ack] cmd (s.devices cmd.device).appliedConfig := by
  cases already : att.firmwareAckedAt with
  | none =>
    have settled := settled_step ack s s' c cmd a att ackedAt [] out stage chosen (Or.inr already)
    exact ⟨settled.command, settled.config⟩
  | some first =>
    have buffered : att.firmwareAckedAt.isSome = true := already ▸ rfl
    exact repeated_ack ack s s' c cmd a att ackedAt out stage chosen kind_once buffered
      (payload buffered) repeated

/-- Acknowledgements and the broker confirmation of one inflight attempt commute: however they are
interleaved, the command row and the applied configuration depend on the acknowledgements alone,
and the command is acknowledged only when both have been processed. -/
theorem firmware_ack_commutes_with_puback (supported : Device J → CommandKind → J → Bool)
    (devices : DeviceId → Device J) (actions : List (Action J)) (c : CommandId) (cmd : Command J)
    (a : AttemptId) (att : Attempt J) (ackedAt : Int) (acks : List (FirmwareAck J))
    (found : (Runs.run (step supported) (World.start devices) actions).store.commands.get c = some cmd)
    (active : cmd.activePublishAttempt = some a)
    (attempt : (Runs.run (step supported) (World.start devices) actions).store.attempts.get a = some att)
    (inflight : att.state = .inflight) (received : acks ≠ [])
    (matching : ∀ ack ∈ acks, (candidate ack
      (Runs.run (step supported) (World.start devices) actions).store).map Prod.fst = some c)
    (sequence : cmd.kind = .test ∨ acks.length = 1)
    (repeated : cmd.kind = .cfg → MergeAgain cmd.payload
      ((Runs.run (step supported) (World.start devices) actions).store.devices cmd.device).appliedConfig) :
    let w := Runs.run (step supported) (World.start devices) actions
    (∀ early, early <+: acks → (applyAcks early w.store).commands.get c = some cmd) ∧
    (∀ before after, before ++ after <+: acks →
      ∃ s', accept a ackedAt (applyAcks before w.store) = some (s', some cmd.device) ∧
        (applyAcks after s').commands.get c =
          some (settledCommand att ackedAt (before ++ after) cmd) ∧
        ((applyAcks after s').devices cmd.device).appliedConfig =
          settledConfig att (before ++ after) cmd (w.store.devices cmd.device).appliedConfig) ∧
    (∀ processed, (settledCommand att ackedAt processed cmd).state = .acked ↔
      (att.firmwareAckedAt.isSome = true ∨ processed ≠ [])) ∧
    (cmd.state = .acked → Event.firmwareAck c ∈ w.journal ∧
      ∃ b packet, Event.outgoing b packet ∈ w.journal ∧ Event.puback b packet ∈ w.journal) := by
  intro w
  have ok : WorldOk w := run_ok supported devices actions
  have out := Outstanding.of_ok ok.store c cmd a att found active attempt inflight
  obtain ⟨first, is_first⟩ := List.exists_mem_of_ne_nil acks received
  have chosen := matching first is_first
  have expected := (outstanding_match first w.store c cmd a att out chosen).2.2.2.1
  have prefixes_match : ∀ list, list <+: acks → ∀ ack ∈ list,
      (candidate ack w.store).map Prod.fst = some c :=
    fun list within ack member => matching ack (within.subset member)
  refine ⟨?_, ?_, ?_, ?_⟩
  · intro early within
    have stage := buffered_run w.store c cmd a att out early (prefixes_match early within)
    rw [stage.commands]
    exact found
  · intro before after within
    have both := prefixes_match (before ++ after) within
    have stage := buffered_run w.store c cmd a att out before
      (fun ack member => both ack (List.mem_append_left _ member))
    obtain ⟨s', accepted, settled⟩ :=
      accept_settles first w.store _ c cmd a att ackedAt before out stage chosen
    refine ⟨s', accepted, ?_⟩
    by_cases test : cmd.kind = .test
    · have final := settled_run w.store s' c cmd a att ackedAt out before after settled test
        (fun ack member => both ack (List.mem_append_right _ member))
      exact ⟨final.command, final.config⟩
    · have single : acks.length = 1 := by
        rcases sequence with is_test | single
        · exact absurd is_test test
        · exact single
      have short := within.length_le
      rw [List.length_append, single] at short
      cases after with
      | nil =>
        rw [List.append_nil]
        exact ⟨settled.command, settled.config⟩
      | cons ack rest =>
        have alone : before = [] ∧ rest = [] := by
          rw [List.length_cons] at short
          exact ⟨List.eq_nil_of_length_eq_zero (by omega), List.eq_nil_of_length_eq_zero (by omega)⟩
        obtain ⟨rfl, rfl⟩ := alone
        have own : w.store.commands.get att.command = some cmd := out.command ▸ found
        exact single_ack w.store s' c cmd a att ackedAt out ack settled test
          (both ack (List.mem_singleton_self ack))
          (fun buffered => ok.store.buffered_payload a att cmd attempt own buffered test) repeated
  · intro processed
    rw [settled_state att ackedAt processed cmd expected, ← bufferedAt_isSome]
    split
    · rename_i buffered
      simp only [buffered]
    · rename_i empty
      simp only [reduceCtorEq, empty, Bool.false_eq_true]
  · intro acked
    obtain ⟨_, evidence, b, _, packet, _, _, _, left_, confirmed⟩ :=
      (ack_discipline w w ok (Advances.refl w) c cmd found).2 expected acked
    exact ⟨evidence, b, packet, left_, confirmed⟩

end Orders

section TestRun

def noFaults : Faults := ⟨.done, .done, .done, fun _ => false⟩

def loggers : DeviceId → Device FlatJson := fun _ =>
  { revoked := false, sourceProfile := "V21", clockPolicy := "utc", localOffsetMin := none
    clockChangeUnverified := false }

/-- A self-test is queued, reserved in the Ready window of its logger and seen leaving. -/
def selfTest : List (Action FlatJson) :=
  [.queue "A" .test (.object []) "~" "operator", .connected true,
    .presence "A" 1000000 .awake,
    .tick ⟨2000000, ⟨fun _ _ => some ["cmd/A"], 1⟩, fun _ => false, noFaults, .done, false, noFaults⟩,
    .outgoing 7 2000000 noFaults]

def selfTestWorld : World FlatJson := Runs.run (step (fun _ _ _ => true)) (World.start loggers) selfTest

def selfTestCommand : Command FlatJson :=
  { device := "A", kind := .test, payload := .object [], wirePayload := "~"
    requestedBy := "operator", attempts := 1, activePublishAttempt := some 1 }

def selfTestAttempt : Attempt FlatJson :=
  { command := 1, readyAt := 1000000, topic := "cmd/A", state := .inflight, packetId := some 7
    dispatchedAt := some 2000000, deliveryId := some 1 }

def sensorLine : FirmwareAck FlatJson := ⟨"A", .testResult (.string "~ sensor OK"), 3000000⟩
def storageLine : FirmwareAck FlatJson := ⟨"A", .testResult (.string "~ storage OK"), 4000000⟩

/-- The confirmation arrives between the two result lines. -/
theorem test_results_around_puback :
    ∃ s', accept 1 3500000 (applyAcks [sensorLine] selfTestWorld.store) = some (s', some "A") ∧
      (applyAcks [storageLine] s').commands.get 1 =
        some (settledCommand selfTestAttempt 3500000 [sensorLine, storageLine] selfTestCommand) := by
  have commutes := (firmware_ack_commutes_with_puback (fun _ _ _ => true) loggers selfTest 1
    selfTestCommand 1 selfTestAttempt 3500000 [sensorLine, storageLine] rfl rfl rfl rfl
    (List.cons_ne_nil _ _) (by decide) (Or.inl rfl)
    (fun impossible => absurd impossible (by decide))).2.1
  obtain ⟨s', accepted, row, _⟩ := commutes [sensorLine] [storageLine] (List.prefix_refl _)
  exact ⟨s', accepted, row⟩

end TestRun

end NixHomeServer.Groundwater.Dispatch
