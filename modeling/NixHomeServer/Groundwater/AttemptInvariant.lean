import NixHomeServer.Groundwater.Publisher

/-! What every SQL transaction keeps true of commands and attempts.
`StoreOk` is the correspondence between a command and its unsettled attempt and
the evidence behind every delivered state; `Later` is what no transaction takes
back. Evidence is a parameter here and becomes the journal in the next module. -/
namespace NixHomeServer.Groundwater.Dispatch

open NixHomeServer.Library

variable {J : Type} [Jsonb J]

/-- Nothing will be sent for the command any more. -/
def Command.finished (c : Command J) : Prop :=
  c.state = .cancelled ∨ (c.state = .sent ∧ c.firmwareAckExpected = false)

/-- The one payload a matching `cfg` or `danger` acknowledgement can carry. -/
def Command.expectedAck (c : Command J) : J :=
  if c.kind = .cfg then c.payload else Jsonb.text "Danger Acknowledge"

structure StoreOk (confirmed : AttemptId → Prop) (acknowledged : CommandId → Prop)
    (s : Store J) : Prop where
  active_unsettled : ∀ c cmd a, s.commands.get c = some cmd → cmd.activePublishAttempt = some a →
    ∃ att, s.attempts.get a = some att ∧ att.command = c ∧ att.unsettled = true
  unsettled_active : ∀ a att, s.attempts.get a = some att → att.unsettled = true →
    ∃ cmd, s.commands.get att.command = some cmd ∧ cmd.activePublishAttempt = some a
  finished_idle : ∀ c cmd, s.commands.get c = some cmd → cmd.finished →
    cmd.activePublishAttempt = none
  accepted_confirmed : ∀ a att, s.attempts.get a = some att → att.state = .accepted → confirmed a
  delivered : ∀ c cmd, s.commands.get c = some cmd →
    (cmd.brokerAckedAt.isSome ∨ cmd.state = .sent ∨ cmd.state = .acked) →
    cmd.brokerAckedAt.isSome ∧
      ∃ a att, s.attempts.get a = some att ∧ att.command = c ∧ att.state = .accepted
  acked_evidence : ∀ c cmd, s.commands.get c = some cmd → cmd.state = .acked →
    cmd.firmwareAckExpected = true ∧ acknowledged c
  buffered_evidence : ∀ a att, s.attempts.get a = some att → att.firmwareAckedAt.isSome →
    acknowledged att.command
  owned : ∀ a att, s.attempts.get a = some att → ∃ cmd, s.commands.get att.command = some cmd
  buffered_payload : ∀ a att cmd, s.attempts.get a = some att →
    s.commands.get att.command = some cmd → att.firmwareAckedAt.isSome → cmd.kind ≠ .test →
    att.firmwareAckPayload = some cmd.expectedAck

/-- What stays true of every earlier row, and what a changed row is evidence of. -/
structure Later (s s' : Store J) : Prop where
  command_stays : ∀ c cmd, s.commands.get c = some cmd → ∃ cmd', s'.commands.get c = some cmd' ∧
    cmd'.device = cmd.device ∧ cmd'.kind = cmd.kind ∧ cmd'.payload = cmd.payload ∧
    (cmd.finished → cmd'.finished) ∧ (cmd.state = .cancelled → cmd'.state = .cancelled)
  attempt_stays : ∀ a att, s.attempts.get a = some att → ∃ att', s'.attempts.get a = some att' ∧
    att'.command = att.command ∧ (att.state = .accepted → att'.state = .accepted)
  new_attempt : ∀ a att', s'.attempts.get a = some att' → s.attempts.get a = none →
    ∀ cmd, s.commands.get att'.command = some cmd → ¬cmd.finished
  new_delivery : ∀ c cmd cmd', s.commands.get c = some cmd → s'.commands.get c = some cmd' →
    (cmd'.brokerAckedAt ≠ cmd.brokerAckedAt ∨
      (cmd.state = .queued ∧ (cmd'.state = .sent ∨ cmd'.state = .acked))) →
    ∃ a att', s'.attempts.get a = some att' ∧ att'.command = c ∧ att'.state = .accepted ∧
      ∀ att, s.attempts.get a = some att → att.state ≠ .accepted

theorem StoreOk.mono {confirmed confirmed' : AttemptId → Prop}
    {acknowledged acknowledged' : CommandId → Prop} {s : Store J}
    (ok : StoreOk confirmed acknowledged s) (more : ∀ a, confirmed a → confirmed' a)
    (more' : ∀ c, acknowledged c → acknowledged' c) : StoreOk confirmed' acknowledged' s where
  active_unsettled := ok.active_unsettled
  unsettled_active := ok.unsettled_active
  finished_idle := ok.finished_idle
  accepted_confirmed a att found accepted := more a (ok.accepted_confirmed a att found accepted)
  delivered := ok.delivered
  acked_evidence c cmd found acked :=
    ⟨(ok.acked_evidence c cmd found acked).1, more' c (ok.acked_evidence c cmd found acked).2⟩
  buffered_evidence a att found buffered := more' _ (ok.buffered_evidence a att found buffered)
  owned := ok.owned
  buffered_payload := ok.buffered_payload

/-- Devices and deliveries do not matter to the invariant. -/
theorem StoreOk.congr {confirmed : AttemptId → Prop} {acknowledged : CommandId → Prop}
    {s s' : Store J} (ok : StoreOk confirmed acknowledged s) (commands : s'.commands = s.commands)
    (attempts : s'.attempts = s.attempts) : StoreOk confirmed acknowledged s' := by
  obtain ⟨devices, commands', attempts', deliveries⟩ := s'
  cases commands
  cases attempts
  exact ⟨ok.1, ok.2, ok.3, ok.4, ok.5, ok.6, ok.7, ok.8, ok.9⟩

theorem Later.refl (s : Store J) : Later s s where
  command_stays c cmd found := ⟨cmd, found, rfl, rfl, rfl, id, id⟩
  attempt_stays a att found := ⟨att, found, rfl, id⟩
  new_attempt a att' found missing := by
    rw [found] at missing
    cases missing
  new_delivery c cmd cmd' found found' changed := by
    rw [found] at found'
    cases found'
    rcases changed with moved | ⟨queued, sent | acked⟩
    · exact absurd rfl moved
    · rw [queued] at sent
      cases sent
    · rw [queued] at acked
      cases acked

theorem Later.of_same_rows {s s' : Store J} (commands : s'.commands = s.commands)
    (attempts : s'.attempts = s.attempts) : Later s s' := by
  obtain ⟨devices, commands', attempts', deliveries⟩ := s'
  cases commands
  cases attempts
  obtain ⟨one, two, three, four⟩ := Later.refl s
  exact ⟨one, two, three, four⟩

theorem Later.trans {s t u : Store J} (first : Later s t) (second : Later t u) : Later s u where
  command_stays c cmd found := by
    obtain ⟨cmd₁, found₁, device₁, kind₁, payload₁, finished₁, cancelled₁⟩ :=
      first.command_stays c cmd found
    obtain ⟨cmd₂, found₂, device₂, kind₂, payload₂, finished₂, cancelled₂⟩ :=
      second.command_stays c cmd₁ found₁
    exact ⟨cmd₂, found₂, device₂.trans device₁, kind₂.trans kind₁, payload₂.trans payload₁,
      fun h => finished₂ (finished₁ h), fun h => cancelled₂ (cancelled₁ h)⟩
  attempt_stays a att found := by
    obtain ⟨att₁, found₁, command₁, accepted₁⟩ := first.attempt_stays a att found
    obtain ⟨att₂, found₂, command₂, accepted₂⟩ := second.attempt_stays a att₁ found₁
    exact ⟨att₂, found₂, command₂.trans command₁, fun h => accepted₂ (accepted₁ h)⟩
  new_attempt a att' found missing cmd before := by
    cases middle : t.attempts.get a with
    | none =>
      obtain ⟨cmd₁, found₁, _, _, _, finished₁, _⟩ := first.command_stays _ cmd before
      exact fun h => second.new_attempt a att' found middle cmd₁ found₁ (finished₁ h)
    | some att₁ =>
      obtain ⟨att₂, found₂, command₂, _⟩ := second.attempt_stays a att₁ middle
      rw [found] at found₂
      cases found₂
      rw [command₂] at before
      exact first.new_attempt a att₁ middle missing cmd before
  new_delivery c cmd cmd' found found' changed := by
    obtain ⟨cmd₁, found₁, _, _, _, _, cancelled₁⟩ := first.command_stays c cmd found
    obtain ⟨cmd₂, found₂, _, _, _, _, cancelled₂⟩ := second.command_stays c cmd₁ found₁
    rw [found'] at found₂
    cases found₂
    have split : (cmd₁.brokerAckedAt ≠ cmd.brokerAckedAt ∨
          (cmd.state = .queued ∧ (cmd₁.state = .sent ∨ cmd₁.state = .acked))) ∨
        (cmd'.brokerAckedAt ≠ cmd₁.brokerAckedAt ∨
          (cmd₁.state = .queued ∧ (cmd'.state = .sent ∨ cmd'.state = .acked))) := by
      rcases changed with moved | ⟨queued, done⟩
      · by_cases same : cmd₁.brokerAckedAt = cmd.brokerAckedAt
        · exact Or.inr (Or.inl fun h => moved (h.trans same))
        · exact Or.inl (Or.inl same)
      · cases state : cmd₁.state with
        | queued => exact Or.inr (Or.inr ⟨rfl, done⟩)
        | sent => exact Or.inl (Or.inr ⟨queued, Or.inl rfl⟩)
        | acked => exact Or.inl (Or.inr ⟨queued, Or.inr rfl⟩)
        | cancelled =>
          have stopped := cancelled₂ state
          rw [stopped] at done
          rcases done with impossible | impossible <;> cases impossible
    rcases split with early | late
    · obtain ⟨a, att, found_a, command, accepted, fresh⟩ := first.new_delivery c cmd cmd₁ found found₁ early
      obtain ⟨att₂, found_a₂, command₂, accepted₂⟩ := second.attempt_stays a att found_a
      exact ⟨a, att₂, found_a₂, command₂.trans command, accepted₂ accepted, fresh⟩
    · obtain ⟨a, att, found_a, command, accepted, fresh⟩ := second.new_delivery c cmd₁ cmd' found₁ found' late
      refine ⟨a, att, found_a, command, accepted, ?_⟩
      intro old found_old was
      obtain ⟨att₁, found_a₁, _, accepted₁⟩ := first.attempt_stays a old found_old
      exact fresh att₁ found_a₁ (accepted₁ was)

theorem expected_congr {c c' : Command J} (kind : c'.kind = c.kind) (payload : c'.payload = c.payload) :
    c'.firmwareAckExpected = c.firmwareAckExpected := by
  simp only [Command.firmwareAckExpected, kind, payload]

section RowUpdates

variable {confirmed : AttemptId → Prop} {acknowledged : CommandId → Prop}

/-- An update of a command that neither delivers it nor touches its attempt. -/
structure KeepsCommand (acknowledged : CommandId → Prop) (id : CommandId) (c c' : Command J) :
    Prop where
  device : c'.device = c.device
  kind : c'.kind = c.kind
  payload : c'.payload = c.payload
  active : c'.activePublishAttempt = c.activePublishAttempt
  broker : c'.brokerAckedAt = c.brokerAckedAt
  idle : c'.finished → c.finished ∨ c.activePublishAttempt = none
  finished : c.finished → c'.finished
  cancelled : c.state = .cancelled → c'.state = .cancelled
  reached : c'.state = .sent ∨ c'.state = .acked → c.state = .sent ∨ c.state = .acked
  acked : c'.state = .acked → c'.firmwareAckExpected = true ∧ acknowledged id

theorem KeepsCommand.refl (id : CommandId) (c : Command J)
    (acked : c.state = .acked → c.firmwareAckExpected = true ∧ acknowledged id) :
    KeepsCommand acknowledged id c c :=
  ⟨rfl, rfl, rfl, rfl, rfl, Or.inl, fun h => h, fun h => h, fun h => h, acked⟩

theorem mapCommands_moves (s : Store J) (f : CommandId → Command J → Command J)
    (ok : StoreOk confirmed acknowledged s)
    (keeps : ∀ c cmd, s.commands.get c = some cmd → KeepsCommand acknowledged c cmd (f c cmd)) :
    StoreOk confirmed acknowledged { s with commands := s.commands.mapRows f } ∧
      Later s { s with commands := s.commands.mapRows f } := by
  have back : ∀ c cmd', (s.commands.mapRows f).get c = some cmd' →
      ∃ cmd, s.commands.get c = some cmd ∧ f c cmd = cmd' := by
    intro c cmd' found
    exact Option.map_eq_some_iff.mp found
  constructor
  · constructor
    · intro c cmd' a found active
      obtain ⟨cmd, was, rfl⟩ := back c cmd' found
      exact ok.active_unsettled c cmd a was ((keeps c cmd was).active ▸ active)
    · intro a att found unsettled
      obtain ⟨cmd, was, active⟩ := ok.unsettled_active a att found unsettled
      refine ⟨f att.command cmd, ?_, (keeps _ cmd was).active.trans active⟩
      simp only [Table.get_mapRows, was, Option.map_some]
    · intro c cmd' found finished
      obtain ⟨cmd, was, rfl⟩ := back c cmd' found
      rw [(keeps c cmd was).active]
      rcases (keeps c cmd was).idle finished with before | idle
      · exact ok.finished_idle c cmd was before
      · exact idle
    · exact ok.accepted_confirmed
    · intro c cmd' found reached
      obtain ⟨cmd, was, rfl⟩ := back c cmd' found
      rw [(keeps c cmd was).broker] at reached ⊢
      apply ok.delivered c cmd was
      rcases reached with acked | state
      · exact Or.inl acked
      · exact Or.inr ((keeps c cmd was).reached state)
    · intro c cmd' found acked
      obtain ⟨cmd, was, rfl⟩ := back c cmd' found
      exact (keeps c cmd was).acked acked
    · exact ok.buffered_evidence
    · intro a att found
      obtain ⟨cmd, was⟩ := ok.owned a att found
      exact ⟨f att.command cmd, by simp only [Table.get_mapRows, was, Option.map_some]⟩
    · intro a att cmd' found found_c buffered kind
      obtain ⟨cmd, was, rfl⟩ := back att.command cmd' found_c
      have k := keeps att.command cmd was
      rw [k.kind] at kind
      simp only [Command.expectedAck, k.kind, k.payload]
      exact ok.buffered_payload a att cmd found was buffered kind
  · constructor
    · intro c cmd found
      have k := keeps c cmd found
      refine ⟨f c cmd, ?_, k.device, k.kind, k.payload, k.finished, k.cancelled⟩
      simp only [Table.get_mapRows, found, Option.map_some]
    · exact (Later.refl s).attempt_stays
    · intro a att' found missing
      rw [found] at missing
      cases missing
    · intro c cmd cmd' found found' changed
      obtain ⟨old, was, rfl⟩ := back c cmd' found'
      rw [found] at was
      cases was
      have k := keeps c cmd found
      rcases changed with moved | ⟨queued, reached⟩
      · exact absurd k.broker moved
      · have before := k.reached reached
        rw [queued] at before
        rcases before with impossible | impossible <;> cases impossible

/-- An update of attempts that settles none of them. -/
theorem mapAttempts_moves (s : Store J) (f : AttemptId → Attempt J → Attempt J)
    (ok : StoreOk confirmed acknowledged s)
    (command : ∀ a att, s.attempts.get a = some att → (f a att).command = att.command)
    (unsettled : ∀ a att, s.attempts.get a = some att → (f a att).unsettled = att.unsettled)
    (accepted : ∀ a att, s.attempts.get a = some att →
      ((f a att).state = .accepted ↔ att.state = .accepted))
    (buffered : ∀ a att, s.attempts.get a = some att → (f a att).firmwareAckedAt.isSome →
      acknowledged att.command)
    (payload : ∀ a att cmd, s.attempts.get a = some att → s.commands.get att.command = some cmd →
      (f a att).firmwareAckedAt.isSome → cmd.kind ≠ .test →
      (f a att).firmwareAckPayload = some cmd.expectedAck) :
    StoreOk confirmed acknowledged { s with attempts := s.attempts.mapRows f } ∧
      Later s { s with attempts := s.attempts.mapRows f } := by
  have back : ∀ a att', (s.attempts.mapRows f).get a = some att' →
      ∃ att, s.attempts.get a = some att ∧ f a att = att' := by
    intro a att' found
    exact Option.map_eq_some_iff.mp found
  have forth : ∀ a att, s.attempts.get a = some att →
      (s.attempts.mapRows f).get a = some (f a att) := by
    intro a att found
    simp only [Table.get_mapRows, found, Option.map_some]
  constructor
  · constructor
    · intro c cmd a found active
      obtain ⟨att, was, named, open_⟩ := ok.active_unsettled c cmd a found active
      exact ⟨f a att, forth a att was, (command a att was).trans named,
        (unsettled a att was).trans open_⟩
    · intro a att' found open_
      obtain ⟨att, was, rfl⟩ := back a att' found
      rw [command a att was]
      exact ok.unsettled_active a att was ((unsettled a att was).symm.trans open_)
    · exact ok.finished_idle
    · intro a att' found state
      obtain ⟨att, was, rfl⟩ := back a att' found
      exact ok.accepted_confirmed a att was ((accepted a att was).mp state)
    · intro c cmd found reached
      obtain ⟨broker, a, att, was, named, state⟩ := ok.delivered c cmd found reached
      exact ⟨broker, a, f a att, forth a att was, (command a att was).trans named,
        (accepted a att was).mpr state⟩
    · exact ok.acked_evidence
    · intro a att' found some_
      obtain ⟨att, was, rfl⟩ := back a att' found
      rw [command a att was]
      exact buffered a att was some_
    · intro a att' found
      obtain ⟨att, was, rfl⟩ := back a att' found
      rw [command a att was]
      exact ok.owned a att was
    · intro a att' cmd found found_c some_ kind
      obtain ⟨att, was, rfl⟩ := back a att' found
      rw [command a att was] at found_c
      exact payload a att cmd was found_c some_ kind
  · constructor
    · exact (Later.refl s).command_stays
    · intro a att found
      exact ⟨f a att, forth a att found, command a att found, (accepted a att found).mpr⟩
    · intro a att' found missing
      obtain ⟨att, was, _⟩ := back a att' found
      rw [was] at missing
      cases missing
    · intro c cmd cmd' found found' changed
      obtain ⟨a, att, was, named, state, fresh⟩ :=
        (Later.refl s).new_delivery c cmd cmd' found found' changed
      exact absurd state (fresh att was)

end RowUpdates

section Transactions

variable {confirmed : AttemptId → Prop} {acknowledged : CommandId → Prop}

theorem updateDevice_moves (s : Store J) (device : DeviceId) (f : Device J → Device J)
    (ok : StoreOk confirmed acknowledged s) :
    StoreOk confirmed acknowledged (s.updateDevice device f) ∧ Later s (s.updateDevice device f) :=
  ⟨ok.congr rfl rfl, Later.of_same_rows rfl rfl⟩

theorem insertCommand_moves (s : Store J) (row : Command J) (ok : StoreOk confirmed acknowledged s)
    (queued : row.state = .queued) (idle : row.activePublishAttempt = none)
    (unsent : row.brokerAckedAt = none) :
    StoreOk confirmed acknowledged { s with commands := s.commands.insert row } ∧
      Later s { s with commands := s.commands.insert row } := by
  constructor
  · constructor
    · intro c cmd a found active
      rcases s.commands.get_insert_cases row c cmd found with old | ⟨_, rfl⟩
      · exact ok.active_unsettled c cmd a old active
      · rw [idle] at active
        cases active
    · intro a att found unsettled
      obtain ⟨cmd, was, active⟩ := ok.unsettled_active a att found unsettled
      exact ⟨cmd, s.commands.get_insert_of_get row _ cmd was, active⟩
    · intro c cmd found finished
      rcases s.commands.get_insert_cases row c cmd found with old | ⟨_, rfl⟩
      · exact ok.finished_idle c cmd old finished
      · exact idle
    · exact ok.accepted_confirmed
    · intro c cmd found reached
      rcases s.commands.get_insert_cases row c cmd found with old | ⟨_, rfl⟩
      · exact ok.delivered c cmd old reached
      · rw [unsent, queued] at reached
        rcases reached with impossible | impossible | impossible <;> cases impossible
    · intro c cmd found acked
      rcases s.commands.get_insert_cases row c cmd found with old | ⟨_, rfl⟩
      · exact ok.acked_evidence c cmd old acked
      · rw [queued] at acked
        cases acked
    · exact ok.buffered_evidence
    · intro a att found
      obtain ⟨cmd, was⟩ := ok.owned a att found
      exact ⟨cmd, s.commands.get_insert_of_get row _ cmd was⟩
    · intro a att cmd found found_c
      obtain ⟨old, was⟩ := ok.owned a att found
      rw [s.commands.get_insert_of_get row _ old was] at found_c
      cases found_c
      exact ok.buffered_payload a att _ found was
  · constructor
    · intro c cmd found
      exact ⟨cmd, s.commands.get_insert_of_get row c cmd found, rfl, rfl, rfl, id, id⟩
    · exact (Later.refl s).attempt_stays
    · intro a att' found missing
      rw [found] at missing
      cases missing
    · intro c cmd cmd' found found'
      rw [s.commands.get_insert_of_get row c cmd found] at found'
      cases found'
      exact (Later.refl s).new_delivery c cmd cmd found found

theorem queue_moves (device : DeviceId) (kind : CommandKind) (payload : J) (wire by_ : String)
    (s : Store J) (ok : StoreOk confirmed acknowledged s) :
    StoreOk confirmed acknowledged (queue device kind payload wire by_ s) ∧
      Later s (queue device kind payload wire by_ s) := by
  unfold queue
  by_cases revoked : (s.devices device).revoked = true
  · rw [if_pos revoked]
    exact ⟨ok, Later.refl s⟩
  · rw [if_neg revoked]
    obtain ⟨ok', later⟩ := insertCommand_moves s
      { device := device, kind := kind, payload := payload, wirePayload := wire, requestedBy := by_ }
      ok rfl rfl rfl
    by_cases config : kind = .cfg
    · simp only [if_pos config]
      obtain ⟨ok'', later'⟩ := updateDevice_moves _ device _ ok'
      exact ⟨ok'', later.trans later'⟩
    · simp only [if_neg config]
      exact ⟨ok', later⟩

theorem cancel_moves (device : DeviceId) (id : CommandId) (now : Int) (username : String)
    (s : Store J) (ok : StoreOk confirmed acknowledged s) :
    StoreOk confirmed acknowledged (cancel device id now username s) ∧
      Later s (cancel device id now username s) := by
  apply mapCommands_moves s _ ok
  intro c cmd found
  have unchanged := KeepsCommand.refl c cmd (ok.acked_evidence c cmd found)
  by_cases named : c = id
  · by_cases allowed : cancellable device cmd = true
    · simp only [if_pos named, if_pos allowed]
      simp only [cancellable, Bool.and_eq_true, Bool.or_eq_true, decide_eq_true_eq,
        Option.isNone_iff_eq_none] at allowed
      have unreached : ¬(CommandState.cancelled = .sent ∨ CommandState.cancelled = .acked) := by decide
      exact ⟨rfl, rfl, rfl, rfl, rfl, fun _ => Or.inr allowed.2, fun _ => Or.inl rfl, fun _ => rfl,
        fun reached => absurd reached unreached, nofun⟩
    · simp only [if_pos named, if_neg allowed]
      exact unchanged
  · rw [if_neg named]
    exact unchanged

/-- Abandoning settles attempts and releases exactly the commands that pointed at them. -/
theorem abandonAttempts_moves (pick : AttemptId → Bool) (reason : String) (s : Store J)
    (ok : StoreOk confirmed acknowledged s) :
    StoreOk confirmed acknowledged (abandonAttempts pick reason s) ∧
      Later s (abandonAttempts pick reason s) := by
  have attempt_back : ∀ a att', (abandonAttempts pick reason s).attempts.get a = some att' →
      ∃ att, s.attempts.get a = some att ∧
        ((att.unsettled = true ∧ pick a = true ∧
            att' = { att with state := .abandoned, recoveryReason := some reason }) ∨
          ((att.unsettled && pick a) = false ∧ att' = att)) := by
    intro a att' found
    obtain ⟨att, was, rfl⟩ := Option.map_eq_some_iff.mp found
    refine ⟨att, was, ?_⟩
    cases lost : att.unsettled && pick a with
    | true =>
      obtain ⟨open_, picked⟩ := (Bool.and_eq_true _ _).mp lost
      exact Or.inl ⟨open_, picked, by simp only [lost, if_true]⟩
    | false => exact Or.inr ⟨rfl, by simp only [lost, Bool.false_eq_true, if_false]⟩
  have attempt_forth : ∀ a att, s.attempts.get a = some att →
      (abandonAttempts pick reason s).attempts.get a = some
        (if att.unsettled && pick a then
          { att with state := .abandoned, recoveryReason := some reason } else att) := by
    intro a att found
    simp only [abandonAttempts, Table.get_mapRows, found, Option.map_some]
  have command_back : ∀ c cmd', (abandonAttempts pick reason s).commands.get c = some cmd' →
      ∃ cmd, s.commands.get c = some cmd ∧
        ((∃ a, cmd.activePublishAttempt = some a ∧ pick a = true ∧
            cmd' = { cmd with activePublishAttempt := none }) ∨
          ((∀ a, cmd.activePublishAttempt = some a → pick a = false) ∧ cmd' = cmd)) := by
    intro c cmd' found
    obtain ⟨cmd, was, rfl⟩ := Option.map_eq_some_iff.mp found
    refine ⟨cmd, was, ?_⟩
    cases active : cmd.activePublishAttempt with
    | none => exact Or.inr ⟨nofun, by simp only [active]⟩
    | some a =>
      obtain ⟨att, found_a, named, open_⟩ := ok.active_unsettled c cmd a was active
      cases picked : pick a with
      | true =>
        refine Or.inl ⟨a, rfl, picked, ?_⟩
        simp only [active, found_a, open_, picked, named, decide_true, Bool.and_self, if_true]
      | false =>
        refine Or.inr ⟨?_, ?_⟩
        · intro b same
          cases same
          exact picked
        · simp only [active, found_a, picked, Bool.and_false, Bool.false_and, Bool.false_eq_true,
            if_false]
  constructor
  · constructor
    · intro c cmd' a found active
      obtain ⟨cmd, was, ⟨_, _, _, rfl⟩ | ⟨kept, rfl⟩⟩ := command_back c cmd' found
      · cases active
      · obtain ⟨att, found_a, named, open_⟩ := ok.active_unsettled c cmd' a was active
        refine ⟨att, ?_, named, open_⟩
        rw [attempt_forth a att found_a, kept a active, Bool.and_false, if_neg Bool.false_ne_true]
    · intro a att' found open_'
      obtain ⟨att, was, ⟨_, _, rfl⟩ | ⟨kept, rfl⟩⟩ := attempt_back a att' found
      · simp only [Attempt.unsettled, reduceCtorEq, decide_false, Bool.or_self,
          Bool.false_eq_true] at open_'
      · obtain ⟨cmd, found_c, active⟩ := ok.unsettled_active a att' was open_'
        refine ⟨cmd, ?_, active⟩
        have unpicked : pick a = false := by simpa only [open_', Bool.true_and] using kept
        simp only [abandonAttempts, Table.get_mapRows, found_c, Option.map_some, active, was, unpicked,
          Bool.and_false, Bool.false_and, Bool.false_eq_true, if_false]
    · intro c cmd' found finished
      obtain ⟨cmd, was, ⟨_, _, _, rfl⟩ | ⟨_, rfl⟩⟩ := command_back c cmd' found
      · rfl
      · exact ok.finished_idle c cmd' was finished
    · intro a att' found accepted
      obtain ⟨att, was, ⟨_, _, rfl⟩ | ⟨_, rfl⟩⟩ := attempt_back a att' found
      · cases accepted
      · exact ok.accepted_confirmed a att' was accepted
    · intro c cmd' found reached
      obtain ⟨cmd, was, change⟩ := command_back c cmd' found
      have same : cmd'.brokerAckedAt = cmd.brokerAckedAt ∧ cmd'.state = cmd.state := by
        rcases change with ⟨_, _, _, rfl⟩ | ⟨_, rfl⟩ <;> exact ⟨rfl, rfl⟩
      rw [same.1, same.2] at reached
      rw [same.1]
      obtain ⟨broker, a, att, found_a, named, accepted⟩ := ok.delivered c cmd was reached
      have settled : att.unsettled = false := by
        simp only [Attempt.unsettled, accepted, reduceCtorEq, decide_false, Bool.or_self]
      refine ⟨broker, a, att, ?_, named, accepted⟩
      rw [attempt_forth a att found_a, settled, Bool.false_and, if_neg Bool.false_ne_true]
    · intro c cmd' found acked
      obtain ⟨cmd, was, ⟨_, _, _, rfl⟩ | ⟨_, rfl⟩⟩ := command_back c cmd' found
      · exact ok.acked_evidence c cmd was acked
      · exact ok.acked_evidence c cmd' was acked
    · intro a att' found buffered
      obtain ⟨att, was, ⟨_, _, rfl⟩ | ⟨_, rfl⟩⟩ := attempt_back a att' found
      · exact ok.buffered_evidence a att was buffered
      · exact ok.buffered_evidence a att' was buffered
    · intro a att' found
      obtain ⟨att, was, ⟨_, _, rfl⟩ | ⟨_, rfl⟩⟩ := attempt_back a att' found
      · obtain ⟨cmd, found_c⟩ := ok.owned a att was
        exact ⟨_, by simp only [abandonAttempts, Table.get_mapRows, found_c, Option.map_some]; rfl⟩
      · obtain ⟨cmd, found_c⟩ := ok.owned a att' was
        exact ⟨_, by simp only [abandonAttempts, Table.get_mapRows, found_c, Option.map_some]; rfl⟩
    · intro a att' cmd' found found_c buffered kind
      obtain ⟨cmd, was_c, change⟩ := command_back att'.command cmd' found_c
      have same : cmd'.kind = cmd.kind ∧ cmd'.payload = cmd.payload := by
        rcases change with ⟨_, _, _, rfl⟩ | ⟨_, rfl⟩ <;> exact ⟨rfl, rfl⟩
      rw [same.1] at kind
      simp only [Command.expectedAck, same.1, same.2]
      obtain ⟨att, was, ⟨_, _, rfl⟩ | ⟨_, rfl⟩⟩ := attempt_back a att' found
      · exact ok.buffered_payload a att cmd was was_c buffered kind
      · exact ok.buffered_payload a att' cmd was was_c buffered kind
  · constructor
    · intro c cmd found
      obtain ⟨cmd', found'⟩ : ∃ cmd', (abandonAttempts pick reason s).commands.get c = some cmd' := by
        simp only [abandonAttempts, Table.get_mapRows, found, Option.map_some]
        exact ⟨_, rfl⟩
      obtain ⟨old, was, change⟩ := command_back c cmd' found'
      rw [found] at was
      cases was
      rcases change with ⟨_, _, _, rfl⟩ | ⟨_, rfl⟩
      · exact ⟨_, found', rfl, rfl, rfl, id, id⟩
      · exact ⟨_, found', rfl, rfl, rfl, id, id⟩
    · intro a att found
      refine ⟨_, attempt_forth a att found, ?_, ?_⟩
      · split <;> rfl
      · intro accepted
        have settled : att.unsettled = false := by
          simp only [Attempt.unsettled, accepted, reduceCtorEq, decide_false, Bool.or_self]
        rw [settled, Bool.false_and, if_neg Bool.false_ne_true]
        exact accepted
    · intro a att' found missing
      obtain ⟨att, was, _⟩ := attempt_back a att' found
      rw [was] at missing
      cases missing
    · intro c cmd cmd' found found' changed
      obtain ⟨old, was, change⟩ := command_back c cmd' found'
      rw [found] at was
      cases was
      have same : cmd'.brokerAckedAt = cmd.brokerAckedAt ∧ cmd'.state = cmd.state := by
        rcases change with ⟨_, _, _, rfl⟩ | ⟨_, rfl⟩ <;> exact ⟨rfl, rfl⟩
      rw [same.1, same.2] at changed
      obtain ⟨a, att, found_a, _, accepted, fresh⟩ :=
        (Later.refl s).new_delivery c cmd cmd found found changed
      exact absurd accepted (fresh att found_a)

theorem recordOutgoing_moves (id : AttemptId) (packet : Nat) (now : Int) (s s' : Store J)
    (ok : StoreOk confirmed acknowledged s) (saved : recordOutgoing id packet now s = some s') :
    StoreOk confirmed acknowledged s' ∧ Later s s' := by
  unfold recordOutgoing at saved
  cases found : s.attempts.get id with
  | none => simp only [found, reduceCtorEq] at saved
  | some a =>
    cases found_c : s.commands.get a.command with
    | none => simp only [found, found_c, reduceCtorEq] at saved
    | some c =>
      simp only [found, found_c] at saved
      by_cases prepared : a.state = .prepared
      · rw [if_pos prepared] at saved
        cases saved
        obtain ⟨ok', later⟩ := mapAttempts_moves s
          (fun other att => if other = id then { att with
              state := .inflight, packetId := some packet, dispatchedAt := some now
              deliveryId := some s.deliveries.next } else att) ok
          (by
            intro x att _
            split <;> rfl)
          (by
            intro x att was
            split
            · rename_i named
              subst named
              rw [found] at was
              cases was
              simp only [Attempt.unsettled, prepared, decide_true, reduceCtorEq, decide_false,
                Bool.or_true, Bool.or_false]
            · rfl)
          (by
            intro x att was
            split
            · rename_i named
              subst named
              rw [found] at was
              cases was
              simp only [prepared, reduceCtorEq]
            · rfl)
          (by
            intro x att was buffered
            apply ok.buffered_evidence x att was
            split at buffered <;> exact buffered)
          (by
            intro x att cmd was was_c buffered kind
            split at buffered
            · rw [if_pos (by assumption)]
              exact ok.buffered_payload x att cmd was was_c buffered kind
            · rw [if_neg (by assumption)]
              exact ok.buffered_payload x att cmd was was_c buffered kind)
        exact ⟨ok'.congr rfl rfl, later.trans (Later.of_same_rows rfl rfl)⟩
      · rw [if_neg prepared] at saved
        cases saved
        exact ⟨ok, Later.refl s⟩

theorem accept_cases (id : AttemptId) (ackedAt : Int) (s s' : Store J) (device : Option DeviceId)
    (accepted : accept id ackedAt s = some (s', device)) :
    ∃ a c, s.attempts.get id = some a ∧ s.commands.get a.command = some c ∧
      ((a.state = .accepted ∧ s' = s ∧ device = none) ∨
        (∃ dispatched, a.state = .inflight ∧ a.dispatchedAt = some dispatched ∧
          s'.attempts = s.attempts.modify id (fun a =>
            { a with state := .accepted, brokerAckedAt := some ackedAt }) ∧
          ((c.state = .cancelled ∧ s'.commands = s.commands ∧ s'.devices = s.devices) ∨
            (c.state ≠ .cancelled ∧
              s'.commands = s.commands.modify a.command (acceptCommand a dispatched ackedAt) ∧
              ∃ d, acceptDevice a ackedAt c (s.devices c.device) = some d ∧
                s'.devices = Function.update s.devices c.device d)))) := by
  unfold accept at accepted
  cases found : s.attempts.get id with
  | none => simp only [found, reduceCtorEq] at accepted
  | some a =>
    cases found_c : s.commands.get a.command with
    | none => simp only [found, found_c, reduceCtorEq] at accepted
    | some c =>
      refine ⟨a, c, rfl, found_c, ?_⟩
      simp only [found, found_c] at accepted
      by_cases already : a.state = .accepted
      · rw [if_pos already] at accepted
        cases accepted
        exact Or.inl ⟨already, rfl, rfl⟩
      · rw [if_neg already] at accepted
        by_cases inflight : a.state = .inflight
        · have allowed : ¬a.state ≠ .inflight := fun h => h inflight
          rw [if_neg allowed] at accepted
          cases sent : a.dispatchedAt with
          | none => simp only [sent, reduceCtorEq] at accepted
          | some dispatched =>
            simp only [sent] at accepted
            refine Or.inr ⟨dispatched, inflight, rfl, ?_⟩
            by_cases cancelled : c.state = .cancelled
            · rw [if_pos cancelled] at accepted
              cases accepted
              exact ⟨rfl, Or.inl ⟨cancelled, rfl, rfl⟩⟩
            · rw [if_neg cancelled] at accepted
              cases updated : acceptDevice a ackedAt c (s.devices c.device) with
              | none => simp only [updated, reduceCtorEq] at accepted
              | some d =>
                simp only [updated] at accepted
                cases accepted
                exact ⟨rfl, Or.inr ⟨cancelled, rfl, d, rfl, rfl⟩⟩
        · have refused : a.state ≠ .inflight := inflight
          rw [if_pos refused] at accepted
          cases accepted

theorem accept_moves (id : AttemptId) (ackedAt : Int) (s s' : Store J) (device : Option DeviceId)
    (ok : StoreOk confirmed acknowledged s) (evidence : confirmed id)
    (accepted : accept id ackedAt s = some (s', device)) :
    StoreOk confirmed acknowledged s' ∧ Later s s' := by
  obtain ⟨a, c, found, found_c, ⟨_, rfl, _⟩ | ⟨dispatched, inflight, _, attempts, outcome⟩⟩ :=
    accept_cases id ackedAt s s' device accepted
  · exact ⟨ok, Later.refl s'⟩
  · have open_ : a.unsettled = true := by
      simp only [Attempt.unsettled, inflight, decide_true, Bool.or_true]
    obtain ⟨c', found_c', active⟩ := ok.unsettled_active id a found open_
    rw [found_c] at found_c'
    cases found_c'
    have unfinished : ¬c.finished := by
      intro finished
      rw [ok.finished_idle a.command c found_c finished] at active
      cases active
    obtain ⟨cancelled, _⟩ | ⟨uncancelled, commands, _⟩ := outcome
    · exact absurd (Or.inl cancelled) unfinished
    · have attempt_other : ∀ x, x ≠ id → s'.attempts.get x = s.attempts.get x := by
        intro x other
        rw [attempts, Table.get_modify_of_ne _ _ _ _ other]
      have attempt_self : s'.attempts.get id =
          some { a with state := .accepted, brokerAckedAt := some ackedAt } := by
        rw [attempts, Table.get_modify_self, found]
        rfl
      have command_other : ∀ x, x ≠ a.command → s'.commands.get x = s.commands.get x := by
        intro x other
        rw [commands, Table.get_modify_of_ne _ _ _ _ other]
      have command_self : s'.commands.get a.command = some (acceptCommand a dispatched ackedAt c) := by
        rw [commands, Table.get_modify_self, found_c]
        rfl
      have sole : ∀ x att, s.attempts.get x = some att → att.command = a.command →
          att.unsettled = true → x = id := by
        intro x att was named unsettled
        obtain ⟨other, found_other, active'⟩ := ok.unsettled_active x att was unsettled
        rw [named, found_c] at found_other
        cases found_other
        exact Option.some.inj (active'.symm.trans active)
      have expected : (acceptCommand a dispatched ackedAt c).firmwareAckExpected =
          c.firmwareAckExpected := expected_congr rfl rfl
      constructor
      · constructor
        · intro x cmd y found_x points
          by_cases own : x = a.command
          · subst own
            rw [command_self] at found_x
            cases found_x
            cases points
          · rw [command_other x own] at found_x
            obtain ⟨att, was, named, unsettled⟩ := ok.active_unsettled x cmd y found_x points
            have distinct : y ≠ id := by
              intro same
              subst same
              rw [found] at was
              cases was
              exact own named.symm
            exact ⟨att, (attempt_other y distinct).trans was, named, unsettled⟩
        · intro x att found_x unsettled
          by_cases own : x = id
          · subst own
            rw [attempt_self] at found_x
            cases found_x
            simp only [Attempt.unsettled, reduceCtorEq, decide_false, Bool.or_self,
              Bool.false_eq_true] at unsettled
          · rw [attempt_other x own] at found_x
            obtain ⟨cmd, was, points⟩ := ok.unsettled_active x att found_x unsettled
            have distinct : att.command ≠ a.command := fun same =>
              own (sole x att found_x same unsettled)
            exact ⟨cmd, (command_other _ distinct).trans was, points⟩
        · intro x cmd found_x finished
          by_cases own : x = a.command
          · subst own
            rw [command_self] at found_x
            cases found_x
            rfl
          · rw [command_other x own] at found_x
            exact ok.finished_idle x cmd found_x finished
        · intro x att found_x state
          by_cases own : x = id
          · subst own
            exact evidence
          · rw [attempt_other x own] at found_x
            exact ok.accepted_confirmed x att found_x state
        · intro x cmd found_x reached
          by_cases own : x = a.command
          · subst own
            rw [command_self] at found_x
            cases found_x
            exact ⟨rfl, id, _, attempt_self, rfl, rfl⟩
          · rw [command_other x own] at found_x
            obtain ⟨broker, y, att, was, named, state⟩ := ok.delivered x cmd found_x reached
            have distinct : y ≠ id := by
              intro same
              subst same
              rw [found] at was
              cases was
              exact own named.symm
            exact ⟨broker, y, att, (attempt_other y distinct).trans was, named, state⟩
        · intro x cmd found_x acked
          by_cases own : x = a.command
          · subst own
            rw [command_self] at found_x
            cases found_x
            rw [expected]
            simp only [acceptCommand] at acked
            split at acked
            · rename_i both
              obtain ⟨expects, buffered⟩ := (Bool.and_eq_true _ _).mp both
              exact ⟨expects, ok.buffered_evidence id a found buffered⟩
            · cases acked
          · rw [command_other x own] at found_x
            exact ok.acked_evidence x cmd found_x acked
        · intro x att found_x buffered
          by_cases own : x = id
          · subst own
            rw [attempt_self] at found_x
            cases found_x
            exact ok.buffered_evidence x a found buffered
          · rw [attempt_other x own] at found_x
            exact ok.buffered_evidence x att found_x buffered
        · intro x att found_x
          have old : ∃ att', s.attempts.get x = some att' ∧ att.command = att'.command := by
            by_cases own : x = id
            · subst own
              rw [attempt_self] at found_x
              cases found_x
              exact ⟨a, found, rfl⟩
            · rw [attempt_other x own] at found_x
              exact ⟨att, found_x, rfl⟩
          obtain ⟨att', was, same⟩ := old
          obtain ⟨cmd, was_c⟩ := ok.owned x att' was
          rw [same]
          by_cases own : att'.command = a.command
          · rw [own]
            exact ⟨_, command_self⟩
          · exact ⟨cmd, (command_other _ own).trans was_c⟩
        · intro x att cmd' found_x found_c' buffered kind
          obtain ⟨cmd, was_c, same_kind, same_payload⟩ : ∃ cmd, s.commands.get att.command = some cmd ∧
              cmd'.kind = cmd.kind ∧ cmd'.payload = cmd.payload := by
            by_cases own : att.command = a.command
            · rw [own, command_self] at found_c'
              cases found_c'
              exact ⟨c, own ▸ found_c, rfl, rfl⟩
            · rw [command_other _ own] at found_c'
              exact ⟨cmd', found_c', rfl, rfl⟩
          rw [same_kind] at kind
          simp only [Command.expectedAck, same_kind, same_payload]
          by_cases own : x = id
          · subst own
            rw [attempt_self] at found_x
            cases found_x
            exact ok.buffered_payload x a cmd found was_c buffered kind
          · rw [attempt_other x own] at found_x
            exact ok.buffered_payload x att cmd found_x was_c buffered kind
      · constructor
        · intro x cmd found_x
          by_cases own : x = a.command
          · subst own
            rw [found_c] at found_x
            cases found_x
            exact ⟨_, command_self, rfl, rfl, rfl, fun h => absurd h unfinished,
              fun h => absurd h uncancelled⟩
          · exact ⟨cmd, (command_other x own).trans found_x, rfl, rfl, rfl, fun h => h, fun h => h⟩
        · intro x att found_x
          by_cases own : x = id
          · subst own
            rw [found] at found_x
            cases found_x
            exact ⟨_, attempt_self, rfl, fun _ => rfl⟩
          · exact ⟨att, (attempt_other x own).trans found_x, rfl, fun h => h⟩
        · intro x att found_x missing
          by_cases own : x = id
          · subst own
            rw [found] at missing
            cases missing
          · rw [attempt_other x own, missing] at found_x
            cases found_x
        · intro x cmd cmd' found_x found_x' changed
          by_cases own : x = a.command
          · subst own
            refine ⟨id, _, attempt_self, rfl, rfl, ?_⟩
            intro att was state
            rw [found] at was
            cases was
            rw [inflight] at state
            cases state
          · rw [command_other x own] at found_x'
            obtain ⟨y, att, was, _, state, fresh⟩ :=
              (Later.refl s).new_delivery x cmd cmd' found_x found_x' changed
            exact absurd state (fresh att was)

omit [Jsonb J] in
theorem firstRoutable_mem (routes : Routes) (rows : List (CommandId × Command J)) (id : CommandId)
    (c : Command J) (topic : String)
    (found : firstRoutable routes rows = some (some (id, c, topic))) : (id, c) ∈ rows := by
  induction rows with
  | nil => cases found
  | cons row rest ih =>
    obtain ⟨id', c'⟩ := row
    unfold firstRoutable at found
    split at found
    · cases found
    · split at found
      · exact List.mem_cons_of_mem _ (ih found)
      · cases found
        exact List.mem_cons_self
    · exact List.mem_cons_of_mem _ (ih found)

/-- Everything a committed reservation did, and what it had read. -/
theorem reserve_cases (supported : Device J → CommandKind → J → Bool) (now : Int)
    (routes : Routes) (locked : CommandId → Bool) (s s' : Store J) (p : Prepared)
    (reserved : reserve supported now routes locked s = some (s', some p)) :
    ∃ c ready, s.commands.get p.command = some c ∧
      eligible supported now s p.command c = true ∧
      (s.devices c.device).lastReadyAt = some ready ∧ p.attempt = s.attempts.next ∧
      s'.attempts = s.attempts.insert { command := p.command, readyAt := ready, topic := p.topic } ∧
      s'.commands = s.commands.modify p.command (fun c =>
        { c with activePublishAttempt := some p.attempt, attempts := c.attempts + 1 }) ∧
      s'.devices = Function.update s.devices c.device
        { s.devices c.device with lastDownlinkAt := some now } := by
  unfold reserve at reserved
  simp only at reserved
  split at reserved
  · cases reserved
  · cases reserved
  · rename_i id c topic routed
    have selected := List.mem_of_mem_take (firstRoutable_mem routes _ id c topic routed)
    obtain ⟨found, kept⟩ := (Table.mem_select ..).mp selected
    split at reserved
    · cases reserved
    · rename_i ready at_ready
      cases reserved
      exact ⟨c, ready, found, ((Bool.and_eq_true _ _).mp kept).1, at_ready, rfl, rfl, rfl, rfl⟩

theorem reserve_moves (supported : Device J → CommandKind → J → Bool) (now : Int)
    (routes : Routes) (locked : CommandId → Bool) (s s' : Store J) (p : Prepared)
    (ok : StoreOk confirmed acknowledged s)
    (reserved : reserve supported now routes locked s = some (s', some p)) :
    StoreOk confirmed acknowledged s' ∧ Later s s' := by
  obtain ⟨c, ready, found, fits, _, drawn, attempts, commands, _⟩ :=
    reserve_cases supported now routes locked s s' p reserved
  simp only [eligible, Bool.and_eq_true, Option.isNone_iff_eq_none] at fits
  obtain ⟨⟨⟨⟨⟨⟨⟨⟨idle, pending⟩, _⟩, _⟩, _⟩, _⟩, _⟩, _⟩, _⟩ := fits
  have unfinished : ¬c.finished := by
    simp only [Command.pending, Bool.or_eq_true, Bool.and_eq_true, decide_eq_true_eq,
      Option.isNone_iff_eq_none] at pending
    intro finished
    rcases pending with queued | ⟨sent, needed⟩
    · rcases finished with state | ⟨state, _⟩ <;> rw [queued] at state <;> cases state
    · rcases finished with state | ⟨_, unexpected⟩
      · rw [sent] at state
        cases state
      · rcases needed with expected | unacked
        · rw [unexpected] at expected
          cases expected
        · have broker := (ok.delivered p.command c found (Or.inr (Or.inl sent))).1
          rw [unacked] at broker
          cases broker
  have attempt_new : s'.attempts.get p.attempt =
      some { command := p.command, readyAt := ready, topic := p.topic } := by
    rw [attempts, drawn, Table.get_insert_self]
  have attempt_old : ∀ x att, s.attempts.get x = some att → s'.attempts.get x = some att := by
    intro x att was
    rw [attempts]
    exact s.attempts.get_insert_of_get _ x att was
  have attempt_cases : ∀ x att, s'.attempts.get x = some att → s.attempts.get x = some att ∨
      (x = p.attempt ∧ att = { command := p.command, readyAt := ready, topic := p.topic }) := by
    intro x att found_x
    rw [attempts] at found_x
    rw [drawn]
    exact s.attempts.get_insert_cases _ x att found_x
  have command_self : s'.commands.get p.command =
      some { c with activePublishAttempt := some p.attempt, attempts := c.attempts + 1 } := by
    rw [commands, Table.get_modify_self, found]
    rfl
  have command_other : ∀ x, x ≠ p.command → s'.commands.get x = s.commands.get x := by
    intro x other
    rw [commands, Table.get_modify_of_ne _ _ _ _ other]
  constructor
  · constructor
    · intro x cmd a found_x points
      by_cases own : x = p.command
      · subst own
        rw [command_self] at found_x
        cases found_x
        cases points
        exact ⟨_, attempt_new, rfl, rfl⟩
      · rw [command_other x own] at found_x
        obtain ⟨att, was, named, unsettled⟩ := ok.active_unsettled x cmd a found_x points
        exact ⟨att, attempt_old a att was, named, unsettled⟩
    · intro x att found_x unsettled
      rcases attempt_cases x att found_x with was | ⟨rfl, rfl⟩
      · obtain ⟨cmd, found_c, points⟩ := ok.unsettled_active x att was unsettled
        have distinct : att.command ≠ p.command := by
          intro same
          rw [same, found] at found_c
          cases found_c
          rw [idle] at points
          cases points
        exact ⟨cmd, (command_other _ distinct).trans found_c, points⟩
      · exact ⟨_, command_self, rfl⟩
    · intro x cmd found_x finished
      by_cases own : x = p.command
      · subst own
        rw [command_self] at found_x
        cases found_x
        exact absurd finished unfinished
      · rw [command_other x own] at found_x
        exact ok.finished_idle x cmd found_x finished
    · intro x att found_x accepted
      rcases attempt_cases x att found_x with was | ⟨rfl, rfl⟩
      · exact ok.accepted_confirmed x att was accepted
      · cases accepted
    · intro x cmd found_x reached
      obtain ⟨old, was, same⟩ : ∃ old, s.commands.get x = some old ∧
          cmd.brokerAckedAt = old.brokerAckedAt ∧ cmd.state = old.state := by
        by_cases own : x = p.command
        · subst own
          rw [command_self] at found_x
          cases found_x
          exact ⟨c, found, rfl, rfl⟩
        · rw [command_other x own] at found_x
          exact ⟨cmd, found_x, rfl, rfl⟩
      rw [same.1, same.2] at reached
      rw [same.1]
      obtain ⟨broker, y, att, found_y, named, accepted⟩ := ok.delivered x old was reached
      exact ⟨broker, y, att, attempt_old y att found_y, named, accepted⟩
    · intro x cmd found_x acked
      by_cases own : x = p.command
      · subst own
        rw [command_self] at found_x
        cases found_x
        exact ok.acked_evidence p.command c found acked
      · rw [command_other x own] at found_x
        exact ok.acked_evidence x cmd found_x acked
    · intro x att found_x buffered
      rcases attempt_cases x att found_x with was | ⟨rfl, rfl⟩
      · exact ok.buffered_evidence x att was buffered
      · cases buffered
    · intro x att found_x
      rcases attempt_cases x att found_x with was | ⟨rfl, rfl⟩
      · obtain ⟨cmd, was_c⟩ := ok.owned x att was
        by_cases own : att.command = p.command
        · rw [own]
          exact ⟨_, command_self⟩
        · exact ⟨cmd, (command_other _ own).trans was_c⟩
      · exact ⟨_, command_self⟩
    · intro x att cmd' found_x found_c' buffered kind
      rcases attempt_cases x att found_x with was | ⟨rfl, rfl⟩
      · by_cases own : att.command = p.command
        · rw [own, command_self] at found_c'
          cases found_c'
          exact ok.buffered_payload x att c was (own ▸ found) buffered kind
        · rw [command_other _ own] at found_c'
          exact ok.buffered_payload x att cmd' was found_c' buffered kind
      · cases buffered
  · constructor
    · intro x cmd found_x
      by_cases own : x = p.command
      · subst own
        rw [found] at found_x
        cases found_x
        exact ⟨_, command_self, rfl, rfl, rfl, fun h => absurd h unfinished,
          fun h => absurd (Or.inl h) unfinished⟩
      · exact ⟨cmd, (command_other x own).trans found_x, rfl, rfl, rfl, fun h => h, fun h => h⟩
    · intro x att found_x
      exact ⟨att, attempt_old x att found_x, rfl, fun h => h⟩
    · intro x att found_x missing cmd before
      rcases attempt_cases x att found_x with was | ⟨rfl, rfl⟩
      · rw [was] at missing
        cases missing
      · rw [found] at before
        cases before
        exact unfinished
    · intro x cmd cmd' found_x found_x' changed
      have same : cmd'.brokerAckedAt = cmd.brokerAckedAt ∧ cmd'.state = cmd.state := by
        by_cases own : x = p.command
        · subst own
          rw [command_self] at found_x'
          rw [found] at found_x
          cases found_x
          cases found_x'
          exact ⟨rfl, rfl⟩
        · rw [command_other x own, found_x] at found_x'
          cases found_x'
          exact ⟨rfl, rfl⟩
      rw [same.1, same.2] at changed
      obtain ⟨y, att, was, _, state, fresh⟩ :=
        (Later.refl s).new_delivery x cmd cmd found_x found_x changed
      exact absurd state (fresh att was)

theorem invalidateReady_moves (s : Store J) (ok : StoreOk confirmed acknowledged s) :
    StoreOk confirmed acknowledged (invalidateReady s) ∧ Later s (invalidateReady s) :=
  ⟨ok.congr rfl rfl, Later.of_same_rows rfl rfl⟩

section Acknowledgement

variable [DecidableEq J]

/-- The sign of life written first does not change which command matches. -/
theorem matchesAck_seen (ack : FirmwareAck J) (s : Store J) (f : Device J → Device J)
    (presence : ∀ d, (f d).presenceStatus = d.presenceStatus)
    (ready : ∀ d, (f d).lastReadyAt = d.lastReadyAt) (device : DeviceId) (c : Command J) :
    matchesAck ack (s.updateDevice device f) c = matchesAck ack s c := by
  have devices : ((s.updateDevice device f).devices c.device).presenceStatus =
        (s.devices c.device).presenceStatus ∧
      ((s.updateDevice device f).devices c.device).lastReadyAt = (s.devices c.device).lastReadyAt := by
    by_cases own : c.device = device
    · simp only [Store.updateDevice, own, Function.update_self, presence, ready, and_self]
    · simp only [Store.updateDevice, Function.update_of_ne own, and_self]
  have joined : inflightAttempt (s.updateDevice device f) c = inflightAttempt s c := rfl
  simp only [matchesAck, sentInWindow, devices, joined]

theorem candidate_seen (ack : FirmwareAck J) (s : Store J) (f : Device J → Device J)
    (presence : ∀ d, (f d).presenceStatus = d.presenceStatus)
    (ready : ∀ d, (f d).lastReadyAt = d.lastReadyAt) (device : DeviceId) :
    candidate ack (s.updateDevice device f) = candidate ack s := by
  simp only [candidate, matchesAck_seen ack s f presence ready]
  rfl

theorem candidate_matches (ack : FirmwareAck J) (s : Store J) (id : CommandId) (c : Command J)
    (found : candidate ack s = some (id, c)) :
    s.commands.get id = some c ∧ matchesAck ack s c = true :=
  (Table.mem_select ..).mp (List.mem_of_getLast? found)

def signOfLife (ack : FirmwareAck J) (d : Device J) : Device J :=
  if d.revoked then d else { d with lastSeen := greatest d.lastSeen ack.now }

omit [DecidableEq J] in
theorem signOfLife_window (ack : FirmwareAck J) (d : Device J) :
    (signOfLife ack d).presenceStatus = d.presenceStatus ∧
      (signOfLife ack d).lastReadyAt = d.lastReadyAt := by
  unfold signOfLife
  split <;> exact ⟨rfl, rfl⟩

/-- The branches of `ancillary`, named by what the acknowledgement matched. -/
theorem ancillary_eq (ack : FirmwareAck J) (s : Store J) :
    ancillary ack s =
      match candidate ack s with
      | none => s.updateDevice ack.device (signOfLife ack)
      | some (id, c) =>
        let seen := s.updateDevice ack.device (signOfLife ack)
        match inflightAttempt s c with
        | some (attempt, _) =>
          { seen with
            attempts := seen.attempts.modify attempt (fun a =>
              { a with
                firmwareAckedAt := some (a.firmwareAckedAt.getD ack.now)
                firmwareAckPayload := accumulate ack a.firmwareAckPayload }) }
        | none =>
          let finalized := { seen with
            commands := seen.commands.modify id (fun c =>
              { c with
                state := .acked
                ackedAt := some (c.ackedAt.getD ack.now)
                ackPayload := accumulate ack c.ackPayload }) }
          if ack.kind = .cfg then
            finalized.updateDevice ack.device (fun d =>
              { d with
                appliedConfig := some (Jsonb.merge (d.appliedConfig.getD Jsonb.emptyObject) ack.payload)
                lastSeen := greatest d.lastSeen ack.now })
          else finalized := by
  have same := candidate_seen ack s (signOfLife ack) (fun d => (signOfLife_window ack d).1)
    (fun d => (signOfLife_window ack d).2) ack.device
  rw [← same]
  rfl

omit [DecidableEq J] in
/-- What a matching acknowledgement buffers is the one expected payload, tests apart. -/
theorem accumulate_expected (ack : FirmwareAck J) (c : Command J) (old : Option J)
    (same_kind : c.kind = ack.kind) (echo : ack.kind ≠ .cfg ∨ c.payload = ack.payload)
    (kind : c.kind ≠ .test) : accumulate ack old = some c.expectedAck := by
  unfold accumulate Command.expectedAck
  rw [same_kind] at kind ⊢
  rw [if_neg kind]
  by_cases config : ack.kind = .cfg
  · rw [if_pos config]
    rcases echo with other | same
    · exact absurd config other
    · rw [same]
  · rw [if_neg config]
    unfold FirmwareAck.kind at kind config
    unfold FirmwareAck.payload
    cases message : ack.message with
    | applied payload => rw [message] at config; exact absurd rfl config
    | dangerAcknowledge => rfl
    | testResult line => rw [message] at kind; exact absurd rfl kind

theorem ancillary_moves (ack : FirmwareAck J) (s : Store J)
    (ok : StoreOk confirmed acknowledged s)
    (evidence : ∀ id c, candidate ack s = some (id, c) → acknowledged id) :
    StoreOk confirmed acknowledged (ancillary ack s) ∧ Later s (ancillary ack s) := by
  rw [ancillary_eq]
  obtain ⟨seen_ok, seen_later⟩ := updateDevice_moves s ack.device (signOfLife ack) ok
  cases matched : candidate ack s with
  | none => exact ⟨seen_ok, seen_later⟩
  | some pair =>
    obtain ⟨id, c⟩ := pair
    obtain ⟨found, fits⟩ := candidate_matches ack s id c matched
    have acknowledged_id := evidence id c matched
    simp only [matchesAck, Bool.and_eq_true, Bool.or_eq_true, decide_eq_true_eq] at fits
    obtain ⟨⟨⟨⟨⟨⟨⟨_, same_kind⟩, expected⟩, states⟩, _⟩, _⟩, window⟩, echo⟩ := fits
    simp only
    cases joined : inflightAttempt s c with
    | some pair =>
      obtain ⟨attempt, a⟩ := pair
      have points : c.activePublishAttempt = some attempt ∧ s.attempts.get attempt = some a := by
        unfold inflightAttempt at joined
        split at joined
        · cases joined
        · rename_i x active
          split at joined
          · cases joined
          · rename_i att was
            split at joined
            · cases joined
              exact ⟨active, was⟩
            · cases joined
      obtain ⟨att, was, named, _⟩ := ok.active_unsettled id c attempt found points.1
      obtain ⟨ok', later⟩ := mapAttempts_moves (s.updateDevice ack.device (signOfLife ack))
        (fun x a => if x = attempt then { a with
          firmwareAckedAt := some (a.firmwareAckedAt.getD ack.now)
          firmwareAckPayload := accumulate ack a.firmwareAckPayload } else a) seen_ok
        (by intro x y _; split <;> rfl)
        (by intro x y _; split <;> rfl)
        (by intro x y _; split <;> rfl)
        (by
          intro x y found_y buffered
          split at buffered
          · rename_i same
            subst same
            change s.attempts.get x = some y at found_y
            rw [was] at found_y
            cases found_y
            rw [named]
            exact acknowledged_id
          · exact ok.buffered_evidence x y found_y buffered)
        (by
          intro x y cmd found_y found_c buffered kind
          change s.attempts.get x = some y at found_y
          change s.commands.get y.command = some cmd at found_c
          split at buffered
          · rename_i same
            subst same
            rw [if_pos rfl]
            rw [was] at found_y
            cases found_y
            rw [named, found] at found_c
            cases found_c
            exact accumulate_expected ack c _ same_kind echo kind
          · rename_i other
            rw [if_neg other]
            exact ok.buffered_payload x y cmd found_y found_c buffered kind)
      exact ⟨ok', seen_later.trans later⟩
    | none =>
      simp only [sentInWindow, joined, Bool.and_eq_true, Bool.or_eq_true, decide_eq_true_eq] at window
      obtain ⟨⟨⟨⟨reached, _⟩, _⟩, _⟩, _⟩ := window
      have unfinished : ¬c.finished := by
        intro finished
        rcases finished with cancelled | ⟨_, unexpected⟩
        · rw [cancelled] at reached
          rcases reached with impossible | impossible <;> cases impossible
        · rw [unexpected] at expected
          cases expected
      obtain ⟨ok', later⟩ := mapCommands_moves (s.updateDevice ack.device (signOfLife ack))
        (fun x c => if x = id then { c with
          state := .acked
          ackedAt := some (c.ackedAt.getD ack.now)
          ackPayload := accumulate ack c.ackPayload } else c) seen_ok
        (by
          intro x cmd found_x
          change s.commands.get x = some cmd at found_x
          split
          · rename_i same
            subst same
            rw [found] at found_x
            cases found_x
            refine ⟨rfl, rfl, rfl, rfl, rfl, ?_, fun h => absurd h unfinished,
              fun h => absurd (Or.inl h) unfinished, fun _ => reached, fun _ => ⟨expected, acknowledged_id⟩⟩
            intro finished
            rcases finished with impossible | ⟨impossible, _⟩ <;> cases impossible
          · exact KeepsCommand.refl x cmd (ok.acked_evidence x cmd found_x))
      by_cases config : ack.kind = .cfg
      · simp only [if_pos config]
        obtain ⟨ok'', later'⟩ := updateDevice_moves _ ack.device (fun d => { d with
          appliedConfig := some (Jsonb.merge (d.appliedConfig.getD Jsonb.emptyObject) ack.payload)
          lastSeen := greatest d.lastSeen ack.now }) ok'
        exact ⟨ok'', (seen_later.trans later).trans later'⟩
      · simp only [if_neg config]
        exact ⟨ok', seen_later.trans later⟩

end Acknowledgement

end Transactions

end NixHomeServer.Groundwater.Dispatch
