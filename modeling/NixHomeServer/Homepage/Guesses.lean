import NixHomeServer.Homepage.Lockout

/-! The bound on guesses: what one step does to the counters of a subject, and
the account of its denied credentials over a run. -/
namespace NixHomeServer.Homepage

open NixHomeServer.Library

/-- What a step does to a subject, with what is on record of it. -/
inductive Seen (σ : Subject) (v v' : Vault) (acts : List Act) : Prop
  | passes (now : v'.now = v.now) (state : Settles v.now (σ.state v) (σ.state v'))
      (denied : acts.any σ.denies = false) (unlocked : acts.any σ.succeeds = false)
      (notLocked : acts.any σ.posts = true → ¬σ.Locked v)
  | fails (now : v'.now = v.now) (notLocked : ¬σ.Locked v) (old : Option LoginAttemptState)
      (settled : Settles v.now (σ.state v) old) (state : σ.state v' = some (failed old σ.limit v.now))
      (denied : acts.countP σ.denies ≤ 1) (unlocked : acts.any σ.succeeds = false)
  | clears (now : v'.now = v.now) (state : σ.state v' = none) (denied : acts.any σ.denies = false)
      (unlocked : acts.any σ.succeeds = true) (posted : acts.any σ.posts = false)
  | ticks (later : v.now ≤ v'.now) (state : σ.state v' = σ.state v) (nothing : acts = [])

/-- The record of a vault grows by acts of one sign-in. -/
def Logged (v v' : Vault) (acts : List Act) : Prop := ∃ chain, v'.log = v.log ++ acts.map (Entry.mk chain)

theorem Logged.nothing {v v' : Vault} (same : v'.log = v.log) : Logged v v' [] :=
  ⟨0, same.trans (List.append_nil _).symm⟩

theorem Logged.news {v : Vault} {event : Event} {acts : List Act} (logged : Logged v (v.step event) acts) :
    v.news event = acts := by
  obtain ⟨chain, log⟩ := logged
  have back : (acts.map (Entry.mk chain)).map Entry.act = acts := by
    rw [List.map_map]
    exact List.map_id acts
  rw [Vault.news, log, List.drop_left, back]

/-- The account of a subject: its count of failures covers its denied credentials. -/
structure Watch.Sound (σ : Subject) (w : Watch) : Prop where
  start : 0 ≤ w.vault.now
  names : ∀ f ∈ w.vault.flights, isUsername f.username = true
  below : σ.failures w.vault < σ.limit
  bounded : w.denied ≤ σ.limit
  counted : ¬σ.Locked w.vault → w.denied ≤ σ.failures w.vault
  past : w.lastDenied ≤ w.vault.now
  recent : 0 < w.denied → w.vault.now - w.lastDenied ≤ lockoutStateTtlMs ∧
    ∃ state, σ.state w.vault = some state ∧ w.lastDenied ≤ state.updatedAt

section Account

variable {σ : Subject} {w : Watch} {event : Event}

theorem Subject.limit_pos (σ : Subject) : 0 < σ.limit := by
  cases σ with
  | pair _ _ => exact Nat.succ_pos 4
  | user _ => exact Nat.succ_pos 19

/-- A state that is forgotten has no denied credential on its account. -/
theorem Watch.Sound.forgotten (sound : w.Sound σ) {state : LoginAttemptState}
    (was : σ.state w.vault = some state) (stale : w.vault.now - state.updatedAt > lockoutStateTtlMs) :
    w.denied = 0 := by
  by_contra some_denied
  obtain ⟨recent, found, same, later⟩ := sound.recent (Nat.pos_of_ne_zero some_denied)
  obtain rfl := Option.some.inj (was.symm.trans same)
  omega

theorem Watch.Sound.settled (sound : w.Sound σ) (notLocked : ¬σ.Locked w.vault) {old : Option LoginAttemptState}
    (settled : Settles w.vault.now (σ.state w.vault) old) :
    w.denied ≤ (old.map LoginAttemptState.failures).getD 0 ∧
      (old.map LoginAttemptState.failures).getD 0 < σ.limit ∧
      (old.map LoginAttemptState.lockedUntil).getD 0 ≤ w.vault.now := by
  cases settled with
  | same => exact ⟨sound.counted notLocked, sound.below, Int.not_lt.mp notLocked⟩
  | forgotten state was spent stale =>
    exact ⟨(sound.forgotten was stale).le, σ.limit_pos, sound.start⟩

/-- One more failure is counted, or it sets the lock. -/
theorem failed_cases (old : Option LoginAttemptState) (limit : Nat) (now : Int) :
    (failed old limit now).updatedAt = now ∧
      ((limit ≤ (old.map LoginAttemptState.failures).getD 0 + 1 ∧ (failed old limit now).failures = 0 ∧
          now < (failed old limit now).lockedUntil) ∨
        ((old.map LoginAttemptState.failures).getD 0 + 1 < limit ∧
          (failed old limit now).failures = (old.map LoginAttemptState.failures).getD 0 + 1)) := by
  have length : lockoutDurationMs > 0 := by decide
  unfold failed
  cases old with
  | none =>
    dsimp only [Option.getD_none, Option.map_none]
    split
    · exact ⟨rfl, Or.inl ⟨by assumption, rfl, by dsimp only; omega⟩⟩
    · exact ⟨rfl, Or.inr ⟨Nat.not_le.mp (by assumption), rfl⟩⟩
  | some state =>
    dsimp only [Option.getD_some, Option.map_some]
    split
    · exact ⟨rfl, Or.inl ⟨by assumption, rfl, by dsimp only; omega⟩⟩
    · exact ⟨rfl, Or.inr ⟨Nat.not_le.mp (by assumption), rfl⟩⟩

theorem Watch.step_quiet (acts : List Act) (news : w.vault.news event = acts)
    (quiet : acts.any σ.denies = false) :
    (w.step σ event).lastDenied = w.lastDenied ∧ (w.step σ event).denied ≤ w.denied ∧
      (0 < (w.step σ event).denied → acts.any σ.succeeds = false ∧
        ¬(σ.Locked w.vault ∧ σ.lockedUntil w.vault ≤ (w.step σ event).vault.now) ∧
        (w.step σ event).vault.now - w.lastDenied ≤ lockoutStateTtlMs) := by
  have none_denied : acts.countP σ.denies = 0 := by
    rw [List.countP_eq_zero]
    exact fun act member yes => absurd (List.any_eq_true.mpr ⟨act, member, yes⟩) (by simp only [quiet]; decide)
  unfold Watch.step
  dsimp only
  rw [news, none_denied, quiet]
  refine ⟨rfl, ?_, fun some_denied => ?_⟩
  · split
    · exact Nat.zero_le _
    · exact le_rfl
  · split at some_denied
    · exact absurd some_denied (Nat.lt_irrefl 0)
    · rename_i runs
      simp only [not_or, Int.not_lt] at runs
      exact ⟨Bool.eq_false_iff.mpr runs.1, runs.2.1, runs.2.2⟩

/-- The state of the subject is left as it is while the clock may go on. -/
theorem Watch.Sound.kept {next : Watch} (sound : w.Sound σ) (later : w.vault.now ≤ next.vault.now)
    (names : ∀ f ∈ next.vault.flights, isUsername f.username = true)
    (state : σ.state next.vault = σ.state w.vault) (last : next.lastDenied = w.lastDenied)
    (fewer : next.denied ≤ w.denied)
    (runs : 0 < next.denied → ¬(σ.Locked w.vault ∧ σ.lockedUntil w.vault ≤ next.vault.now) ∧
      next.vault.now - w.lastDenied ≤ lockoutStateTtlMs) : next.Sound σ where
  start := Int.le_trans sound.start later
  names := names
  below := by
    rw [Subject.failures, state]
    exact sound.below
  bounded := fewer.trans sound.bounded
  counted notLocked := by
    cases some_denied : next.denied with
    | zero => exact Nat.zero_le _
    | succ n =>
      have before : ¬σ.Locked w.vault := fun locked => (runs (by omega)).1 ⟨locked, by
        rw [Subject.Locked, Subject.lockedUntil, state] at notLocked
        exact Int.not_lt.mp notLocked⟩
      rw [Subject.failures, state]
      exact some_denied ▸ fewer.trans (sound.counted before)
  past := by
    rw [last]
    exact Int.le_trans sound.past later
  recent some_denied := by
    obtain ⟨_, s, found, updated⟩ := sound.recent (by omega)
    rw [last, state]
    exact ⟨(runs some_denied).2, s, found, updated⟩

/-- The state of the subject is gone, with nothing left on its account. -/
theorem Watch.Sound.gone {next : Watch} (sound : w.Sound σ) (now : next.vault.now = w.vault.now)
    (names : ∀ f ∈ next.vault.flights, isUsername f.username = true)
    (state : σ.state next.vault = none) (last : next.lastDenied = w.lastDenied)
    (zero : next.denied = 0) : next.Sound σ where
  start := now ▸ sound.start
  names := names
  below := by
    rw [Subject.failures, state]
    exact σ.limit_pos
  bounded := zero ▸ Nat.zero_le _
  counted _ := zero ▸ Nat.zero_le _
  past := by
    rw [last, now]
    exact sound.past
  recent some_denied := by omega

theorem Watch.Sound.failed {next : Watch} (sound : w.Sound σ) (notLocked : ¬σ.Locked w.vault)
    (now : next.vault.now = w.vault.now) (names : ∀ f ∈ next.vault.flights, isUsername f.username = true)
    {old : Option LoginAttemptState} (settled : Settles w.vault.now (σ.state w.vault) old)
    (state : σ.state next.vault = some (failed old σ.limit w.vault.now))
    (more : next.denied ≤ w.denied + 1)
    (last : next.lastDenied = w.vault.now ∨ next.lastDenied = w.lastDenied)
    (runs : 0 < next.denied → next.vault.now - next.lastDenied ≤ lockoutStateTtlMs) : next.Sound σ := by
  obtain ⟨covered, below, spent⟩ := sound.settled notLocked settled
  obtain ⟨updated, outcome⟩ := failed_cases old σ.limit w.vault.now
  have past : next.lastDenied ≤ w.vault.now := by
    cases last with
    | inl same => exact Int.le_of_eq same
    | inr same => exact same ▸ sound.past
  have failures : σ.failures next.vault = (Homepage.failed old σ.limit w.vault.now).failures := by
    rw [Subject.failures, state]
    rfl
  have locked : σ.lockedUntil next.vault = (Homepage.failed old σ.limit w.vault.now).lockedUntil := by
    rw [Subject.lockedUntil, state]
    rfl
  have positive := σ.limit_pos
  exact {
    start := now ▸ sound.start
    names := names
    below := by omega
    bounded := by omega
    counted := fun unlocked => by
      rw [Subject.Locked, now, locked] at unlocked
      omega
    past := now ▸ past
    recent := fun some_denied => ⟨runs some_denied, _, state, by rw [updated]; exact past⟩ }

theorem Watch.Sound.after (sound : w.Sound σ) {acts : List Act} (news : w.vault.news event = acts)
    (names : ∀ f ∈ (w.vault.step event).flights, isUsername f.username = true)
    (seen : Seen σ w.vault (w.vault.step event) acts) : (w.step σ event).Sound σ := by
  cases seen with
  | passes now state denied unlocked notLocked =>
    obtain ⟨last, fewer, runs⟩ := Watch.step_quiet acts news denied
    rcases state.cases with same | ⟨none, s, was, spent, stale⟩
    · exact sound.kept (Int.le_of_eq now.symm) names same last fewer fun some_denied => (runs some_denied).2
    · have zero := sound.forgotten was stale
      exact sound.gone now names none last (Nat.le_zero.mp (zero ▸ fewer))
  | fails now notLocked old settled state denied unlocked =>
    have step : (w.step σ event).denied ≤ w.denied + acts.countP σ.denies := by
      rw [← news]
      unfold Watch.step
      dsimp only
      split <;> omega
    refine sound.failed notLocked now names settled state (by omega) ?_ ?_
    · unfold Watch.step
      dsimp only
      split
      · exact Or.inl now
      · exact Or.inr rfl
    · cases quiet : acts.any σ.denies with
      | false =>
        obtain ⟨last, _, runs⟩ := Watch.step_quiet acts news quiet
        intro some_denied
        rw [last]
        exact (runs some_denied).2.2
      | true =>
        have last : (w.step σ event).lastDenied = (w.step σ event).vault.now := by
          unfold Watch.step
          dsimp only
          rw [news, if_pos quiet]
        intro _
        rw [last, Int.sub_self]
        decide
  | clears now state denied unlocked posted =>
    obtain ⟨last, _, runs⟩ := Watch.step_quiet acts news denied
    refine sound.gone now names state last (Nat.eq_zero_of_not_pos fun some_denied => ?_)
    exact absurd (runs some_denied).1 (by rw [unlocked]; decide)
  | ticks later state nothing =>
    obtain ⟨last, fewer, runs⟩ := Watch.step_quiet acts news (by rw [nothing]; rfl)
    exact sound.kept later names state last fewer fun some_denied => (runs some_denied).2

theorem Watch.Sound.holds (sound : w.Sound σ) {acts : List Act} (news : w.vault.news event = acts)
    (names : ∀ f ∈ (w.vault.step event).flights, isUsername f.username = true)
    (seen : Seen σ w.vault (w.vault.step event) acts) : w.Holds σ event where
  bounded := (sound.after news names seen).bounded
  shut locked := by
    rw [news]
    cases seen with
    | passes now state denied unlocked notLocked => exact Bool.eq_false_iff.mpr fun posted => notLocked posted locked
    | fails now notLocked old settled state denied unlocked => exact absurd locked notLocked
    | clears now state denied unlocked posted => exact posted
    | ticks later state nothing => rw [nothing]; rfl
  kept locked alone := by
    have vault : (w.step σ event).vault = w.vault.step event := rfl
    rw [news] at alone
    rw [vault]
    cases seen with
    | passes now state denied unlocked notLocked =>
      rcases state.cases with same | ⟨none, s, was, spent, stale⟩
      · exact Int.le_of_eq (congrArg (fun state => (state.map LoginAttemptState.lockedUntil).getD 0) same.symm)
      · rw [Subject.Locked, Subject.lockedUntil, was] at locked
        exact absurd locked (Int.not_lt.mpr spent)
    | fails now notLocked old settled state denied unlocked => exact absurd locked notLocked
    | clears now state denied unlocked posted => exact absurd alone (by rw [unlocked]; decide)
    | ticks later state nothing =>
      exact Int.le_of_eq (congrArg (fun state => (state.map LoginAttemptState.lockedUntil).getD 0) state.symm)

end Account

section Steps

variable {σ : Subject} {v w : Vault} {u a : String} {acts : List Act}

/-- A failure that is recorded counts for the subject, or it is another one's. -/
theorem Seen.recorded (owner : isUsername σ.username = true) (valid : isUsername u = true) (now : w.now = v.now)
    (settled : Settles v.now (σ.state v) (σ.state w)) (notLocked : σ.covers u a = true → ¬σ.Locked v)
    (denied : acts.countP σ.denies ≤ 1) (other : σ.covers u a = false → acts.any σ.denies = false)
    (unlocked : acts.any σ.succeeds = false) (posted : acts.any σ.posts = false) :
    Seen σ v (w.recordFailedLogin u (remoteAttemptKey u a)) acts := by
  by_cases same : σ.keyOf u a = σ.key
  · have covered := Subject.covers_of_key owner valid same
    refine .fails now (notLocked covered) (σ.state w) settled ?_ denied unlocked
    rw [Subject.state, σ.attempts_recordFailedLogin, same, bump_self, now]
    rfl
  · have apart : σ.covers u a = false := Bool.eq_false_iff.mpr fun covered => same (Subject.key_of_covers covered)
    have kept : σ.state (w.recordFailedLogin u (remoteAttemptKey u a)) = σ.state w := by
      rw [Subject.state, σ.attempts_recordFailedLogin, bump_other _ same]
      rfl
    refine .passes now (kept ▸ settled) (other apart) unlocked fun posts => ?_
    exact absurd posts (by rw [posted]; decide)

theorem Seen.cleared (owner : isUsername σ.username = true) (valid : isUsername u = true) (now : w.now = v.now)
    (state : σ.state w = σ.state v) (chain : Nat) :
    Seen σ v ((w.clearFailedLogins u (remoteAttemptKey u a)).note chain [.unlocked u a]) [.unlocked u a] := by
  by_cases same : σ.keyOf u a = σ.key
  · have covered := Subject.covers_of_key owner valid same
    refine .clears now ?_ rfl ?_ rfl
    · rw [σ.state_note, Subject.state, σ.attempts_clearFailedLogins, same]
      exact Function.update_self _ _ _
    · simp only [List.any_cons, Subject.succeeds, covered, Bool.true_or]
  · have apart : σ.covers u a = false := Bool.eq_false_iff.mpr fun covered => same (Subject.key_of_covers covered)
    have kept : σ.state ((w.clearFailedLogins u (remoteAttemptKey u a)).note chain [.unlocked u a]) = σ.state v := by
      rw [σ.state_note, Subject.state, σ.attempts_clearFailedLogins, Function.update_of_ne (Ne.symm same)]
      exact state
    refine .passes now (kept ▸ .same) rfl ?_ nofun
    simp only [List.any_cons, Subject.succeeds, apart, List.any_nil, Bool.or_false]

/-- A code is refused at once, or it is sent. -/
theorem Vault.submitKanidmTotp_cases (v : Vault) (u a pendingId totp : String) : ∃ flows,
    v.submitKanidmTotp u a pendingId totp =
        { v with pendingTotps := flows }.recordFailedLogin u (remoteAttemptKey u a) ∨
      ∃ (flow : PendingTotp) (code : Nat), v.submitKanidmTotp u a pendingId totp =
        { v with pendingTotps := flows, flights := v.flights ++ [Flight.mk u a flow.chain (.totp flow)] }.note
          flow.chain [.resumed u code v.now, .posted u a (.of (.totp code) flow.carried)] := by
  unfold Vault.submitKanidmTotp
  dsimp only
  split
  · exact ⟨v.pendingTotps, Or.inl rfl⟩
  · rename_i flow found
    split
    · exact ⟨v.pendingTotps, Or.inl rfl⟩
    · split
      · exact ⟨_, Or.inl rfl⟩
      · split
        · exact ⟨_, Or.inl rfl⟩
        · exact ⟨_, Or.inr ⟨flow, _, rfl⟩⟩

theorem Subject.settles_checked (σ : Subject) (v : Vault) (u a : String) :
    Settles v.now (σ.state v) (σ.state (v.loginLockedRemainingMs u (remoteAttemptKey u a)).1) := by
  have settles := remainingLockMs_settles (σ.attempts v) (σ.keyOf u a) σ.key v.now
  rw [← σ.attempts_loginLockedRemainingMs] at settles
  exact settles

theorem Subject.notLocked_of_checked (start : 0 ≤ v.now)
    (free : (v.loginLockedRemainingMs u (remoteAttemptKey u a)).2 ≤ 0) (covered : σ.covers u a = true) :
    ¬σ.Locked v := by
  have within := remainingLockMs_over start (Int.le_trans (σ.remaining_le v u a) free)
  rw [Subject.key_of_covers covered] at within
  exact Int.not_lt.mpr within

theorem Seen.unlock (owner : isUsername σ.username = true) (start : 0 ≤ v.now) (valid : isUsername u = true)
    (body : Body) : ∃ acts, Logged v (v.attemptVaultUnlock u a body) acts ∧
      Seen σ v (v.attemptVaultUnlock u a body) acts := by
  have settles := σ.settles_checked v u a
  rcases v.attemptVaultUnlock_cases u a body with only | ⟨free, id, goes⟩ | ⟨free, password, goes⟩
  · rw [only]
    exact ⟨[], .nothing rfl, .passes rfl settles rfl rfl nofun⟩
  · rw [goes]
    have notLocked := fun covered => Subject.notLocked_of_checked (σ := σ) start free covered
    obtain ⟨flows, refused | ⟨flow, code, sent⟩⟩ := Vault.submitKanidmTotp_cases
      (v.loginLockedRemainingMs u (remoteAttemptKey u a)).1 u a id (body.totp.getD "")
    · rw [refused]
      refine ⟨[], .nothing rfl, .recorded owner valid rfl ?_ notLocked (Nat.zero_le _) (fun _ => rfl) rfl rfl⟩
      cases σ <;> exact settles
    · rw [sent]
      refine ⟨_, ⟨flow.chain, rfl⟩, .passes rfl ?_ rfl rfl fun posts => notLocked ?_⟩
      · rw [σ.state_note]
        cases σ <;> exact settles
      · simpa [Subject.posts] using posts
  · rw [goes]
    refine ⟨_, ⟨_, rfl⟩, .passes rfl ?_ rfl rfl fun posts => Subject.notLocked_of_checked (σ := σ) start free ?_⟩
    · rw [Vault.startKanidmPasswordAuth, σ.state_note]
      cases σ <;> exact settles
    · simpa [Subject.posts] using posts

/-- What goes on after an answer that denies no credential. -/
theorem Seen.perform (owner : isUsername σ.username = true) {f : Flight} (valid : isUsername f.username = true)
    (notLocked : σ.covers f.username f.address = true → ¬σ.Locked v) (i : Nat) (answer : Answer)
    (id : { id : String // id ≠ "" }) (next : Move) :
    ∃ acts, Logged v ((v.note f.chain [.answered answer]).perform i f id next) acts ∧
      Seen σ v ((v.note f.chain [.answered answer]).perform i f id next) acts := by
  cases next with
  | post step carried phase =>
    refine ⟨[.answered answer, .posted f.username f.address (.of step carried)],
      ⟨f.chain, List.append_assoc _ _ _⟩, .passes rfl ?_ rfl rfl fun posts => notLocked ?_⟩
    · rw [Vault.perform, σ.state_note, σ.state_move, σ.state_note]
      exact .same
    · simpa [Subject.posts] using posts
  | register carried password =>
    refine ⟨[.answered answer, .registered f.username v.now], ⟨f.chain, List.append_assoc _ _ _⟩,
      .passes rfl ?_ rfl rfl nofun⟩
    cases σ <;> exact .same
  | revoke =>
    refine ⟨[.answered answer], ⟨f.chain, rfl⟩, .passes rfl ?_ rfl rfl nofun⟩
    cases σ <;> exact .same
  | deny =>
    refine ⟨[.answered answer], ⟨f.chain, rfl⟩,
      .recorded owner valid rfl ?_ notLocked (Nat.zero_le _) (fun _ => rfl) rfl rfl⟩
    cases σ <;> exact .same
  | fail =>
    refine ⟨[.answered answer], ⟨f.chain, rfl⟩, .passes rfl ?_ rfl rfl nofun⟩
    cases σ <;> exact .same

theorem Seen.resume (owner : isUsername σ.username = true) {i : Nat} {f : Flight}
    (valid : isUsername f.username = true)
    (calm : f.waits = true → σ.covers f.username f.address = true → ¬σ.Locked v) (response : Option Response)
    (id : { id : String // id ≠ "" }) :
    ∃ acts, Logged v (v.resume i response id f) acts ∧ Seen σ v (v.resume i response id f) acts := by
  by_cases finished : f.phase = .finished
  · unfold Vault.resume
    rw [finished]
    exact ⟨[], .nothing rfl, .passes rfl .same rfl rfl nofun⟩
  · by_cases revoking : f.phase = .revoking
    · unfold Vault.resume
      rw [revoking]
      have cleared := Seen.cleared (v := v) (w := v.move i f .finished) (a := f.address) owner valid rfl
        (σ.state_move v i f .finished) f.chain
      exact ⟨_, ⟨f.chain, rfl⟩, cleared⟩
    · have waits : f.waits = true := by
        rw [Flight.waits, bne_iff_ne.mpr finished, bne_iff_ne.mpr revoking]
        rfl
      rw [Vault.resume_asking finished revoking]
      cases postKanidmAuth response with
      | none => exact ⟨[], .nothing rfl, .passes rfl (by rw [σ.state_move]; exact .same) rfl rfl nofun⟩
      | some answer =>
        dsimp only
        split
        case h_2 => exact Seen.perform owner valid (calm waits) i answer id _
        case h_1 message credential denied =>
          rw [Phase.next_denied credential denied]
          refine ⟨[.answered answer, .refused f.username f.address], ⟨f.chain, rfl⟩,
            .recorded owner valid rfl ?_ (calm waits) ?_ ?_ rfl rfl⟩
          · cases σ <;> exact .same
          · exact (List.countP_cons_of_neg Bool.false_ne_true).trans_le List.countP_le_length
          · intro other
            simp only [List.any_cons, Subject.denies, other, List.any_nil, Bool.or_false]

theorem Seen.step (owner : isUsername σ.username = true) {w : Watch} (sound : w.Sound σ) {event : Event}
    (promised : event.Promised w) (calm : w.Calm σ event) :
    ∃ acts, Logged w.vault (w.vault.step event) acts ∧ Seen σ w.vault (w.vault.step event) acts := by
  cases event with
  | unlock username forwarded body => exact Seen.unlock owner sound.start promised body
  | answer i response id =>
    unfold Vault.step
    dsimp only
    cases at_i : w.vault.flights[i]? with
    | none => exact ⟨[], .nothing rfl, .passes rfl .same rfl rfl nofun⟩
    | some f =>
      exact Seen.resume owner (sound.names f (List.mem_of_getElem? at_i)) (calm f at_i) response id
  | sweep =>
    refine ⟨[], .nothing rfl, .passes rfl ?_ rfl rfl nofun⟩
    cases σ with
    | pair _ _ => exact pruneAttempts_settles _ _ _
    | user _ => exact pruneAttempts_settles _ _ _
  | clock now =>
    refine ⟨[], .nothing rfl, .ticks promised ?_ rfl⟩
    cases σ <;> rfl

end Steps

section Names

/-- The flights are those there were, with one that went on, or with a new one of the user that asks. -/
theorem names_set {flights : List Flight} (names : ∀ f ∈ flights, isUsername f.username = true) {i : Nat}
    {f : Flight} (valid : isUsername f.username = true) (phase : Phase) :
    ∀ g ∈ flights.set i { f with phase := phase }, isUsername g.username = true := by
  intro g member
  cases List.mem_or_eq_of_mem_set member with
  | inl old => exact names g old
  | inr new => exact new ▸ valid

theorem names_snoc {flights : List Flight} (names : ∀ f ∈ flights, isUsername f.username = true) {u : String}
    (valid : isUsername u = true) (a : String) (chain : Nat) (phase : Phase) :
    ∀ g ∈ flights ++ [Flight.mk u a chain phase], isUsername g.username = true := by
  intro g member
  cases List.mem_append.mp member with
  | inl old => exact names g old
  | inr new => exact List.mem_singleton.mp new ▸ valid

theorem Watch.Sound.names_step {σ : Subject} {w : Watch} (sound : w.Sound σ) {event : Event}
    (promised : event.Promised w) : ∀ f ∈ (w.vault.step event).flights, isUsername f.username = true := by
  have names := sound.names
  cases event with
  | unlock u forwarded body =>
    unfold Vault.step
    dsimp only
    rcases w.vault.attemptVaultUnlock_cases u (remoteAddressOf forwarded) body with
      only | ⟨_, id, goes⟩ | ⟨_, password, goes⟩
    · rw [only]
      exact names
    · rw [goes]
      obtain ⟨flows, refused | ⟨flow, code, sent⟩⟩ := Vault.submitKanidmTotp_cases
        (w.vault.loginLockedRemainingMs u (remoteAttemptKey u (remoteAddressOf forwarded))).1 u
        (remoteAddressOf forwarded) id (body.totp.getD "")
      · rw [refused]
        exact names
      · rw [sent]
        exact names_snoc names promised _ _ _
    · rw [goes]
      exact names_snoc names promised _ _ _
  | answer i response id =>
    unfold Vault.step
    dsimp only
    cases at_i : w.vault.flights[i]? with
    | none => exact names
    | some f =>
      have moved := fun phase => @names_set _ names i f (names f (List.mem_of_getElem? at_i)) phase
      dsimp only
      by_cases finished : f.phase = .finished
      · unfold Vault.resume
        rw [finished]
        exact names
      · by_cases revoking : f.phase = .revoking
        · unfold Vault.resume
          rw [revoking]
          exact moved _
        · rw [Vault.resume_asking finished revoking]
          cases postKanidmAuth response with
          | none => exact moved _
          | some answer =>
            dsimp only
            cases f.phase.next answer <;> exact moved _
  | sweep => exact names
  | clock now => exact names

end Names

theorem Watch.sound_initial (σ : Subject) : ({} : Watch).Sound σ where
  start := Int.le_refl 0
  names := nofun
  below := by cases σ <;> exact Nat.succ_pos _
  bounded := Nat.zero_le _
  counted _ := Nat.zero_le _
  past := Int.le_refl 0
  recent := nofun

/-- As long as no attempt of a pair or user goes on while its lock is running, the lockout bounds the
guesses however the requests overlap. -/
theorem lockout_bounds_guessing (σ : Subject) (owner : isUsername σ.username = true) (events : List Event)
    (promised : Runs.Along (Watch.step σ) (fun w event => event.Promised w) {} events)
    (calm : Runs.Along (Watch.step σ) (fun w event => w.Calm σ event) {} events) :
    ∀ early event late, events = early ++ event :: late →
      (Runs.run (Watch.step σ) {} early).Holds σ event := by
  refine Runs.steps_along (Watch.step σ) (fun w event => event.Promised w ∧ w.Calm σ event) (Watch.Sound σ)
    (fun w event => w.Holds σ event) ?_ ?_ {} events (promised.and _ calm) (Watch.sound_initial σ)
  · intro w event met sound
    obtain ⟨acts, logged, seen⟩ := Seen.step owner sound met.1 met.2
    exact sound.after logged.news (sound.names_step met.1) seen
  · intro w event met sound
    obtain ⟨acts, logged, seen⟩ := Seen.step owner sound met.1 met.2
    exact sound.holds logged.news (sound.names_step met.1) seen

section Guessing

/-- A guess by password at the address that no header names. -/
def guess : Event := .unlock "ann" none { password := some "guess" }

/-- The answers to one guess, the last of which denies it. -/
def denial (i : Nat) : List Event :=
  let offer : String → Response := fun kind =>
    { status := 200, body := some (.object [("state", .object [(kind, .array [.string "password"])])]) }
  [offer "choose", offer "continue", { status := 401 }].map fun response =>
    .answer i (some response) ⟨"unused", by decide⟩

/-- Six guesses at once: the first five are denied before the sixth has sent its password. -/
def overlapping : List Event := List.replicate 6 guess ++ (List.range 6).flatMap denial

theorem overlapping_guesses_pass_lock : ¬∀ (σ : Subject) (events : List Event), isUsername σ.username = true →
    Runs.Along (Watch.step σ) (fun w event => event.Promised w) {} events →
    ∀ early event late, events = early ++ event :: late → (Runs.run (Watch.step σ) {} early).Holds σ event := by
  intro all
  have promised : Runs.Along (Watch.step (.pair "ann" "unknown")) (fun w event => event.Promised w) {}
      overlapping := by decide +kernel
  have holds := all (.pair "ann" "unknown") overlapping (by decide) promised
    (overlapping.take 23) (.answer 5 (some { status := 401 }) ⟨"unused", by decide⟩) [] rfl
  have six : ((Runs.run (Watch.step (.pair "ann" "unknown")) {} (overlapping.take 23)).step (.pair "ann" "unknown")
      (.answer 5 (some { status := 401 }) ⟨"unused", by decide⟩)).denied = 6 := by decide +kernel
  exact absurd (six ▸ holds.bounded) (by decide)

/-- Five guesses one after the other, and a sixth that finds the lock. -/
theorem guesses_in_turn_are_bounded :
    (Runs.run (Watch.step (.pair "ann" "unknown")) {} ((List.range 5).flatMap fun i => guess :: denial i)).Holds
      (.pair "ann" "unknown") guess :=
  lockout_bounds_guessing (.pair "ann" "unknown") (by decide)
    (((List.range 5).flatMap fun i => guess :: denial i) ++ [guess]) (by decide +kernel) (by decide +kernel)
    _ guess [] rfl

end Guessing

end NixHomeServer.Homepage
