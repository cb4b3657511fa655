import NixHomeServer.Homepage.Chains
import NixHomeServer.Library.Runs
import Mathlib.Data.List.Nodup

/-! Every session stems from a sign-in of its own user. -/
namespace NixHomeServer.Homepage

open NixHomeServer.Library

/-- The sign-in has never waited for a code. -/
def Fresh (acts : List Act) : Prop :=
  (∀ u t, .registered u t ∉ acts) ∧ ∀ u c t, .resumed u c t ∉ acts

/-- What is on record of a sign-in that a request goes on with. -/
def Phase.Sound (username : String) (acts : List Act) : Phase → Prop
  | .init password =>
    BeganFor username acts ∧ Awaiting acts ∧ Fresh acts ∧ (∃ u, .began u password ∈ acts) ∧ answersOf acts = []
  | .begun password initCookies carried =>
    BeganFor username acts ∧ Awaiting acts ∧ Fresh acts ∧ (∃ u, .began u password ∈ acts) ∧
      ∃ first, answersOf acts = [first] ∧ initCookies = first.cookies ∧ carried = carriedBy [first]
  | .cred carried =>
    BeganFor username acts ∧ Awaiting acts ∧ Fresh acts ∧ carried = carriedBy (answersOf acts)
  | .totp flow =>
    BeganFor username acts ∧ Awaiting acts ∧ flow.carried = carriedBy (answersOf acts) ∧
      ∀ p, flow.password = some p → ∃ u, .began u p ∈ acts
  | .totpPassword _ => BeganFor username acts ∧ Awaiting acts
  | .revoking =>
    BeganFor username acts ∧ Settled acts ∧ LastAnswer acts fun a => ∃ token, a.state = some (.success token)
  | .finished => True

/-- What is on record of a sign-in that waits for a code. -/
structure PendingTotp.Sound (flow : PendingTotp) (acts : List Act) : Prop where
  began : BeganFor flow.username acts
  settled : Settled acts
  offered : LastAnswer acts fun a => ∀ code, a.Offers (.totp code)
  carries : flow.carried = carriedBy (answersOf acts)
  supplied : ∀ p, flow.password = some p → ∃ u, .began u p ∈ acts
  registered : .registered flow.username flow.createdAt ∈ acts
  unused : ∀ u c t, .resumed u c t ∉ acts

/-- What a sign-in has come to when a request makes its next move. -/
def Move.Sound (username : String) (acts : List Act) : Move → Prop
  | .post step carried phase =>
    Follows username acts (.of step carried) ∧
      ∀ address, phase.Sound username (acts ++ [.posted username address (.of step carried)])
  | .register carried password =>
    BeganFor username acts ∧ Settled acts ∧ Fresh acts ∧ (LastAnswer acts fun a => ∀ code, a.Offers (.totp code)) ∧
      carried = carriedBy (answersOf acts) ∧ ∀ p, password = some p → ∃ u, .began u p ∈ acts
  | .revoke => Phase.revoking.Sound username acts
  | .deny => True
  | .fail => True

section Moves

variable {username address : String} {acts : List Act} {a : Answer}

theorem Awaiting.settled (awaiting : Awaiting acts) (a : Answer) : Settled (acts ++ [.answered a]) := by
  unfold Awaiting Settled at *
  rw [postsOf_append, answersOf_append, List.length_append, List.length_append, awaiting]
  rfl

theorem Settled.awaiting (settled : Settled acts) (username address : String) (request : Request) :
    Awaiting (acts ++ [.posted username address request]) := by
  unfold Awaiting Settled at *
  rw [postsOf_append, answersOf_append, List.length_append, List.length_append, settled]
  rfl

theorem lastAnswer_answered (acts : List Act) {p : Answer → Prop} (holds : p a) :
    LastAnswer (acts ++ [.answered a]) p :=
  ⟨a, by rw [answersOf_append]; exact List.getLast?_concat, holds⟩

theorem answersOf_answered (acts : List Act) (a : Answer) : answersOf (acts ++ [.answered a]) = answersOf acts ++ [a] :=
  answersOf_append _ _

theorem answersOf_posted (acts : List Act) (request : Request) :
    answersOf (acts ++ [.posted username address request]) = answersOf acts :=
  (answersOf_append _ _).trans (List.append_nil _)

theorem Fresh.snoc (fresh : Fresh acts) {act : Act} (first : ∀ u t, act ≠ .registered u t)
    (second : ∀ u c t, act ≠ .resumed u c t) : Fresh (acts ++ [act]) := by
  refine ⟨fun u t member => ?_, fun u c t member => ?_⟩
  · rcases List.mem_append.mp member with old | new
    · exact fresh.1 u t old
    · exact first u t (List.mem_singleton.mp new).symm
  · rcases List.mem_append.mp member with old | new
    · exact fresh.2 u c t old
    · exact second u c t (List.mem_singleton.mp new).symm

theorem began_append {password : String} (began : ∃ u, Act.began u password ∈ acts) (more : List Act) :
    ∃ u, Act.began u password ∈ acts ++ more := by
  obtain ⟨u, member⟩ := began
  exact ⟨u, List.mem_append_left _ member⟩

/-- An answer leads on to what the record of the sign-in justifies. -/
theorem Phase.Sound.next {phase : Phase} (sound : phase.Sound username acts) (waits : phase ≠ .revoking)
    (a : Answer) : (phase.next a).Sound username (acts ++ [.answered a]) := by
  cases phase with
  | init password =>
    obtain ⟨began, awaiting, fresh, supplied, nothing⟩ := sound
    have answers : answersOf (acts ++ [.answered a]) = [a] := by rw [answersOf_answered, nothing]; rfl
    simp only [Phase.next]
    split
    case h_1 => trivial
    case h_3 => trivial
    case h_2 mechs chosen =>
      split
      case isTrue => trivial
      case isFalse =>
        split
        case isTrue => trivial
        case isFalse offered =>
          have settled := awaiting.settled a
          have fresh : Fresh (acts ++ [.answered a]) := fresh.snoc nofun nofun
          refine ⟨⟨began.append _, settled, lastAnswer_answered acts ⟨mechs, chosen, ?_⟩, ?_, trivial⟩, fun address => ?_⟩
          · split
            case isTrue mfa => exact mfa
            case isFalse other => exact Classical.not_not.mp fun missing => offered ⟨missing, other⟩
          · rw [answers, carriedBy_first]
            rfl
          · refine ⟨(began.append _).append _, settled.awaiting _ _ _, fresh.snoc nofun nofun,
              began_append (began_append supplied _) _, a, ?_, rfl, carriedBy_first a⟩
            rw [answersOf_posted, answers]
  | begun password initCookies carried =>
    obtain ⟨began, awaiting, fresh, supplied, first, only, rfl, rfl⟩ := sound
    have answers : answersOf (acts ++ [.answered a]) = [first, a] := by rw [answersOf_answered, only]; rfl
    have settled := awaiting.settled a
    have fresh : Fresh (acts ++ [.answered a]) := fresh.snoc nofun nofun
    have supplied := began_append supplied [.answered a]
    simp only [Phase.next]
    split
    case h_1 => trivial
    case h_3 => trivial
    case h_2 allowed continues =>
      rw [carriedBy_second]
      split
      case isTrue totp =>
        refine ⟨began.append _, settled, fresh, lastAnswer_answered acts fun _ => ⟨allowed, continues, totp⟩,
          answers ▸ rfl, ?_⟩
        rintro p ⟨⟩
        exact supplied
      case isFalse =>
        split
        case isTrue => trivial
        case isFalse offered =>
          have listed := Classical.not_not.mp offered
          refine ⟨⟨began.append _, settled, lastAnswer_answered acts ⟨allowed, continues, listed⟩, ?_, supplied⟩,
            fun address => ?_⟩
          · rw [answers]
            rfl
          · refine ⟨(began.append _).append _, settled.awaiting _ _ _, fresh.snoc nofun nofun, ?_⟩
            rw [answersOf_posted, answers]
  | cred carried =>
    obtain ⟨began, awaiting, fresh, rfl⟩ := sound
    have settled := awaiting.settled a
    simp only [Phase.next]
    split
    case h_1 => trivial
    case h_2 => trivial
    case h_3 state is _ =>
      split
      case isTrue => trivial
      case isFalse =>
        split
        case h_1 token is => exact ⟨began.append _, settled, lastAnswer_answered acts ⟨token, is⟩⟩
        case h_3 => trivial
        case h_2 allowed is =>
          split
          case isFalse => trivial
          case isTrue totp =>
            refine ⟨began.append _, settled, fresh.snoc nofun nofun,
              lastAnswer_answered acts fun _ => ⟨allowed, is, totp⟩, ?_, nofun⟩
            rw [answersOf_answered, carriedBy_snoc]
  | totp flow =>
    obtain ⟨began, awaiting, carries, supplied⟩ := sound
    have settled := awaiting.settled a
    simp only [Phase.next]
    split
    case h_1 allowed continues =>
      split
      case h_2 => trivial
      case h_1 password kept =>
        split
        case isFalse => trivial
        case isTrue offered =>
          refine ⟨⟨began.append _, settled, lastAnswer_answered acts ⟨allowed, continues, offered⟩, ?_,
            began_append (supplied password kept) _⟩, fun address => ⟨(began.append _).append _, settled.awaiting _ _ _⟩⟩
          rw [answersOf_answered, ← carriedBy_snoc, carries]
          rfl
    case h_2 => trivial
    case h_3 token is => exact ⟨began.append _, settled, lastAnswer_answered acts ⟨token, is⟩⟩
    case h_4 => trivial
  | totpPassword carried =>
    obtain ⟨began, awaiting⟩ := sound
    simp only [Phase.next]
    split
    case h_1 => trivial
    case h_2 token is => exact ⟨began.append _, awaiting.settled a, lastAnswer_answered acts ⟨token, is⟩⟩
    case h_3 => trivial
  | revoking => exact absurd rfl waits
  | finished => trivial

end Moves

section Phases

variable {username : String} {acts : List Act}

theorem Phase.Sound.waits {phase : Phase} (sound : phase.Sound username acts) (going : phase ≠ .finished)
    (asking : phase ≠ .revoking) : BeganFor username acts ∧ Awaiting acts := by
  cases phase with
  | init _ => exact ⟨sound.1, sound.2.1⟩
  | begun _ _ _ => exact ⟨sound.1, sound.2.1⟩
  | cred _ => exact ⟨sound.1, sound.2.1⟩
  | totp _ => exact ⟨sound.1, sound.2.1⟩
  | totpPassword _ => exact sound
  | revoking => exact absurd rfl asking
  | finished => exact absurd rfl going

/-- A credential that is denied ends the request. -/
theorem Phase.next_denied {phase : Phase} (credential : phase.credential = true) {a : Answer} {message : String}
    (denied : a.state = some (.denied message)) : phase.next a = .deny := by
  cases phase with
  | cred _ => simp only [Phase.next, denied]
  | totp _ => simp only [Phase.next, denied]
  | totpPassword _ => simp only [Phase.next, denied]
  | init _ => cases credential
  | begun _ _ _ => cases credential
  | revoking => cases credential
  | finished => cases credential

end Phases

section Flows

theorem oldest_mem {flows : List PendingTotp} {flow : PendingTotp} (found : oldest flows = some flow) : flow ∈ flows := by
  have general : ∀ choose : Option PendingTotp → PendingTotp → Option PendingTotp,
      (∀ best x, choose best x = some flow → best = some flow ∨ x = flow) →
      ∀ (rest : List PendingTotp) (best : Option PendingTotp),
        rest.foldl choose best = some flow → best = some flow ∨ flow ∈ rest := by
    intro choose one rest
    induction rest with
    | nil => exact fun best found => Or.inl found
    | cons x rest ih =>
      intro best found
      rcases ih _ found with here | later
      · rcases one best x here with old | rfl
        · exact Or.inl old
        · exact Or.inr List.mem_cons_self
      · exact Or.inr (List.mem_cons_of_mem x later)
  unfold oldest at found
  refine (general _ ?_ flows none found).elim (fun start => by cases start) id
  intro best x here
  cases best with
  | none => exact Or.inr (Option.some.inj here)
  | some b =>
    dsimp only at here
    split at here
    · exact Or.inr (Option.some.inj here)
    · exact Or.inl here

theorem exists_oldest {flows : List PendingTotp} (filled : flows ≠ []) : ∃ flow, oldest flows = some flow := by
  have general : ∀ choose : Option PendingTotp → PendingTotp → Option PendingTotp,
      (∀ b x, ∃ y, choose (some b) x = some y) →
      ∀ (rest : List PendingTotp) (b : PendingTotp), ∃ flow, rest.foldl choose (some b) = some flow := by
    intro choose one rest
    induction rest with
    | nil => exact fun b => ⟨b, rfl⟩
    | cons x rest ih =>
      intro b
      obtain ⟨y, kept⟩ := one b x
      rw [List.foldl_cons, kept]
      exact ih y
  cases flows with
  | nil => exact absurd rfl filled
  | cons x rest =>
    refine general _ (fun b y => ?_) rest x
    dsimp only
    split
    · exact ⟨y, rfl⟩
    · exact ⟨b, rfl⟩

theorem makeRoom_sublist (fuel : Nat) (flows : List PendingTotp) : (makeRoom fuel flows).Sublist flows := by
  induction fuel generalizing flows with
  | zero => exact List.Sublist.refl flows
  | succ fuel ih =>
    unfold makeRoom
    split
    · split
      · exact (ih _).trans List.filter_sublist
      · exact List.Sublist.refl flows
    · exact List.Sublist.refl flows

/-- There is room for one more flow. -/
theorem length_makeRoom (fuel : Nat) (flows : List PendingTotp) (enough : flows.length ≤ fuel) :
    (makeRoom fuel flows).length < maxPendingFlows := by
  induction fuel generalizing flows with
  | zero =>
    have nothing : flows = [] := List.length_eq_zero_iff.mp (Nat.le_zero.mp enough)
    subst nothing
    decide
  | succ fuel ih =>
    unfold makeRoom
    split
    case isFalse room => exact Nat.lt_of_not_le room
    case isTrue full =>
      have filled : flows ≠ [] := by
        rintro rfl
        exact absurd full (by decide)
      obtain ⟨flow, found⟩ := exists_oldest filled
      rw [found]
      dsimp only
      refine ih _ (Nat.le_of_lt_succ (Nat.lt_of_lt_of_le ?_ enough))
      refine List.length_filter_lt_length_iff_exists.mpr ⟨flow, oldest_mem found, ?_⟩
      simp

/-- The flow is there once, and so are those of other ids. -/
theorem setPending_perm {flows : List PendingTotp} (ids : (flows.map PendingTotp.id).Nodup) (flow : PendingTotp) :
    (setPending flows flow).Perm ((flows.filter fun other => other.id ≠ flow.id) ++ [flow]) := by
  unfold setPending
  split
  case isFalse absent =>
    have all : flows.filter (fun other => other.id ≠ flow.id) = flows :=
      List.filter_eq_self.mpr fun other member => decide_eq_true fun same =>
        absent (List.any_eq_true.mpr ⟨other, member, decide_eq_true same⟩)
    rw [all]
  case isTrue known =>
    induction flows with
    | nil => cases known
    | cons x rest ih =>
      obtain ⟨first, later⟩ := List.nodup_cons.mp ids
      by_cases same : x.id = flow.id
      · have others : ∀ other ∈ rest, other.id ≠ flow.id := fun other member equal =>
          first (List.mem_map.mpr ⟨other, member, equal.trans same.symm⟩)
        have kept : (rest.map fun other => if other.id = flow.id then flow else other) = rest :=
          (List.map_congr_left fun other member => if_neg (others other member)).trans (List.map_id rest)
        have all : rest.filter (fun other => other.id ≠ flow.id) = rest :=
          List.filter_eq_self.mpr fun other member => decide_eq_true (others other member)
        rw [List.map_cons, if_pos same, kept, List.filter_cons_of_neg (by simp [same]), all]
        exact (List.perm_append_singleton flow rest).symm
      · rw [List.map_cons, if_neg same, List.filter_cons_of_pos (by simp [same]), List.cons_append]
        refine List.Perm.cons x (ih later ?_)
        rw [List.any_cons, decide_eq_false same, Bool.false_or] at known
        exact known

end Flows

def Flight.active (f : Flight) : Bool := f.phase != .finished

namespace Vault

def acts (v : Vault) (chain : Nat) : List Act := slice Entry.chain Entry.act chain v.log

/-- The requests and the waiting flows that a sign-in could go on with. -/
def holders (v : Vault) (chain : Nat) : Nat :=
  v.flights.countP (fun f => f.active && f.chain == chain) +
    v.pendingTotps.countP (fun flow => flow.chain == chain)

structure Sound (v : Vault) : Prop where
  genuine : ∀ c, Justified Reason (v.acts c)
  flights : ∀ (i : Nat) (f : Flight), v.flights[i]? = some f → f.phase.Sound f.username (v.acts f.chain)
  pending : ∀ flow ∈ v.pendingTotps, flow.Sound (v.acts flow.chain)
  single : ∀ c, v.holders c ≤ 1
  fresh : ∀ c, v.chains ≤ c → v.acts c = [] ∧ v.holders c = 0
  ids : (v.pendingTotps.map PendingTotp.id).Nodup
  users : (v.pendingTotps.map PendingTotp.username).Nodup
  bounded : v.pendingTotps.length ≤ maxPendingFlows

theorem acts_note_self (v : Vault) (c : Nat) (more : List Act) : (v.note c more).acts c = v.acts c ++ more := by
  have labelled : ∀ entry ∈ more.map (Entry.mk c), entry.chain = c := by
    intro entry member
    obtain ⟨_, _, rfl⟩ := List.mem_map.mp member
    rfl
  have content : (more.map (Entry.mk c)).map Entry.act = more := by
    rw [List.map_map]
    exact List.map_id more
  exact (slice_append c _ _).trans (congrArg _ ((slice_of_label labelled).trans content))

theorem acts_note_other (v : Vault) {c d : Nat} (other : d ≠ c) (more : List Act) :
    (v.note c more).acts d = v.acts d := by
  have labelled : ∀ entry ∈ more.map (Entry.mk c), entry.chain ≠ d := by
    intro entry member
    obtain ⟨_, _, rfl⟩ := List.mem_map.mp member
    exact other.symm
  exact (slice_append d _ _).trans ((congrArg _ (slice_of_other labelled)).trans (List.append_nil _))

section Steps

variable {v : Vault} {i : Nat} {f : Flight}

/-- Changes of the counters and of the clock concern no sign-in. -/
theorem Sound.counters (sound : v.Sound) (now : Int) (remote user : Attempts) :
    ({ v with now := now, remoteAttempts := remote, userAttempts := user } : Vault).Sound :=
  ⟨sound.genuine, sound.flights, sound.pending, sound.single, sound.fresh, sound.ids, sound.users, sound.bounded⟩

theorem Sound.lt_chains (sound : v.Sound) {c : Nat} (held : 0 < v.holders c) : c < v.chains := by
  by_contra past
  have none_held := (sound.fresh c (Nat.le_of_not_lt past)).2
  omega

theorem holders_pos_of_flight (at_i : v.flights[i]? = some f) (active : f.active = true) : 0 < v.holders f.chain := by
  have counted := census_pos (fun g => g.active && g.chain == f.chain) at_i (by simp [active])
  unfold holders
  omega

theorem holders_pos_of_flow {flow : PendingTotp} (member : flow ∈ v.pendingTotps) : 0 < v.holders flow.chain := by
  have counted : 0 < v.pendingTotps.countP (fun other => other.chain == flow.chain) :=
    List.countP_pos_iff.mpr ⟨flow, member, beq_self_eq_true _⟩
  unfold holders
  omega

/-- A request under way is the only one that can go on with its sign-in. -/
theorem Sound.alone (sound : v.Sound) (at_i : v.flights[i]? = some f) (active : f.active = true) :
    (∀ j g, v.flights[j]? = some g → j ≠ i → g.active = true → g.chain ≠ f.chain) ∧
      ∀ flow ∈ v.pendingTotps, flow.chain ≠ f.chain := by
  have single := sound.single f.chain
  have counted := census_pos (fun g => g.active && g.chain == f.chain) at_i (by simp [active])
  unfold holders at single
  constructor
  · intro j g at_j apart going same
    have uncounted := census_other (fun g => g.active && g.chain == f.chain) (by omega) at_i at_j apart
      (by simp [active])
    simp [going, same] at uncounted
  · intro flow member same
    have waiting : 0 < v.pendingTotps.countP (fun other => other.chain == f.chain) :=
      List.countP_pos_iff.mpr ⟨flow, member, beq_iff_eq.mpr same⟩
    omega

theorem holders_move (at_i : v.flights[i]? = some f) (active : f.active = true) (phase : Phase) (more : List Act)
    (c : Nat) : ((v.move i f phase).note f.chain more).holders c ≤ v.holders c := by
  have moved := census_set (fun g => g.active && g.chain == c) at_i { f with phase := phase }
  have fewer : ∀ later : Bool, (later && f.chain == c).toNat ≤ (f.chain == c).toNat := by
    intro later
    cases later <;> cases f.chain == c <;> decide
  have bound := fewer ({ f with phase := phase } : Flight).active
  simp only [active, Bool.true_and, holders, move, note] at moved bound ⊢
  omega

/-- One request goes on; what it adds to the record of its sign-in is justified there. -/
theorem Sound.moved (sound : v.Sound) (at_i : v.flights[i]? = some f) (active : f.active = true) {phase : Phase}
    {more : List Act} (justified : Justified Reason (v.acts f.chain ++ more))
    (after : phase.Sound f.username (v.acts f.chain ++ more)) :
    ((v.move i f phase).note f.chain more).Sound := by
  obtain ⟨no_flight, no_flow⟩ := sound.alone at_i active
  have known := sound.lt_chains (holders_pos_of_flight at_i active)
  have self := acts_note_self (v.move i f phase) f.chain more
  have others := fun c (other : c ≠ f.chain) => acts_note_other (v.move i f phase) other more
  refine ⟨fun c => ?_, fun j g at_j => ?_, fun flow member => ?_, fun c => ?_, fun c past => ⟨?_, ?_⟩,
    sound.ids, sound.users, sound.bounded⟩
  · by_cases same : c = f.chain
    · rw [same, self]
      exact justified
    · rw [others c same]
      exact sound.genuine c
  · rcases getElem?_set_cases at_j with ⟨rfl, rfl⟩ | ⟨apart, at_j⟩
    · rw [self]
      exact after
    · by_cases going : g.active = true
      · rw [others _ (no_flight j g at_j apart going)]
        exact sound.flights j g at_j
      · have idle : g.phase = .finished := by
          simpa [Flight.active] using going
        rw [idle]
        trivial
  · rw [others _ (no_flow flow member)]
    exact sound.pending flow member
  · exact (holders_move at_i active phase more c).trans (sound.single c)
  · have past : v.chains ≤ c := past
    rw [others c (by omega)]
    exact (sound.fresh c past).1
  · have fewer := holders_move at_i active phase more c
    have none_held := (sound.fresh c past).2
    omega

/-- A request that ends adds nothing. -/
theorem Sound.finish (sound : v.Sound) (at_i : v.flights[i]? = some f) (active : f.active = true) :
    (v.move i f .finished).Sound := by
  have next := @Sound.moved v i f sound at_i active .finished []
    (by rw [List.append_nil]; exact sound.genuine f.chain) trivial
  have same : (v.move i f .finished).note f.chain [] = v.move i f .finished := by
    simp only [note, List.map_nil, List.append_nil]
  exact same ▸ next

/-- Waiting flows that are deleted concern no other sign-in. -/
theorem Sound.filter (sound : v.Sound) (keep : PendingTotp → Bool) :
    ({ v with pendingTotps := v.pendingTotps.filter keep } : Vault).Sound := by
  have fewer : ∀ c, ({ v with pendingTotps := v.pendingTotps.filter keep } : Vault).holders c ≤ v.holders c :=
    fun c => Nat.add_le_add_left (List.filter_sublist.countP_le) _
  refine ⟨sound.genuine, sound.flights, fun flow member => sound.pending flow (List.mem_of_mem_filter member),
    fun c => (fewer c).trans (sound.single c), fun c past => ⟨(sound.fresh c past).1, ?_⟩,
    sound.ids.sublist (List.filter_sublist.map _), sound.users.sublist (List.filter_sublist.map _),
    (List.length_filter_le _ _).trans sound.bounded⟩
  have none_held := (sound.fresh c past).2
  have := fewer c
  omega

/-- A request takes up a sign-in that nothing else can go on with. -/
theorem Sound.join (sound : v.Sound) (known : f.chain < v.chains) (free : v.holders f.chain = 0)
    {more : List Act} (justified : Justified Reason (v.acts f.chain ++ more))
    (after : f.phase.Sound f.username (v.acts f.chain ++ more)) :
    ({ v with flights := v.flights ++ [f] }.note f.chain more).Sound := by
  have self := acts_note_self { v with flights := v.flights ++ [f] } f.chain more
  have others := fun c (other : c ≠ f.chain) => acts_note_other { v with flights := v.flights ++ [f] } other more
  have counts : ∀ c, ({ v with flights := v.flights ++ [f] }.note f.chain more).holders c ≤
      v.holders c + (f.chain == c).toNat := by
    intro c
    have fewer : (f.active && f.chain == c).toNat ≤ (f.chain == c).toNat := by
      cases f.active <;> cases f.chain == c <;> decide
    simp only [holders, note, census_append]
    omega
  refine ⟨fun c => ?_, fun j g at_j => ?_, fun flow member => ?_, fun c => ?_, fun c past => ⟨?_, ?_⟩,
    sound.ids, sound.users, sound.bounded⟩
  · by_cases same : c = f.chain
    · rw [same, self]
      exact justified
    · rw [others c same]
      exact sound.genuine c
  · have at_j : (v.flights ++ [f])[j]? = some g := at_j
    rw [List.getElem?_append] at at_j
    split at at_j
    · by_cases going : g.active = true
      · have held := holders_pos_of_flight at_j going
        rw [others _ (fun same => by rw [same] at held; omega)]
        exact sound.flights j g at_j
      · have idle : g.phase = .finished := by simpa [Flight.active] using going
        rw [idle]
        trivial
    · obtain rfl := List.mem_singleton.mp (List.mem_of_getElem? at_j)
      rw [self]
      exact after
  · have held := @holders_pos_of_flow v flow member
    rw [others _ (fun same => by rw [same] at held; omega)]
    exact sound.pending flow member
  · have bound := counts c
    by_cases same : f.chain = c
    · subst same
      rw [free, beq_self_eq_true] at bound
      exact bound
    · rw [beq_eq_false_iff_ne.mpr same] at bound
      exact bound.trans (sound.single c)
  · have past : v.chains ≤ c := past
    rw [others c (by omega)]
    exact (sound.fresh c past).1
  · have past : v.chains ≤ c := past
    have bound := counts c
    rw [(sound.fresh c past).2, beq_eq_false_iff_ne.mpr (by omega : f.chain ≠ c)] at bound
    exact Nat.le_zero.mp bound

theorem Sound.start (sound : v.Sound) (username address password : String) :
    (v.startKanidmPasswordAuth username address password).Sound := by
  obtain ⟨nothing, free⟩ := sound.fresh v.chains le_rfl
  have wider : ({ v with chains := v.chains + 1 } : Vault).Sound :=
    ⟨sound.genuine, sound.flights, sound.pending, sound.single, fun c past => sound.fresh c (Nat.le_of_succ_le past),
      sound.ids, sound.users, sound.bounded⟩
  refine @Sound.join _ ⟨username, address, v.chains, .init password⟩ wider (Nat.lt_succ_self _) free
    [.began username password, .posted username address (.of (.init2 username) {})] ?_ ?_
  · have nothing : ({ v with chains := v.chains + 1 } : Vault).acts v.chains = [] := nothing
    rw [nothing]
    have first : Justified Reason [Act.began username password] := justified_nil.snoc rfl
    exact first.snoc (Or.inl ⟨⟨password, rfl⟩, rfl⟩)
  · have nothing : ({ v with chains := v.chains + 1 } : Vault).acts v.chains = [] := nothing
    rw [nothing]
    exact ⟨⟨password, address, [], rfl⟩, rfl, ⟨by simp, by simp⟩, ⟨username, List.mem_cons_self⟩, rfl⟩

theorem Sound.submit (sound : v.Sound) (username address pendingId totp : String) :
    (v.submitKanidmTotp username address pendingId totp).Sound := by
  unfold submitKanidmTotp
  dsimp only
  split
  case h_1 => exact sound.counters v.now _ _
  case h_2 flow found =>
    have member := List.mem_of_find?_eq_some found
    have same := List.find?_some found
    split
    case isTrue => exact sound.counters v.now _ _
    case isFalse owned =>
      have owned := Classical.not_not.mp owned
      have left := sound.filter fun other => other.id.val ≠ pendingId
      split
      case isTrue => exact left.counters v.now _ _
      case isFalse young =>
        split
        case h_1 => exact left.counters v.now _ _
        case h_2 code _ =>
          have waits := sound.pending flow member
          have known := sound.lt_chains (holders_pos_of_flow member)
          have out : decide (flow.id.val ≠ pendingId) = false := by
            have same := of_decide_eq_true same
            exact decide_eq_false (fun other => other same)
          have free : ({ v with pendingTotps := v.pendingTotps.filter fun other => other.id.val ≠ pendingId } : Vault).holders
              flow.chain = 0 := by
            have single := sound.single flow.chain
            have fewer := census_filter (fun other : PendingTotp => other.chain == flow.chain)
              (fun other => other.id.val ≠ pendingId) member out
            rw [beq_self_eq_true, Bool.toNat_true] at fewer
            unfold holders at single ⊢
            dsimp only
            omega
          have began : BeganFor username (v.acts flow.chain) := owned ▸ waits.began
          have resumed : Justified Reason (v.acts flow.chain ++ [.resumed username code v.now]) :=
            (sound.genuine flow.chain).snoc
              ⟨began, waits.unused, flow.createdAt, owned ▸ waits.registered, Int.not_le.mp young⟩
          have answers : answersOf (v.acts flow.chain ++ [.resumed username code v.now]) = answersOf (v.acts flow.chain) :=
            (answersOf_append _ _).trans (List.append_nil _)
          have settled : Settled (v.acts flow.chain ++ [.resumed username code v.now]) := by
            unfold Settled
            rw [answers, postsOf_append]
            exact (congrArg List.length (List.append_nil _)).trans waits.settled
          have follows : Follows username (v.acts flow.chain ++ [.resumed username code v.now])
              (.of (.totp code) flow.carried) := by
            refine ⟨began.append _, settled, ?_, ?_, username, v.now, List.mem_append_right _ List.mem_cons_self⟩
            · obtain ⟨a, last, offers⟩ := waits.offered
              exact ⟨a, answers ▸ last, offers code⟩
            · rw [answers, ← waits.carries]
              rfl
          have split : v.acts flow.chain ++ [.resumed username code v.now, .posted username address (.of (.totp code) flow.carried)] =
              v.acts flow.chain ++ [.resumed username code v.now] ++ [.posted username address (.of (.totp code) flow.carried)] := by
            rw [List.append_assoc]
            rfl
          refine @Sound.join _ ⟨username, address, flow.chain, .totp flow⟩ left known free
            [.resumed username code v.now, .posted username address (.of (.totp code) flow.carried)] ?_ ?_
          · change Justified Reason (v.acts flow.chain ++ _)
            rw [split]
            exact resumed.snoc (Or.inr follows)
          · change Phase.Sound username (v.acts flow.chain ++ _) (.totp flow)
            rw [split]
            refine ⟨(began.append _).append _, settled.awaiting _ _ _, ?_, fun p kept => ?_⟩
            · rw [answersOf_posted, answers]
              exact waits.carries
            · exact began_append (began_append (waits.supplied p kept) _) _

/-- A sign-in that nothing else can go on with waits for a code, in the place of older flows. -/
theorem Sound.wait (sound : v.Sound) {flow : PendingTotp} (known : flow.chain < v.chains)
    (free : v.holders flow.chain = 0) {rest : List PendingTotp} (kept : rest.Sublist v.pendingTotps)
    (room : rest.length < maxPendingFlows) (others : ∀ other ∈ rest, other.username ≠ flow.username)
    {act : Act} (justified : Justified Reason (v.acts flow.chain ++ [act]))
    (after : flow.Sound (v.acts flow.chain ++ [act])) :
    ({ v with pendingTotps := setPending rest flow }.note flow.chain [act]).Sound := by
  have self := acts_note_self { v with pendingTotps := setPending rest flow } flow.chain [act]
  have elsewhere := fun c (other : c ≠ flow.chain) =>
    acts_note_other { v with pendingTotps := setPending rest flow } other [act]
  have perm := setPending_perm (sound.ids.sublist (kept.map _)) flow
  have smaller : (rest.filter fun other => other.id ≠ flow.id).Sublist v.pendingTotps :=
    List.filter_sublist.trans kept
  have counts : ∀ c, ({ v with pendingTotps := setPending rest flow }.note flow.chain [act]).holders c ≤
      v.holders c + (flow.chain == c).toNat := by
    intro c
    have fewer : _ ≤ v.pendingTotps.countP fun other => other.chain == c := smaller.countP_le
    have total := perm.countP_eq fun other => other.chain == c
    rw [census_append] at total
    simp only [holders, note]
    omega
  refine ⟨fun c => ?_, fun j g at_j => ?_, fun other member => ?_, fun c => ?_, fun c past => ⟨?_, ?_⟩, ?_, ?_, ?_⟩
  · by_cases same : c = flow.chain
    · rw [same, self]
      exact justified
    · rw [elsewhere c same]
      exact sound.genuine c
  · by_cases going : g.active = true
    · have held := @holders_pos_of_flight v j g at_j going
      rw [elsewhere _ (fun same => by rw [same] at held; omega)]
      exact sound.flights j g at_j
    · have idle : g.phase = .finished := by simpa [Flight.active] using going
      rw [idle]
      trivial
  · rcases List.mem_append.mp (perm.mem_iff.mp member) with old | new
    · have old := smaller.subset old
      have held := @holders_pos_of_flow v other old
      rw [elsewhere _ (fun same => by rw [same] at held; omega)]
      exact sound.pending other old
    · obtain rfl := List.mem_singleton.mp new
      rw [self]
      exact after
  · have bound := counts c
    by_cases same : flow.chain = c
    · subst same
      rw [free, beq_self_eq_true] at bound
      exact bound
    · rw [beq_eq_false_iff_ne.mpr same] at bound
      exact bound.trans (sound.single c)
  · have past : v.chains ≤ c := past
    rw [elsewhere c (by omega)]
    exact (sound.fresh c past).1
  · have past : v.chains ≤ c := past
    have bound := counts c
    rw [(sound.fresh c past).2, beq_eq_false_iff_ne.mpr (by omega : flow.chain ≠ c)] at bound
    exact Nat.le_zero.mp bound
  · refine (perm.map _).nodup_iff.mpr ?_
    rw [List.map_append, List.nodup_append]
    refine ⟨sound.ids.sublist (smaller.map _), List.nodup_singleton _, ?_⟩
    rintro id member last single rfl
    obtain ⟨other, there, rfl⟩ := List.mem_map.mp member
    exact of_decide_eq_true (List.mem_filter.mp there).2 (List.mem_singleton.mp single)
  · refine (perm.map _).nodup_iff.mpr ?_
    rw [List.map_append, List.nodup_append]
    refine ⟨sound.users.sublist (smaller.map _), List.nodup_singleton _, ?_⟩
    rintro name member last single rfl
    obtain ⟨other, there, rfl⟩ := List.mem_map.mp member
    exact others other (List.mem_of_mem_filter there) (List.mem_singleton.mp single)
  · have total := perm.length_eq
    have fewer : (rest.filter fun other => other.id ≠ flow.id).length ≤ rest.length := List.length_filter_le _ _
    rw [List.length_append, List.length_singleton] at total
    exact total.trans_le (Nat.le_trans (Nat.succ_le_succ fewer) room)

theorem note_note (v : Vault) (c : Nat) (early late : List Act) :
    (v.note c early).note c late = v.note c (early ++ late) := by
  simp only [note, List.map_append, List.append_assoc]

theorem holders_finish (sound : v.Sound) (at_i : v.flights[i]? = some f) (active : f.active = true)
    (more : List Act) : ((v.move i f .finished).note f.chain more).holders f.chain = 0 := by
  have moved := census_set (fun g => g.active && g.chain == f.chain) at_i { f with phase := .finished }
  have idle : ({ f with phase := .finished } : Flight).active = false := rfl
  have single := sound.single f.chain
  simp only [active, idle, beq_self_eq_true, Bool.true_and, Bool.false_and, Bool.toNat_true, Bool.toNat_false] at moved
  simp only [holders, note, move] at single ⊢
  omega

/-- An answer that is no denial of a credential leads on as the record of the sign-in justifies. -/
theorem Sound.perform (sound : v.Sound) (at_i : v.flights[i]? = some f) (going : f.phase ≠ .finished)
    (asking : f.phase ≠ .revoking) (a : Answer) (id : { id : String // id ≠ "" }) :
    ((v.note f.chain [.answered a]).perform i f id (f.phase.next a)).Sound := by
  have active : f.active = true := bne_iff_ne.mpr going
  have here := sound.flights i f at_i
  have waits := here.waits going asking
  have answered : Justified Reason (v.acts f.chain ++ [.answered a]) := (sound.genuine f.chain).snoc waits.2
  have reached := here.next asking a
  generalize f.phase.next a = next at reached
  cases next with
  | post step carried phase =>
    obtain ⟨follows, after⟩ := reached
    have posted := @Justified.snoc _ _ _ answered (.posted f.username f.address (.of step carried)) (Or.inr follows)
    have after := after f.address
    rw [List.append_assoc] at posted after
    have moved := sound.moved at_i active posted after
    rwa [← note_note] at moved
  | register carried password =>
    obtain ⟨began, settled, fresh, offered, carries, supplied⟩ := reached
    have ended := @Sound.moved v i f sound at_i active .finished _ answered trivial
    have self : ((v.move i f .finished).note f.chain [.answered a]).acts f.chain = v.acts f.chain ++ [.answered a] :=
      acts_note_self (v.move i f .finished) f.chain [.answered a]
    have free := holders_finish sound at_i active [.answered a]
    have known := sound.lt_chains (holders_pos_of_flight at_i active)
    have registered : Justified Reason (v.acts f.chain ++ [.answered a] ++ [.registered f.username v.now]) :=
      answered.snoc ⟨began, fresh.1⟩
    have answers : answersOf (v.acts f.chain ++ [.answered a] ++ [.registered f.username v.now]) =
        answersOf (v.acts f.chain ++ [.answered a]) := (answersOf_append _ _).trans (List.append_nil _)
    refine @Sound.wait _ ended ⟨id, f.username, carried, v.now, password, f.chain⟩ known free _
      ((makeRoom_sublist _ _).trans List.filter_sublist) (length_makeRoom _ _ le_rfl) ?_
      (.registered f.username v.now) ?_ ?_
    · intro other member same
      have kept := (List.mem_filter.mp ((makeRoom_sublist _ _).subset member)).2
      simp [same] at kept
    · rw [self]
      exact registered
    · rw [self]
      refine ⟨began.append _, ?_, ?_, ?_, fun p kept => began_append (supplied p kept) _,
        List.mem_append_right _ List.mem_cons_self, fun u c t member => ?_⟩
      · unfold Settled
        rw [answers, postsOf_append]
        exact (congrArg List.length (List.append_nil _)).trans settled
      · obtain ⟨b, last, offers⟩ := offered
        exact ⟨b, answers ▸ last, offers⟩
      · rw [answers]
        exact carries
      · rcases List.mem_append.mp member with old | new
        · exact fresh.2 u c t old
        · exact absurd (List.mem_singleton.mp new) nofun
  | revoke => exact sound.moved at_i active answered reached
  | deny => exact (@Sound.moved v i f sound at_i active .finished _ answered trivial).counters v.now _ _
  | fail => exact @Sound.moved v i f sound at_i active .finished _ answered trivial

theorem Sound.resume (sound : v.Sound) (at_i : v.flights[i]? = some f) (response : Option Response)
    (id : { id : String // id ≠ "" }) : (v.resume i response id f).Sound := by
  have here := sound.flights i f at_i
  by_cases going : f.phase = .finished
  · unfold Vault.resume
    rw [going]
    exact sound
  · have active : f.active = true := bne_iff_ne.mpr going
    by_cases revoking : f.phase = .revoking
    · rw [revoking] at here
      have unlocked := @Justified.snoc _ _ _ (sound.genuine f.chain) (.unlocked f.username f.address) here
      have moved := @Sound.moved v i f sound at_i active .finished _ unlocked trivial
      unfold Vault.resume
      rw [revoking]
      exact moved.counters v.now _ _
    · rw [resume_asking going revoking]
      cases postKanidmAuth response with
      | none => exact sound.finish at_i active
      | some a =>
        dsimp only
        split
        case h_2 => exact sound.perform at_i going revoking a id
        case h_1 message credential denied =>
          rw [Phase.next_denied credential denied]
          have waits := here.waits going revoking
          have answered : Justified Reason (v.acts f.chain ++ [.answered a]) := (sound.genuine f.chain).snoc waits.2
          have refused := @Justified.snoc _ _ _ answered (.refused f.username f.address)
            ⟨waits.1.append _, lastAnswer_answered _ ⟨message, denied⟩⟩
          rw [List.append_assoc] at refused
          exact (@Sound.moved v i f sound at_i active .finished _ refused trivial).counters v.now _ _

theorem Sound.step (sound : v.Sound) (event : Event) : (v.step event).Sound := by
  cases event with
  | unlock username forwarded body =>
    have checked := sound.counters v.now
      (remainingLockMs v.remoteAttempts (remoteAttemptKey username (remoteAddressOf forwarded)) v.now).1
      (remainingLockMs v.userAttempts username v.now).1
    simp only [Vault.step]
    rcases attemptVaultUnlock_cases v username (remoteAddressOf forwarded) body with
      same | ⟨_, id, same⟩ | ⟨_, password, same⟩
    · rw [same]
      exact checked
    · rw [same]
      exact checked.submit _ _ _ _
    · rw [same]
      exact checked.start _ _ _
  | answer i response id =>
    simp only [Vault.step]
    cases at_i : v.flights[i]? with
    | some f => exact sound.resume at_i response id
    | none => exact sound
  | sweep => exact (sound.filter _).counters v.now _ _
  | clock now => exact sound.counters now _ _

theorem sound_initial : ({} : Vault).Sound :=
  ⟨fun _ => justified_nil, nofun, nofun, fun _ => Nat.zero_le 1, fun _ _ => ⟨rfl, rfl⟩, List.nodup_nil,
    List.nodup_nil, Nat.zero_le _⟩

end Steps

end Vault

/-- In every run each session is minted on a sign-in of its own user that Kanidm has answered with
success; every step of a sign-in carries what its own answers gave and sends a credential of its own
where the last answer offered that method; and a waiting flow is taken up once, in time and by its user. -/
theorem vault_sessions_genuine (events : List Event) :
    let v := Runs.run Vault.step {} events
    (∀ chain, Justified Reason (v.acts chain)) ∧ (v.pendingTotps.map PendingTotp.username).Nodup ∧
      v.pendingTotps.length ≤ maxPendingFlows := by
  have sound := Runs.run_invariant Vault.step Vault.Sound (fun _ event sound => sound.step event) {} events
    Vault.sound_initial
  exact ⟨sound.genuine, sound.users, sound.bounded⟩

end NixHomeServer.Homepage
