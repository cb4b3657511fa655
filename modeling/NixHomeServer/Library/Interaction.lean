import NixHomeServer.Library.Runs

/-! Programs of atomic calls, run under crashes, restarts, failing calls and
interference: which calls a program may make, what holds when it ends, and what
that says about sessions of such programs. -/
namespace NixHomeServer.Library

/-- A program asks the world one call at a time and continues from the reply. -/
inductive Prog (Op : Type) (Reply : Op → Type) (α : Type) where
  | done (a : α)
  | call (op : Op) (next : Reply op → Prog Op Reply α)

namespace Prog

variable {Op : Type} {Reply : Op → Type} {α β ε : Type}

def bind (f : α → Prog Op Reply β) : Prog Op Reply α → Prog Op Reply β
  | done a => f a
  | call op next => call op (fun reply => (next reply).bind f)

instance : Monad (Prog Op Reply) where
  pure := done
  bind p f := p.bind f

def ask (op : Op) : Prog Op Reply (Reply op) := call op done

end Prog

/-- How calls act (`C` settles what the world leaves open), what others may do between
them, and which calls are allowed where. -/
structure Setting (Op : Type) (Reply : Op → Type) (W C : Type) where
  perform : C → W → (op : Op) → W × Reply op
  possible : C → Prop
  rely : W → W → Prop
  permitted : W → Op → Prop
  refl : ∀ w, rely w w
  trans : ∀ {u v w}, rely u v → rely v w → rely u w

namespace Prog

variable {Op : Type} {Reply : Op → Type} {α β ε W C : Type} (S : Setting Op Reply W C)

/-- Under interference every call is permitted where it is made, and the result meets `post`. -/
def Safe (post : α → W → Prop) : Prog Op Reply α → W → Prop
  | done a, w => ∀ w', S.rely w w' → post a w'
  | call op next, w => ∀ w', S.rely w w' → S.permitted w' op ∧ ∀ c, S.possible c →
      (next (S.perform c w' op).2).Safe post (S.perform c w' op).1

variable {S}

theorem Safe.stable {post : α → W → Prop} {p : Prog Op Reply α} {w w' : W} (safe : p.Safe S post w)
    (moved : S.rely w w') : p.Safe S post w' := by
  cases p with
  | done a => exact fun u further => safe u (S.trans moved further)
  | call op next => exact fun u further => safe u (S.trans moved further)

theorem Safe.bind {post : α → W → Prop} {post' : β → W → Prop} {p : Prog Op Reply α} {w : W}
    {f : α → Prog Op Reply β} (safe : p.Safe S post w)
    (continues : ∀ a w', post a w' → (f a).Safe S post' w') : (p >>= f).Safe S post' w := by
  change (p.bind f).Safe S post' w
  induction p generalizing w with
  | done a => exact continues a w (safe w (S.refl w))
  | call op next ih =>
    intro w' moved
    obtain ⟨allowed, rest⟩ := safe w' moved
    exact ⟨allowed, fun c could => ih _ (rest c could)⟩

theorem Safe.mono {post post' : α → W → Prop} {p : Prog Op Reply α} {w : W} (safe : p.Safe S post w)
    (weaker : ∀ a w', post a w' → post' a w') : p.Safe S post' w := by
  induction p generalizing w with
  | done a => exact fun w' moved => weaker a w' (safe w' moved)
  | call op next ih =>
    intro w' moved
    obtain ⟨allowed, rest⟩ := safe w' moved
    exact ⟨allowed, fun c could => ih _ (rest c could)⟩

theorem Safe.map {post : α → W → Prop} {post' : β → W → Prop} {p : Prog Op Reply α} {w : W} (f : α → β)
    (safe : p.Safe S post w) (carries : ∀ a w', post a w' → post' (f a) w') :
    (f <$> p).Safe S post' w := by
  change (p.bind (fun a => done (f a))).Safe S post' w
  induction p generalizing w with
  | done a => exact fun w' moved => carries a w' (safe w' moved)
  | call op next ih =>
    intro w' moved
    obtain ⟨allowed, rest⟩ := safe w' moved
    exact ⟨allowed, fun c could => ih _ (rest c could)⟩

/-- A result that only a success has to meet. -/
def onOk (post : α → W → Prop) (r : Except ε α) (w : W) : Prop := ∀ a, r = .ok a → post a w

/-- A program whose errors end it. -/
theorem Safe.chain {mid : Except ε α → W → Prop} {post : Except ε β → W → Prop}
    {x : ExceptT ε (Prog Op Reply) α} {w : W} {f : α → ExceptT ε (Prog Op Reply) β}
    (safe : Prog.Safe S mid x.run w) (ok : ∀ a w', mid (.ok a) w' → Prog.Safe S post (f a).run w')
    (error : ∀ e w', mid (.error e) w' → Prog.Safe S post (done (.error e)) w') :
    Prog.Safe S post (x >>= f).run w := by
  apply Safe.bind safe
  intro r w' met
  cases r with
  | ok a => exact ok a w' met
  | error e => exact error e w' met

theorem Safe.andThen {post : α → W → Prop} {post' : β → W → Prop} {x : ExceptT ε (Prog Op Reply) α}
    {w : W} {f : α → ExceptT ε (Prog Op Reply) β} (safe : Prog.Safe S (onOk post) x.run w)
    (continues : ∀ a w', post a w' → Prog.Safe S (onOk post') (f a).run w') :
    Prog.Safe S (onOk post') (x >>= f).run w := by
  apply Safe.chain safe
  · exact fun a w' met => continues a w' (met a rfl)
  · intro e w' _ u moved b impossible
    cases impossible

/-- A result that is a success. -/
def succeeds (post : α → W → Prop) (r : Except ε α) (w : W) : Prop := ∃ a, r = .ok a ∧ post a w

theorem Safe.followed {post : α → W → Prop} {post' : β → W → Prop} {x : ExceptT ε (Prog Op Reply) α}
    {w : W} {f : α → ExceptT ε (Prog Op Reply) β} (safe : Prog.Safe S (succeeds post) x.run w)
    (continues : ∀ a w', post a w' → Prog.Safe S (succeeds post') (f a).run w') :
    Prog.Safe S (succeeds post') (x >>= f).run w := by
  apply Safe.bind safe
  rintro r w' ⟨a, rfl, met⟩
  exact continues a w' met

end Prog

namespace Prog

/-! Programs whose calls may fail: a call that fails ends them, or they look at the failure. -/
variable {Op : Type} {Answer : Op → Type} {ε α β W C : Type}

abbrev Failing (Answer : Op → Type) (ε β : Type) := ExceptT ε (Prog Op fun op => Except ε (Answer op)) β

/-- A call whose failure ends the program. -/
def must (op : Op) : Failing Answer ε (Answer op) := ExceptT.mk (ask op)

/-- A call whose failure the program looks at. -/
def attempt (op : Op) : Failing Answer ε (Except ε (Answer op)) := ExceptT.lift (ask op)

variable {S : Setting Op (fun op => Except ε (Answer op)) W C} {post : Except ε β → W → Prop} {w : W} {op : Op}

theorem Safe.attempt {f : Except ε (Answer op) → Failing Answer ε β}
    (ready : ∀ w', S.rely w w' → S.permitted w' op ∧
      ∀ c, S.possible c → Prog.Safe S post (f (S.perform c w' op).2).run (S.perform c w' op).1) :
    Prog.Safe S post (Prog.attempt op >>= f).run w := ready

theorem Safe.must {f : Answer op → Failing Answer ε β}
    (ready : ∀ w', S.rely w w' → S.permitted w' op ∧ ∀ c, S.possible c →
      (∀ answer, (S.perform c w' op).2 = .ok answer → Prog.Safe S post (f answer).run (S.perform c w' op).1) ∧
      ∀ e, (S.perform c w' op).2 = .error e → Prog.Safe S post (done (.error e)) (S.perform c w' op).1) :
    Prog.Safe S post (Prog.must op >>= f).run w := by
  intro w' moved
  obtain ⟨allowed, next⟩ := ready w' moved
  refine ⟨allowed, fun c could => ?_⟩
  change Prog.Safe S post (ExceptT.bindCont f (S.perform c w' op).2) (S.perform c w' op).1
  cases answer : (S.perform c w' op).2 with
  | ok a => exact (next c could).1 a answer
  | error e => exact (next c could).2 e answer

/-- A part of a program whose failure the rest looks at. -/
theorem Safe.lifted {mid : α → W → Prop} {x : Prog Op (fun op => Except ε (Answer op)) α} {f : α → Failing Answer ε β}
    (safe : x.Safe S mid w) (continues : ∀ a w', mid a w' → Prog.Safe S post (f a).run w') :
    Prog.Safe S post (ExceptT.lift x >>= f).run w := by
  have mapped : (Except.ok (ε := ε) <$> x).Safe S (fun r w' => ∃ a, r = .ok a ∧ mid a w') w :=
    Safe.map Except.ok safe fun a w' met => ⟨a, rfl, met⟩
  refine Safe.bind mapped ?_
  rintro r w' ⟨a, rfl, met⟩
  exact continues a w' met

end Prog

section Execution

variable {Op : Type} {Reply : Op → Type} {W C α : Type}

/-- What a program returns when its calls get their choices in turn, and the world it leaves. -/
def Prog.outcome (perform : C → W → (op : Op) → W × Reply op) :
    Prog Op Reply α → (Nat → C) → W → α × W
  | .done a, _, w => (a, w)
  | .call op next, choices, w =>
    (next (perform (choices 0) w op).2).outcome perform (fun i => choices (i + 1))
      (perform (choices 0) w op).1

theorem Prog.Safe.outcome {S : Setting Op Reply W C} {post : α → W → Prop} {p : Prog Op Reply α} {w : W}
    (safe : p.Safe S post w) (choices : Nat → C) (could : ∀ i, S.possible (choices i)) :
    post (p.outcome S.perform choices w).1 (p.outcome S.perform choices w).2 := by
  induction p generalizing w choices with
  | done a => exact safe w (S.refl w)
  | call op next ih =>
    apply ih
    · exact (safe w (S.refl w)).2 (choices 0) (could 0)
    · exact fun i => could (i + 1)

/-- What every permitted call keeps is kept by a program that is safe, however it ends. -/
theorem Prog.Safe.keeps {S : Setting Op Reply W C} {post : α → W → Prop} {p : Prog Op Reply α} {w : W}
    (safe : p.Safe S post w) (holds : W → Prop) (step : ∀ c w op, S.permitted w op → holds w → holds (S.perform c w op).1)
    (choices : Nat → C) (could : ∀ i, S.possible (choices i)) (before : holds w) :
    holds (p.outcome S.perform choices w).2 := by
  induction p generalizing w choices with
  | done a => exact before
  | call op next ih =>
    obtain ⟨allowed, rest⟩ := safe w (S.refl w)
    exact ih _ (rest (choices 0) (could 0)) _ (fun i => could (i + 1)) (step (choices 0) w op allowed before)

/-- A call that was made: where, which, and how it was settled. -/
structure Made (Op W C : Type) where
  world : W
  op : Op
  choice : C

/-- A world and the calls made so far. -/
structure Logged (Op W C : Type) where
  world : W
  log : List (Made Op W C) := []

def Logged.perform (perform : C → W → (op : Op) → W × Reply op) (c : C) (s : Logged Op W C) (op : Op) :
    Logged Op W C × Reply op :=
  (⟨(perform c s.world op).1, s.log ++ [⟨s.world, op, c⟩]⟩, (perform c s.world op).2)

end Execution

/-- A world and the program that is running on it. -/
structure Session (Op : Type) (Reply : Op → Type) (W α : Type) where
  world : W
  running : Option (Prog Op Reply α) := none

inductive SessionEvent (C E J : Type)
  | outside (e : E)
  | start (job : J)
  | step (c : C)
  | crash

namespace Session

variable {Op : Type} {Reply : Op → Type} {W C E J α : Type}

section Running

variable (perform : C → W → (op : Op) → W × Reply op) (disturb : E → W → W)
  (program : J → Prog Op Reply α)

/-- One event; a job starts only when none is running. -/
def next (s : Session Op Reply W α) : SessionEvent C E J → Session Op Reply W α
  | .outside e => { s with world := disturb e s.world }
  | .start job =>
    match s.running with
    | some (.call _ _) => s
    | _ => { s with running := some (program job) }
  | .step c =>
    match s.running with
    | some (.call op rest) =>
      { world := (perform c s.world op).1, running := some (rest (perform c s.world op).2) }
    | _ => s
  | .crash => { s with running := none }

end Running

/-- What a finished program returned. -/
def result (s : Session Op Reply W α) : Option α :=
  match s.running with
  | some (.done a) => some a
  | _ => none

variable {S : Setting Op Reply W C} (disturb : E → W → W) (program : J → Prog Op Reply α)

/-- The running program is safe where the world is. -/
def Sound (S : Setting Op Reply W C) (post : α → W → Prop) (s : Session Op Reply W α) : Prop :=
  ∀ p, s.running = some p → p.Safe S post s.world

theorem next_sound {post : α → W → Prop} {s : Session Op Reply W α} (sound : s.Sound S post)
    (event : SessionEvent C E J) (could : ∀ c, event = .step c → S.possible c)
    (bounded : ∀ e, event = .outside e → S.rely s.world (disturb e s.world))
    (starts : ∀ job, event = .start job → (program job).Safe S post s.world) :
    (s.next S.perform disturb program event).Sound S post := by
  intro p running
  cases event with
  | outside e => exact (sound p running).stable (bounded e rfl)
  | crash => cases running
  | start job =>
    simp only [next] at running ⊢
    split at running
    · exact sound p running
    · cases running
      exact starts job rfl
  | step c =>
    simp only [next] at running ⊢
    split at running
    · rename_i op rest calling
      cases running
      exact ((sound _ calling) s.world (S.refl _)).2 c (could c rfl)
    · exact sound p running

/-- An event changes the world by interference or by a permitted call. -/
theorem next_world {post : α → W → Prop} {s : Session Op Reply W α} (sound : s.Sound S post)
    (event : SessionEvent C E J) :
    (s.next S.perform disturb program event).world = s.world ∨
      (∃ e, event = .outside e ∧ (s.next S.perform disturb program event).world = disturb e s.world) ∨
      ∃ c op, event = .step c ∧ S.permitted s.world op ∧
        (s.next S.perform disturb program event).world = (S.perform c s.world op).1 := by
  cases event with
  | outside e => exact Or.inr (Or.inl ⟨e, rfl, rfl⟩)
  | crash => exact Or.inl rfl
  | start job =>
    simp only [next]
    split <;> exact Or.inl rfl
  | step c =>
    simp only [next]
    split
    · rename_i op rest calling
      exact Or.inr (Or.inr ⟨c, op, rfl, ((sound _ calling) s.world (S.refl _)).1, rfl⟩)
    · exact Or.inl rfl

/-- What permitted calls and interference keep is kept over every run of programs that are safe
where it holds, wherever they crash, and the running program stays safe. -/
theorem run_sound (post : α → W → Prop) (holds : W → Prop) (safe : ∀ job w, holds w → (program job).Safe S post w)
    (bounded : ∀ e w, S.rely w (disturb e w)) (outside : ∀ e w, holds w → holds (disturb e w))
    (step : ∀ c w op, S.permitted w op → holds w → holds (S.perform c w op).1) (could : ∀ c, S.possible c)
    (events : List (SessionEvent C E J)) {w : W} (before : holds w) :
    (Runs.run (fun s => next S.perform disturb program s) ⟨w, none⟩ events).Sound S post ∧
      holds (Runs.run (fun s => next S.perform disturb program s) ⟨w, none⟩ events).world := by
  refine Runs.run_invariant (fun s => next S.perform disturb program s)
    (fun s : Session Op Reply W α => s.Sound S post ∧ holds s.world) ?_ ⟨w, none⟩ events ⟨nofun, before⟩
  rintro s event ⟨sound, here⟩
  refine ⟨next_sound disturb program sound event (fun c _ => could c) (fun e _ => bounded e s.world)
    (fun job _ => safe job s.world here), ?_⟩
  rcases next_world disturb program sound event with same | ⟨e, -, moved⟩ | ⟨c, op, -, allowed, moved⟩
  · exact same ▸ here
  · exact moved ▸ outside e s.world here
  · exact moved ▸ step c s.world op allowed here

theorem run_keeps (post : α → W → Prop) (holds : W → Prop) (safe : ∀ job w, holds w → (program job).Safe S post w)
    (bounded : ∀ e w, S.rely w (disturb e w)) (outside : ∀ e w, holds w → holds (disturb e w))
    (step : ∀ c w op, S.permitted w op → holds w → holds (S.perform c w op).1) (could : ∀ c, S.possible c)
    (events : List (SessionEvent C E J)) {w : W} (before : holds w) :
    holds (Runs.run (fun s => next S.perform disturb program s) ⟨w, none⟩ events).world :=
  (run_sound disturb program post holds safe bounded outside step could events before).2

/-- A safe program that is given its calls finishes in a result that meets its condition. -/
theorem finishes {post : α → W → Prop} (p : Prog Op Reply α) (w : W) (safe : p.Safe S post w)
    (choices : Nat → C) (could : ∀ i, S.possible (choices i)) :
    ∃ count a w', post a w' ∧
      Runs.run (fun s => next S.perform disturb program s) ⟨w, some p⟩
        ((List.range count).map (fun i => SessionEvent.step (choices i))) = ⟨w', some (.done a)⟩ := by
  induction p generalizing w choices with
  | done a => exact ⟨0, a, w, safe w (S.refl w), rfl⟩
  | call op rest ih =>
    obtain ⟨count, a, w', met, reached⟩ := ih _ _ ((safe w (S.refl w)).2 (choices 0) (could 0))
      (fun i => choices (i + 1)) (fun i => could (i + 1))
    refine ⟨count + 1, a, w', met, ?_⟩
    rw [List.range_succ_eq_map, List.map_cons, List.map_map]
    exact reached

end Session

end NixHomeServer.Library
