/-! Computations that return, fail or panic. -/
namespace NixHomeServer.Library

inductive Checked (ε α : Type)
  | returns (value : α)
  | fails (error : ε)
  | panics
  deriving DecidableEq, Repr

namespace Checked

variable {ε α β : Type}

def bind (first : Checked ε α) (next : α → Checked ε β) : Checked ε β :=
  match first with
  | .returns a => next a
  | .fails e => .fails e
  | .panics => .panics

instance : Monad (Checked ε) where
  pure := .returns
  bind := bind

@[simp] theorem pure_eq (a : α) : (pure a : Checked ε α) = .returns a := rfl

@[simp] theorem returns_bind (a : α) (next : α → Checked ε β) : (returns a >>= next) = next a := rfl

@[simp] theorem fails_bind (e : ε) (next : α → Checked ε β) : (fails e >>= next) = .fails e := rfl

@[simp] theorem panics_bind (next : α → Checked ε β) : ((panics : Checked ε α) >>= next) = .panics := rfl

theorem bind_eq_returns {first : Checked ε α} {next : α → Checked ε β} {b : β} :
    (first >>= next) = .returns b ↔ ∃ a, first = .returns a ∧ next a = .returns b := by
  cases first with
  | returns a => exact ⟨fun done => ⟨a, rfl, done⟩, fun ⟨_, same, done⟩ => by cases same; exact done⟩
  | fails e => exact ⟨nofun, fun ⟨_, same, _⟩ => by cases same⟩
  | panics => exact ⟨nofun, fun ⟨_, same, _⟩ => by cases same⟩

theorem bind_eq_panics {first : Checked ε α} {next : α → Checked ε β} :
    (first >>= next) = .panics ↔ first = .panics ∨ ∃ a, first = .returns a ∧ next a = .panics := by
  cases first with
  | returns a =>
    exact ⟨fun lost => .inr ⟨a, rfl, lost⟩,
      fun either => either.elim nofun fun ⟨_, same, lost⟩ => by cases same; exact lost⟩
  | fails e => exact ⟨nofun, fun either => either.elim nofun fun ⟨_, same, _⟩ => by cases same⟩
  | panics => exact ⟨fun _ => .inl rfl, fun _ => rfl⟩

/-- An absent value is a failure. -/
def ofOption (error : ε) : Option α → Checked ε α
  | some a => .returns a
  | none => .fails error

@[simp] theorem ofOption_some (error : ε) (a : α) : ofOption error (some a) = .returns a := rfl

@[simp] theorem ofOption_none (error : ε) : (ofOption error none : Checked ε α) = .fails error := rfl

@[simp] theorem ofOption_eq_returns {error : ε} {value : Option α} {a : α} :
    ofOption error value = .returns a ↔ value = some a := by
  cases value <;> simp [ofOption]

@[simp] theorem ofOption_ne_panics (error : ε) (value : Option α) : ofOption error value ≠ .panics := by
  cases value <;> nofun

/-- A value that is known to be there: its absence is a panic. -/
def unwrap : Option α → Checked ε α
  | some a => .returns a
  | none => .panics

@[simp] theorem unwrap_some (a : α) : (unwrap (some a) : Checked ε α) = .returns a := rfl

@[simp] theorem unwrap_none : (unwrap none : Checked ε α) = .panics := rfl

theorem unwrap_eq_returns {value : Option α} {a : α} :
    (unwrap value : Checked ε α) = .returns a ↔ value = some a := by
  cases value <;> simp [unwrap]

/-- The computation goes on where the condition holds. -/
def ensure (condition : Prop) [Decidable condition] (error : ε) : Checked ε Unit :=
  if condition then .returns () else .fails error

theorem ensure_eq_returns {condition : Prop} [Decidable condition] {error : ε} {u : Unit} :
    ensure condition error = .returns u ↔ condition := by
  unfold ensure
  split <;> simp_all

@[simp] theorem ensure_ne_panics (condition : Prop) [Decidable condition] (error : ε) :
    ensure condition error ≠ .panics := by
  unfold ensure
  split <;> nofun

/-- A value of a range type: one outside it is a panic. -/
def fits (bound n : Nat) : Checked ε Unit :=
  if n < bound then .returns () else .panics

/-- A result of a range type: one outside it is a panic. -/
def within (bound n : Nat) : Checked ε Nat :=
  if n < bound then .returns n else .panics

theorem within_of_lt {bound n : Nat} (small : n < bound) : (within bound n : Checked ε Nat) = .returns n := if_pos small

theorem within_of_le {bound n : Nat} (large : bound ≤ n) : (within bound n : Checked ε Nat) = .panics :=
  if_neg (Nat.not_lt.mpr large)

/-- Another error in place of the one there is. -/
def mapError {ε' : Type} (f : ε → ε') : Checked ε α → Checked ε' α
  | .returns a => .returns a
  | .fails e => .fails (f e)
  | .panics => .panics

/-- A difference of unsigned numbers: one below zero is a panic. -/
def minus (a b : Nat) : Checked ε Nat :=
  if b ≤ a then .returns (a - b) else .panics

/-- The steps of a loop that only checks. -/
def each (check : α → Checked ε Unit) : List α → Checked ε Unit
  | [] => .returns ()
  | a :: rest => check a >>= fun _ => each check rest

/-- The computation does not panic, and what it returns meets the postcondition. -/
def Sound (post : α → Prop) : Checked ε α → Prop
  | .returns a => post a
  | .fails _ => True
  | .panics => False

namespace Sound

variable {post post' : α → Prop} {computation : Checked ε α}

theorem iff : computation.Sound post ↔ computation ≠ .panics ∧ ∀ a, computation = .returns a → post a := by
  cases computation with
  | returns a => exact ⟨fun met => ⟨nofun, fun _ same => by cases same; exact met⟩, fun both => both.2 a rfl⟩
  | fails e => exact ⟨fun _ => ⟨nofun, nofun⟩, fun _ => trivial⟩
  | panics => exact ⟨False.elim, fun both => both.1 rfl⟩

theorem mono (sound : computation.Sound post) (weaker : ∀ a, post a → post' a) : computation.Sound post' := by
  cases computation with
  | returns a => exact weaker a sound
  | fails e => exact trivial
  | panics => exact sound

/-- What does not panic returns what it returns. -/
theorem self (safe : computation ≠ .panics) : computation.Sound fun a => computation = .returns a := by
  cases computation with
  | returns a => exact rfl
  | fails e => exact trivial
  | panics => exact safe rfl

theorem trivially (safe : computation ≠ .panics) : computation.Sound fun _ => True :=
  (self safe).mono fun _ _ => trivial

theorem bind {next : α → Checked ε β} {result : β → Prop} (sound : computation.Sound post)
    (step : ∀ a, post a → (next a).Sound result) : (computation >>= next).Sound result := by
  cases computation with
  | returns a => exact step a sound
  | fails e => exact trivial
  | panics => exact sound.elim

theorem ensure {condition : Prop} [Decidable condition] {error : ε} :
    (Checked.ensure condition error).Sound fun _ => condition := by
  unfold Checked.ensure
  split
  · assumption
  · trivial

theorem ofOption {error : ε} {value : Option α} :
    (Checked.ofOption error value).Sound fun a => value = some a := by
  cases value with
  | none => trivial
  | some a => rfl

theorem unwrap {value : Option α} {a : α} (there : value = some a) :
    (Checked.unwrap value : Checked ε α).Sound fun b => value = some b := by
  subst there
  exact rfl

theorem fits {bound n : Nat} (small : n < bound) : (Checked.fits bound n : Checked ε Unit).Sound fun _ => True := by
  rw [Checked.fits, if_pos small]
  exact trivial

theorem minus {a b : Nat} (below : b ≤ a) : (Checked.minus a b : Checked ε Nat).Sound fun d => d + b = a := by
  rw [Checked.minus, if_pos below]
  exact Nat.sub_add_cancel below

theorem each {check : α → Checked ε Unit} {holds : α → Prop} {items : List α}
    (step : ∀ a ∈ items, (check a).Sound fun _ => holds a) :
    (Checked.each check items).Sound fun _ => ∀ a ∈ items, holds a := by
  induction items with
  | nil => exact nofun
  | cons a rest ih =>
    refine (step a List.mem_cons_self).bind fun _ first => ?_
    refine (ih fun b member => step b (List.mem_cons_of_mem a member)).mono fun _ others => ?_
    exact List.forall_mem_cons.mpr ⟨first, others⟩

end Sound

/-- A computation that gives up with nothing. -/
def orNone : Checked Unit α → Checked ε (Option α)
  | .returns a => .returns (some a)
  | .fails () => .returns none
  | .panics => .panics

theorem Sound.orNone {computation : Checked Unit α} {post : α → Prop} (sound : computation.Sound post) :
    (computation.orNone : Checked ε (Option α)).Sound fun found => ∀ a, found = some a → post a := by
  cases computation with
  | returns a => exact fun b same => Option.some.inj same ▸ sound
  | fails e => exact nofun
  | panics => exact sound

/-- A computation that cannot fail returns. -/
theorem Sound.returned {computation : Checked Empty α} {post : α → Prop} (sound : computation.Sound post) :
    ∃ a, computation = .returns a ∧ post a := by
  cases computation with
  | returns a => exact ⟨a, rfl, sound⟩
  | fails e => exact e.elim
  | panics => exact sound.elim

section Scan

/-- How a pass of a loop ends. -/
inductive Flow (σ : Type)
  | onward (state : σ)
  | stop (state : σ)
  deriving DecidableEq, Repr

namespace Flow

variable {σ : Type} {goes ends : σ → Prop}

/-- What holds after a pass: the loop goes on with one thing and stops with another. -/
def Meets (goes ends : σ → Prop) : Flow σ → Prop
  | .onward state => goes state
  | .stop state => ends state

@[simp] theorem meets_onward {state : σ} : (onward state).Meets goes ends ↔ goes state := Iff.rfl

@[simp] theorem meets_stop {state : σ} : (stop state).Meets goes ends ↔ ends state := Iff.rfl

def map {τ : Type} (f : σ → τ) : Flow σ → Flow τ
  | .onward state => .onward (f state)
  | .stop state => .stop (f state)

theorem Meets.map {τ : Type} {goes' ends' : τ → Prop} {f : σ → τ} {flow : Flow σ} (met : flow.Meets goes ends)
    (onward : ∀ state, goes state → goes' (f state)) (stop : ∀ state, ends state → ends' (f state)) :
    (flow.map f).Meets goes' ends' := by
  cases flow with
  | onward state => exact onward state met
  | stop state => exact stop state met

end Flow

variable {σ : Type}

/-- A loop over the items that a pass may stop. -/
def scan (pass : σ → α → Checked ε (Flow σ)) : List α → σ → Checked ε σ
  | [], state => .returns state
  | a :: rest, state => pass state a >>= fun flow => match flow with
    | .onward next => scan pass rest next
    | .stop last => .returns last

/-- What every pass keeps, a loop keeps. -/
theorem Sound.scan {pass : σ → α → Checked ε (Flow σ)} {goes ends : σ → Prop} {items : List α} {state : σ}
    (step : ∀ state, goes state → ∀ a ∈ items, (pass state a).Sound (Flow.Meets goes ends))
    (finish : ∀ state, goes state → ends state) (start : goes state) : (scan pass items state).Sound ends := by
  induction items generalizing state with
  | nil => exact finish state start
  | cons a rest ih =>
    refine (step state start a List.mem_cons_self).bind fun flow met => ?_
    cases flow with
    | onward next => exact ih (fun s good b member => step s good b (List.mem_cons_of_mem a member)) met
    | stop last => exact met

end Scan

end Checked

end NixHomeServer.Library
