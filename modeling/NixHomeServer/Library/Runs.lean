import Mathlib.Order.Defs.Unbundled

/-! Runs of a step function over a list of actions, and the two induction rules
for them: an invariant that every step keeps, and a preorder that every step
from an invariant state moves up. -/
namespace NixHomeServer.Library.Runs

variable {σ α : Type}

def run (step : σ → α → σ) (s : σ) (actions : List α) : σ := actions.foldl step s

theorem run_append (step : σ → α → σ) (s : σ) (early late : List α) :
    run step s (early ++ late) = run step (run step s early) late :=
  List.foldl_append

theorem run_snoc (step : σ → α → σ) (s : σ) (early : List α) (last : α) :
    run step s (early ++ [last]) = step (run step s early) last := by
  rw [run_append]
  rfl

/-- A property of the start that every step keeps holds after every run. -/
theorem run_invariant (step : σ → α → σ) (holds : σ → Prop)
    (kept : ∀ s a, holds s → holds (step s a)) (s : σ) (actions : List α) (start : holds s) :
    holds (run step s actions) := by
  induction actions generalizing s with
  | nil => exact start
  | cons a rest ih => exact ih (step s a) (kept s a start)

/-- The same for a property that only the actions of this run are known to keep. -/
theorem run_invariant_mem (step : σ → α → σ) (holds : σ → Prop) (s : σ) (actions : List α)
    (kept : ∀ s, ∀ a ∈ actions, holds s → holds (step s a)) (start : holds s) :
    holds (run step s actions) := by
  induction actions generalizing s with
  | nil => exact start
  | cons a rest ih =>
    exact ih (step s a) (fun s b member => kept s b (List.mem_cons_of_mem _ member))
      (kept s a List.mem_cons_self start)

/-- If every step from an invariant state moves up in a preorder, every run does. -/
theorem run_monotone (step : σ → α → σ) (holds : σ → Prop) (below : σ → σ → Prop)
    (reflexive : ∀ s, below s s) (transitive : ∀ s t u, below s t → below t u → below s u)
    (kept : ∀ s a, holds s → holds (step s a)) (moves : ∀ s a, holds s → below s (step s a))
    (s : σ) (actions : List α) (start : holds s) : below s (run step s actions) := by
  induction actions generalizing s with
  | nil => exact reflexive s
  | cons a rest ih =>
    exact transitive s (step s a) _ (moves s a start) (ih (step s a) (kept s a start))

/-- Every step of a run meets a condition where it is taken. -/
def Along (step : σ → α → σ) (met : σ → α → Prop) : σ → List α → Prop
  | _, [] => True
  | s, a :: rest => met s a ∧ Along step met (step s a) rest

def Along.decide (step : σ → α → σ) (met : σ → α → Prop) [∀ s a, Decidable (met s a)] :
    (s : σ) → (actions : List α) → Decidable (Along step met s actions)
  | _, [] => isTrue trivial
  | s, a :: rest =>
    have := Along.decide step met (step s a) rest
    inferInstanceAs (Decidable (met s a ∧ Along step met (step s a) rest))

instance (step : σ → α → σ) (met : σ → α → Prop) [∀ s a, Decidable (met s a)] (s : σ) (actions : List α) :
    Decidable (Along step met s actions) := Along.decide step met s actions

/-- An invariant that the steps of a run keep where they meet the condition. -/
theorem run_invariant_along (step : σ → α → σ) (met : σ → α → Prop) (holds : σ → Prop)
    (kept : ∀ s a, met s a → holds s → holds (step s a)) (s : σ) (actions : List α)
    (all : Along step met s actions) (start : holds s) : holds (run step s actions) := by
  induction actions generalizing s with
  | nil => exact start
  | cons a rest ih => exact ih (step s a) all.2 (kept s a all.1 start)

theorem along_append (step : σ → α → σ) (met : σ → α → Prop) (s : σ) (early late : List α) :
    Along step met s (early ++ late) ↔ Along step met s early ∧ Along step met (run step s early) late := by
  induction early generalizing s with
  | nil => exact ⟨fun all => ⟨trivial, all⟩, And.right⟩
  | cons a rest ih => exact (and_congr_right fun _ => ih (step s a)).trans and_assoc.symm

/-- Where the steps of a run meet the condition, it moves up in a preorder if they do. -/
theorem run_monotone_along (step : σ → α → σ) (met : σ → α → Prop) (holds : σ → Prop) (below : σ → σ → Prop)
    (reflexive : ∀ s, below s s) (transitive : ∀ s t u, below s t → below t u → below s u)
    (kept : ∀ s a, met s a → holds s → holds (step s a)) (moves : ∀ s a, met s a → holds s → below s (step s a))
    (s : σ) (actions : List α) (all : Along step met s actions) (start : holds s) :
    below s (run step s actions) := by
  induction actions generalizing s with
  | nil => exact reflexive s
  | cons a rest ih =>
    exact transitive s (step s a) _ (moves s a all.1 start) (ih (step s a) all.2 (kept s a all.1 start))

theorem Along.and (step : σ → α → σ) {met also : σ → α → Prop} {s : σ} {actions : List α}
    (all : Along step met s actions) (every : Along step also s actions) :
    Along step (fun s a => met s a ∧ also s a) s actions := by
  induction actions generalizing s with
  | nil => trivial
  | cons a rest ih => exact ⟨⟨all.1, every.1⟩, ih all.2 every.2⟩

/-- What the steps of such a run do, each from the state that the invariant holds in. -/
theorem steps_along (step : σ → α → σ) (met : σ → α → Prop) (holds : σ → Prop) (good : σ → α → Prop)
    (kept : ∀ s a, met s a → holds s → holds (step s a)) (does : ∀ s a, met s a → holds s → good s a)
    (s : σ) (actions : List α) (all : Along step met s actions) (start : holds s) :
    ∀ early a late, actions = early ++ a :: late → good (run step s early) a := by
  induction actions generalizing s with
  | nil => exact fun early a late split => absurd split.symm (List.append_ne_nil_of_right_ne_nil _ nofun)
  | cons b rest ih =>
    intro early a late split
    cases early with
    | nil =>
      obtain ⟨rfl, -⟩ := List.cons.inj split
      exact does s b all.1 start
    | cons c early =>
      obtain ⟨rfl, tail⟩ := List.cons.inj split
      exact ih (step s b) all.2 (kept s b all.1 start) early a late tail

/-- Where a step keeps a property exactly if it meets a condition, the property holds in every state
of a run exactly if the condition is met along it. -/
theorem prefixes_iff_along (step : σ → α → σ) (met : σ → α → Prop) (invariant holds : σ → Prop)
    (kept : ∀ s a, invariant s → invariant (step s a))
    (exactly : ∀ s a, invariant s → holds s → (holds (step s a) ↔ met s a)) (s : σ) (actions : List α)
    (start : invariant s) (first : holds s) :
    (∀ early late, actions = early ++ late → holds (run step s early)) ↔ Along step met s actions := by
  induction actions generalizing s with
  | nil =>
    refine ⟨fun _ => trivial, fun _ early late split => ?_⟩
    cases (List.append_eq_nil_iff.mp split.symm).1
    exact first
  | cons a rest ih =>
    constructor
    · intro all
      have next : holds (step s a) := all [a] rest rfl
      refine ⟨(exactly s a start first).mp next, (ih (step s a) (kept s a start) next).mp ?_⟩
      intro early late split
      exact all (a :: early) late (congrArg (a :: ·) split)
    · rintro ⟨now, later⟩ early late split
      have next := (exactly s a start first).mpr now
      cases early with
      | nil => exact first
      | cons b early =>
        obtain ⟨rfl, tail⟩ := List.cons.inj split
        exact (ih (step s a) (kept s a start) next).mpr later early late tail

end NixHomeServer.Library.Runs
