import Mathlib.Data.List.Nodup
import Mathlib.Data.List.Perm.Subperm

/-! A graph explored from some of its nodes: what is found is visited once each, in any
order, until nothing is left. -/
namespace NixHomeServer.Library

variable {α : Type} {start : α → Prop} {edge edge' : α → α → Prop} {found pending visited rest fresh : List α} {a b : α}

inductive Reached (start : α → Prop) (edge : α → α → Prop) : α → Prop
  | start {a : α} (here : start a) : Reached start edge a
  | edge {a b : α} (before : Reached start edge a) (step : edge a b) : Reached start edge b

/-- What holds at the start and along every edge from a node that is reached holds of all. -/
theorem Reached.invariant {p : α → Prop} (reached : Reached start edge a) (begins : ∀ a, start a → p a)
    (steps : ∀ a b, Reached start edge a → p a → edge a b → p b) : p a := by
  induction reached with
  | start here => exact begins _ here
  | edge before step ih => exact steps _ _ before ih step

theorem Reached.mono (reached : Reached start edge a) (steps : ∀ a b, Reached start edge a → edge a b → edge' a b) :
    Reached start edge' a := by
  induction reached with
  | start here => exact .start here
  | edge before step ih => exact .edge ih (steps _ _ before step)

/-- What is found so far, and which of that is visited and which is pending. -/
structure Exploring (start : α → Prop) (edge : α → α → Prop) (found pending visited : List α) : Prop where
  distinct : found.Nodup
  sound : ∀ a ∈ found, Reached start edge a
  begins : ∀ a, start a → a ∈ found
  split : found.Perm (visited ++ pending)
  closed : ∀ a ∈ visited, ∀ b, edge a b → b ∈ found

theorem Exploring.begin (distinct : found.Nodup) (starts : ∀ a, start a ↔ a ∈ found) : Exploring start edge found found [] where
  distinct := distinct
  sound a there := .start ((starts a).mpr there)
  begins a here := (starts a).mp here
  split := .refl _
  closed _ absent := absurd absent List.not_mem_nil

theorem Exploring.reorder {pending' : List α} (exploring : Exploring start edge found pending visited)
    (same : pending'.Perm pending) : Exploring start edge found pending' visited :=
  { exploring with split := exploring.split.trans (same.symm.append_left visited) }

/-- A node of the pending ones is visited: what its edges lead to is found now, if it was not before. -/
theorem Exploring.visit (exploring : Exploring start edge found (a :: rest) visited) (distinct : fresh.Nodup)
    (new : ∀ b ∈ fresh, b ∉ found ∧ edge a b) (all : ∀ b, edge a b → b ∈ found ++ fresh) :
    Exploring start edge (found ++ fresh) (rest ++ fresh) (visited ++ [a]) where
  distinct := List.nodup_append'.mpr ⟨exploring.distinct, distinct, fun _ old there => (new _ there).1 old⟩
  sound b there := by
    rcases List.mem_append.mp there with old | there
    · exact exploring.sound b old
    · have here : a ∈ found := exploring.split.mem_iff.mpr (List.mem_append_right _ List.mem_cons_self)
      exact .edge (exploring.sound a here) (new b there).2
  begins b here := List.mem_append_left _ (exploring.begins b here)
  split := by
    have moved := exploring.split.append_right fresh
    simpa only [List.append_assoc, List.nil_append, List.cons_append] using moved
  closed c there b step := by
    rcases List.mem_append.mp there with old | here
    · exact List.mem_append_left _ (exploring.closed c old b step)
    · rw [List.mem_singleton.mp here] at step
      exact all b step

theorem Exploring.reached (exploring : Exploring start edge found pending visited) (there : a ∈ visited ++ pending) :
    Reached start edge a :=
  exploring.sound a (exploring.split.mem_iff.mpr there)

theorem Exploring.nodup_split (exploring : Exploring start edge found pending visited) : (visited ++ pending).Nodup :=
  exploring.split.nodup_iff.mp exploring.distinct

/-- With nothing pending, all that can be reached is found. -/
theorem Exploring.complete (exploring : Exploring start edge found [] visited) : a ∈ found ↔ Reached start edge a := by
  constructor
  · exact exploring.sound a
  · intro reached
    refine reached.invariant exploring.begins fun b c _ there step => ?_
    have visited : b ∈ visited := by
      have split := exploring.split.mem_iff.mp there
      rwa [List.append_nil] at split
    exact exploring.closed b visited c step

/-- The visits of a graph whose nodes all lie in a list are no more than these. -/
theorem Exploring.visited_le (exploring : Exploring start edge found pending visited) {nodes : List α}
    (inside : ∀ a ∈ found, a ∈ nodes) : visited.length + pending.length ≤ nodes.length := by
  rw [← List.length_append, ← exploring.split.length_eq]
  exact (exploring.distinct.subperm inside).length_le

end NixHomeServer.Library
