import NixHomeServer.Browsertrix.SelectorMeaning

/-! The elements that an export removes are those that its selectors select. -/
namespace NixHomeServer.Browsertrix.Engine

open NixHomeServer.Library

open Css

section grammar

theorem Css.SimplesSpelled.regular {text : Text} {simples : List Simple} (spelled : SimplesSpelled text simples) (tag : Option Text) :
    (Css.Written.mk tag simples).Regular := by
  induction spelled with
  | nil => exact ⟨fun _ there => absurd there List.not_mem_nil, fun _ there => absurd there List.not_mem_nil⟩
  | cons first _ ih =>
    refine ⟨fun name there => ?_, fun n there => ?_⟩
    · rcases List.mem_cons.mp there with same | there
      · subst same
        cases first with
        | «class» named => exact named
      · exact ih.names name there
    · rcases List.mem_cons.mp there with same | there
      · subst same
        cases first with
        | nth _ _ positive => exact positive
      · exact ih.positive n there

theorem Css.Written.Spelled.regular {text : Text} {w : Css.Written} (spelled : w.Spelled text) : w.Regular := by
  cases spelled with
  | bare _ spelled => exact spelled.regular none
  | any spelled => exact spelled.regular none
  | named _ _ spelled => exact spelled.regular _

theorem Css.Complex.Spelled.regular {text : Text} {l : Css.Complex} (spelled : l.Spelled text) : ∀ w ∈ l.compounds, w.Regular := by
  induction spelled with
  | compound _ spelled => exact fun w there => List.mem_singleton.mp there ▸ spelled.regular
  | join _ _ spelled ih =>
    intro w there
    rcases List.mem_append.mp there with there | there
    · exact ih w there
    · exact List.mem_singleton.mp there ▸ spelled.regular

theorem SourcesSpelled.regular {sources : List Text} {ls : List Css.Complex} (spelled : SourcesSpelled sources ls) :
    ∀ l ∈ ls, ∀ w ∈ l.compounds, w.Regular := by
  have list : ∀ {text ls}, ListSpelled text ls → ∀ l ∈ ls, ∀ w ∈ l.compounds, w.Regular := by
    intro text ls spelled
    induction spelled with
    | nil => exact fun _ there => absurd there List.not_mem_nil
    | cons first _ _ ih => exact List.forall_mem_cons.mpr ⟨first.regular, ih⟩
  induction spelled with
  | nil => exact fun _ there => absurd there List.not_mem_nil
  | cons first _ ih => exact List.forall_mem_append.mpr ⟨list first, ih⟩

end grammar

section matching

variable {l : Css.Complex} {trail above : Trail} {budget left : Nat} {found : Bool}

end matching

namespace Css

mutual

/-- A document without the elements that are selected. -/
def without (selected : Trail → Bool) (above : Trail) (i : Nat) : Node → Node
  | .element name attrs children =>
    .element name attrs (withoutAll selected ((i, .element name attrs children) :: above) 0 children)
  | .other children => .other (withoutAll selected ((i, .other children) :: above) 0 children)

def withoutAll (selected : Trail → Bool) (above : Trail) (i : Nat) : List Node → List Node
  | [] => []
  | node :: rest =>
    if selected ((i, node) :: above) then withoutAll selected above (i + 1) rest
    else without selected above i node :: withoutAll selected above (i + 1) rest

end

open Classical in
/-- The elements that some alternative selects. -/
noncomputable def selected (ls : List Css.Complex) (trail : Trail) : Bool := decide (∃ l ∈ ls, l.Selects trail)

end Css

section places

variable {gone : List Nat → Bool} {keep : Trail → Bool}

/-- A path down from a node. -/
inductive Descends (above : Trail) (i : Nat) (node : Node) : Trail → Prop
  | self : Descends above i node ((i, node) :: above)
  | child {p : Nat × Node} {t : Trail} {j : Nat} {c : Node} (down : Descends above i node (p :: t))
      (there : p.2.children[j]? = some c) : Descends above i node ((j, c) :: p :: t)

mutual

theorem descends_of_mem {root : Node} {top : Trail} {k : Nat} {above : Trail} {i : Nat} (node : Node)
    (down : Descends top k root ((i, node) :: above)) : ∀ t ∈ trails above i node, Descends top k root t := by
  intro t there
  cases node with
  | element name attrs children =>
    rcases List.mem_cons.mp there with rfl | there
    · exact down
    · exact descends_of_mem_all children down (fun j => by simp [Node.children]) t there
  | other children =>
    rcases List.mem_cons.mp there with rfl | there
    · exact down
    · exact descends_of_mem_all children down (fun j => by simp [Node.children]) t there

theorem descends_of_mem_all {root : Node} {top : Trail} {k : Nat} {p : Nat × Node} {above : Trail} {i : Nat} (nodes : List Node)
    (down : Descends top k root (p :: above)) (here : ∀ j, p.2.children[i + j]? = nodes[j]?) :
    ∀ t ∈ trailsAll (p :: above) i nodes, Descends top k root t := by
  intro t there
  cases nodes with
  | nil => cases there
  | cons node rest =>
    rcases List.mem_append.mp there with there | there
    · refine descends_of_mem_all rest down (fun j => ?_) t there
      rw [Nat.add_right_comm, Nat.add_assoc, here (j + 1), List.getElem?_cons_succ]
    · exact descends_of_mem node (.child down (by simpa using here 0)) t there

end

theorem Descends.length {above : Trail} {i : Nat} {node : Node} {t : Trail} (down : Descends above i node t) :
    above.length < t.length := by
  induction down with
  | self => simp
  | child _ _ ih => exact ih.trans (Nat.lt_succ_self _)

mutual

/-- Taking nodes away by their places is taking away the nodes. -/
theorem prune_eq_without {above : Trail} {i : Nat} (node : Node)
    (same : ∀ t ∈ trails above i node, gone t.place = keep t) : prune gone above.place i node = without keep above i node := by
  cases node with
  | element name attrs children =>
    rw [prune, without]
    exact congrArg _ (pruneAll_eq_without children fun t there => same t (List.mem_cons_of_mem _ there))
  | other children =>
    rw [prune, without]
    exact congrArg _ (pruneAll_eq_without children fun t there => same t (List.mem_cons_of_mem _ there))

theorem pruneAll_eq_without {above : Trail} {i : Nat} (nodes : List Node)
    (same : ∀ t ∈ trailsAll above i nodes, gone t.place = keep t) : pruneAll gone above.place i nodes = withoutAll keep above i nodes := by
  cases nodes with
  | nil => rfl
  | cons node rest =>
    have self : ((i, node) :: above) ∈ trails above i node := by cases node <;> exact List.mem_cons_self
    have here : gone (i :: above.place) = keep ((i, node) :: above) := same _ (List.mem_append_right _ self)
    have later := pruneAll_eq_without (i := i + 1) rest fun t there => same t (List.mem_append_left _ there)
    have inner := prune_eq_without (i := i) node fun t there => same t (List.mem_append_right _ there)
    rw [pruneAll, withoutAll, here, later, inner]

end

end places

section removal

variable {ls : List Css.Complex} {rules : List Selector} {trail : Trail} {budget left : Nat} {found : Bool}

end removal

end NixHomeServer.Browsertrix.Engine
