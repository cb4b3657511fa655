import Mathlib.Data.Finset.Card
import Mathlib.Data.List.Basic

/-! Records that refer to records in order, and what a depth-first visit of them meets: the part
that is covered before each reference, and the checks on first references only. -/
namespace NixHomeServer.Library

/-- At most so many things have the property. -/
def AtMost {κ : Type} (n : Nat) (p : κ → Prop) : Prop := ∀ ids : List κ, ids.Nodup → (∀ id ∈ ids, p id) → ids.length ≤ n

theorem AtMost.mono {κ : Type} {n : Nat} {p q : κ → Prop} (most : AtMost n p) (fewer : ∀ id, q id → p id) : AtMost n q :=
  fun ids distinct all => most ids distinct fun id member => fewer id (all id member)

section Graph

variable {κ α : Type} (record : κ → Option α) (refs : α → List κ)

/-- What a record reaches through references. -/
inductive Below : α → κ → Prop
  | ref {a : α} {k : κ} (here : k ∈ refs a) : Below a k
  | through {a b : α} {k l : κ} (here : k ∈ refs a) (found : record k = some b) (rest : Below b l) : Below a l

/-- What is covered once some references are followed after others. -/
def Covered (known : κ → Prop) (before : List κ) (k : κ) : Prop :=
  known k ∨ ∃ j ∈ before, k = j ∨ ∃ b, record j = some b ∧ Below record refs b k

def Closed (known : κ → Prop) : Prop := ∀ k b, known k → record k = some b → ∀ l ∈ refs b, known l

/-- A depth-first visit goes through: every reference to something that is not covered yet is good, and
there is no more covered before it than the limit. -/
inductive Passes (good : α → κ → Prop) (limit : Nat) : (κ → Prop) → α → Prop
  | visit {known : κ → Prop} {a : α}
      (enters : ∀ before k after, refs a = before ++ k :: after → ¬ Covered record refs known before k →
        good a k ∧ AtMost limit (Covered record refs known before))
      (deeper : ∀ before k after b, refs a = before ++ k :: after → ¬ Covered record refs known before k →
        record k = some b → Passes good limit (Covered record refs known before) b) :
      Passes good limit known a

variable {record refs} {a b : α} {k l : κ} {known : κ → Prop} {before : List κ} {good : α → κ → Prop} {limit : Nat}

theorem Below.trans (first : Below record refs a k) (found : record k = some b) (second : Below record refs b l) :
    Below record refs a l := by
  induction first with
  | ref here => exact .through here found second
  | through here there _ ih => exact .through here there (ih found)

theorem covered_nil : Covered record refs known [] k ↔ known k := by
  refine ⟨fun covered => ?_, .inl⟩
  rcases covered with old | ⟨_, member, _⟩
  · exact old
  · cases member

theorem covered_append {after : List κ} :
    Covered record refs known (before ++ after) k ↔ Covered record refs (Covered record refs known before) after k := by
  constructor
  · rintro (old | ⟨j, member, reached⟩)
    · exact .inl (.inl old)
    · rcases List.mem_append.mp member with early | late
      · exact .inl (.inr ⟨j, early, reached⟩)
      · exact .inr ⟨j, late, reached⟩
  · rintro ((old | ⟨j, member, reached⟩) | ⟨j, member, reached⟩)
    · exact .inl old
    · exact .inr ⟨j, List.mem_append_left _ member, reached⟩
    · exact .inr ⟨j, List.mem_append_right _ member, reached⟩

theorem Closed.below (closed : Closed record refs known) (here : known k) (found : record k = some b)
    (below : Below record refs b l) : known l := by
  induction below generalizing k with
  | ref member => exact closed k _ here found _ member
  | through member found' _ ih => exact ih (closed k _ here found _ member) found'

/-- What is covered already covers nothing new. -/
theorem Closed.covered_single (closed : Closed record refs known) (here : known k) :
    Covered record refs known [k] l ↔ known l := by
  refine ⟨fun covered => ?_, .inl⟩
  rcases covered with old | ⟨j, member, reached⟩
  · exact old
  · obtain rfl := List.mem_singleton.mp member
    rcases reached with rfl | ⟨b, found, below⟩
    · exact here
    · exact closed.below here found below

theorem Closed.covered (closed : Closed record refs known) (before : List κ) :
    Closed record refs (Covered record refs known before) := by
  rintro k b (old | ⟨j, member, reached⟩) found l ref
  · exact .inl (closed k b old found l ref)
  · rcases reached with rfl | ⟨c, there, below⟩
    · exact .inr ⟨k, member, .inr ⟨b, found, .ref ref⟩⟩
    · exact .inr ⟨j, member, .inr ⟨c, there, below.trans found (.ref ref)⟩⟩

theorem closed_empty : Closed record refs fun _ => False := fun _ _ => False.elim

/-- The references of a record cover all that it reaches. -/
theorem covered_refs : Covered record refs known (refs a) k ↔ known k ∨ Below record refs a k := by
  constructor
  · rintro (old | ⟨j, member, rfl | ⟨b, found, below⟩⟩)
    · exact .inl old
    · exact .inr (.ref member)
    · exact .inr (.through member found below)
  · rintro (old | below)
    · exact .inl old
    · cases below with
      | ref here => exact .inr ⟨k, here, .inl rfl⟩
      | through here found rest => exact .inr ⟨_, here, .inr ⟨_, found, rest⟩⟩

theorem covered_single (found : record k = some b) :
    Covered record refs known [k] l ↔ l = k ∨ known l ∨ Below record refs b l := by
  constructor
  · rintro (old | ⟨j, member, reached⟩)
    · exact .inr (.inl old)
    · obtain rfl := List.mem_singleton.mp member
      rcases reached with rfl | ⟨c, there, below⟩
      · exact .inl rfl
      · rw [found] at there
        cases there
        exact .inr (.inr below)
  · rintro (rfl | old | below)
    · exact .inr ⟨l, List.mem_singleton_self l, .inl rfl⟩
    · exact .inl old
    · exact .inr ⟨k, List.mem_singleton_self k, .inr ⟨b, found, below⟩⟩

/-- Where every reference below a record is good and nothing below it reaches itself, a visit goes
through, if only few things are covered or below it. -/
theorem Passes.of_good (nodes : List κ) (listed : ∀ k b, record k = some b → k ∈ nodes)
    (here : ∀ k ∈ refs a, good a k) (below : ∀ k b, Below record refs a k → record k = some b → ∀ l ∈ refs b, good b l)
    (acyclic : ∀ k b, Below record refs a k → record k = some b → ¬ Below record refs b k)
    (few : AtMost limit fun k => known k ∨ Below record refs a k) : Passes record refs good limit known a := by
  classical
  induction size : (nodes.toFinset.filter fun k => Below record refs a k).card using Nat.strong_induction_on generalizing a known with
  | _ n ih =>
    have inside {before after : List κ} {k l : κ} (split : refs a = before ++ k :: after)
        (covered : Covered record refs known before l) : known l ∨ Below record refs a l := by
      rcases covered with old | ⟨j, member, reached⟩
      · exact .inl old
      · have ref : j ∈ refs a := split ▸ List.mem_append_left _ member
        rcases reached with rfl | ⟨b, found, below⟩
        · exact .inr (.ref ref)
        · exact .inr (.through ref found below)
    constructor
    · intro before k after split _
      exact ⟨here k (split ▸ List.mem_append_right _ List.mem_cons_self), few.mono fun l covered => inside split covered⟩
    · intro before k after b split _ found
      have ref : k ∈ refs a := split ▸ List.mem_append_right _ List.mem_cons_self
      have step {l : κ} (reached : Below record refs b l) : Below record refs a l := .through ref found reached
      refine ih _ ?_ (below k b (.ref ref) found) (fun l c reached => below l c (step reached))
        (fun l c reached => acyclic l c (step reached)) (few.mono ?_) rfl
      · rw [← size]
        refine Finset.card_lt_card ⟨fun l member => ?_, fun whole => ?_⟩
        · rw [Finset.mem_filter] at member ⊢
          exact ⟨member.1, step member.2⟩
        · have member : k ∈ nodes.toFinset.filter fun k => Below record refs a k :=
            Finset.mem_filter.mpr ⟨List.mem_toFinset.mpr (listed k b found), .ref ref⟩
          exact acyclic k b (.ref ref) found (Finset.mem_filter.mp (whole member)).2
      · rintro l (covered | reached)
        · exact inside split covered
        · exact .inr (step reached)

/-- The first of some references that covers a thing. -/
theorem first_cover {refs' : List κ} (late : Covered record refs known refs' k) (new : ¬ known k) :
    ∃ before j after, refs' = before ++ j :: after ∧ ¬ Covered record refs known before k ∧
      (k = j ∨ ∃ b, record j = some b ∧ Below record refs b k) := by
  induction refs' using List.reverseRecOn with
  | nil => exact absurd (covered_nil.mp late) new
  | append_singleton front j ih =>
    by_cases early : Covered record refs known front k
    · obtain ⟨before, i, after, rfl, missed, reached⟩ := ih early
      exact ⟨before, i, after ++ [j], by simp, missed, reached⟩
    · rcases covered_append.mp late with old | ⟨i, member, reached⟩
      · exact absurd old early
      · rw [List.mem_singleton.mp member] at reached
        exact ⟨front, j, [], rfl, early, reached⟩

/-- Of the references to what is below a record, the one that is met first is good. -/
theorem Passes.first (passes : Passes record refs good limit known a) (closed : Closed record refs known)
    (below : Below record refs a k) (new : ¬ known k) :
    ∃ c, (c = a ∨ ∃ j, Below record refs a j ∧ record j = some c) ∧ k ∈ refs c ∧ good c k := by
  induction passes with
  | @visit known a enters deeper ih =>
    obtain ⟨before, j, after, split, missed, reached⟩ := first_cover (covered_refs.mpr (.inr below)) new
    have ref : j ∈ refs a := split ▸ List.mem_append_right _ List.mem_cons_self
    have open_ref : ¬ Covered record refs known before j := fun covered => by
      rcases reached with rfl | ⟨b, found, rest⟩
      · exact missed covered
      · exact missed ((closed.covered before).below covered found rest)
    rcases reached with rfl | ⟨b, found, rest⟩
    · exact ⟨a, .inl rfl, ref, (enters before k after split open_ref).1⟩
    · obtain ⟨c, place, member, passed⟩ := ih before j after b split open_ref found (closed.covered before) rest missed
      refine ⟨c, .inr ?_, member, passed⟩
      rcases place with rfl | ⟨i, between, row⟩
      · exact ⟨j, .ref ref, found⟩
      · exact ⟨i, .through ref found between, row⟩

end Graph

end NixHomeServer.Library
