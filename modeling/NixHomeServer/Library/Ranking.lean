import Mathlib.Data.List.MinMax

/-! The first of the least items of a list, the only least one, and the nearest item of a kind. -/
namespace NixHomeServer.Library

section Least

variable {α β : Type} [LinearOrder β] {f : α → β} {l part : List α} {m : α}

theorem head_of_argmin (found : l.argmin f = some m) :
    (∀ a ∈ l, f m ≤ f a) ∧ (l.filter fun a => f a = f m).head? = some m := by
  induction l using List.reverseRecOn generalizing m with
  | nil => cases found
  | append_singleton l a ih =>
    rw [List.argmin_concat] at found
    cases before : l.argmin f with
    | none =>
      rw [before] at found
      cases found
      rw [List.argmin_eq_none.mp before]
      simp
    | some b =>
      obtain ⟨least, first⟩ := ih before
      rw [before] at found
      dsimp only at found
      split at found
      · rename_i less
        cases found
        have none : (l.filter fun x => f x = f a) = [] := by
          refine List.filter_eq_nil_iff.mpr fun x member => ?_
          have above := lt_of_lt_of_le less (least x member)
          simpa using above.ne'
        refine ⟨fun x member => ?_, by rw [List.filter_append, none]; simp⟩
        rcases List.mem_append.mp member with earlier | last
        · exact (lt_of_lt_of_le less (least x earlier)).le
        · exact (List.mem_singleton.mp last) ▸ le_rfl
      · rename_i least_still
        cases found
        refine ⟨fun x member => ?_, by rw [List.filter_append, List.head?_append, first]; rfl⟩
        rcases List.mem_append.mp member with earlier | last
        · exact least x earlier
        · exact (List.mem_singleton.mp last) ▸ not_lt.mp least_still

/-- What is taken is the first of those with the least value. -/
theorem argmin_eq_some_iff_head :
    l.argmin f = some m ↔ (∀ a ∈ l, f m ≤ f a) ∧ (l.filter fun a => f a = f m).head? = some m := by
  refine ⟨head_of_argmin, fun ⟨least, first⟩ => ?_⟩
  have member : m ∈ l := List.mem_of_mem_filter (List.mem_of_head? first)
  cases found : l.argmin f with
  | none => exact absurd (List.argmin_eq_none.mp found ▸ member) List.not_mem_nil
  | some b =>
    obtain ⟨least', first'⟩ := head_of_argmin found
    have same : f b = f m := le_antisymm (least' m member) (least b (List.argmin_mem found))
    rw [same] at first'
    exact first'.symm.trans first

/-- The least item of a whole is that of a part which has it and the same items of its value in the same order. -/
theorem argmin_of_part (found : l.argmin f = some m) (inside : ∀ a ∈ part, a ∈ l)
    (same : (part.filter fun a => f a = f m) = l.filter fun a => f a = f m) : part.argmin f = some m := by
  obtain ⟨least, first⟩ := head_of_argmin found
  exact argmin_eq_some_iff_head.mpr ⟨fun a member => least a (inside a member), same ▸ first⟩

/-- Sorting keeps the order of items that are equally placed. -/
theorem filter_mergeSort {le : α → α → Bool} (trans : ∀ a b c, le a b = true → le b c = true → le a c = true)
    (total : ∀ a b, (le a b || le b a) = true) (keep : α → Bool)
    (level : ∀ a ∈ l, ∀ b ∈ l, keep a = true → keep b = true → le a b = true) :
    (l.mergeSort le).filter keep = l.filter keep := by
  have sorted : (l.filter keep).Pairwise fun a b => le a b = true := by
    refine List.pairwise_of_forall_mem_list fun a inside b inside' => ?_
    obtain ⟨member, kept⟩ := List.mem_filter.mp inside
    obtain ⟨member', kept'⟩ := List.mem_filter.mp inside'
    exact level a member b member' kept kept'
  have there : (l.filter keep).Sublist (l.mergeSort le) := List.sublist_mergeSort trans total sorted List.filter_sublist
  have kept : (l.filter keep).Sublist ((l.mergeSort le).filter keep) := by
    have again := there.filter keep
    rwa [List.filter_filter, show (fun a => keep a && keep a) = keep from funext fun a => Bool.and_self _] at again
  exact (kept.eq_of_length ((List.mergeSort_perm l le).filter keep).length_eq.symm).symm

end Least

section Alone

variable {α β : Type} [LinearOrder β] {score : α → Option β} {l : List α} {a : α}

/-- A loop that keeps the best score so far and who has it, unless there are two. -/
def onlyBest (score : α → Option β) : List α → Option β → Option α → Option α
  | [], _, owner => owner
  | a :: rest, best, owner =>
    match score a with
    | none => onlyBest score rest best owner
    | some value =>
      match best with
      | none => onlyBest score rest (some value) (some a)
      | some previous =>
        if value < previous then onlyBest score rest (some value) (some a)
        else if value = previous then onlyBest score rest best none
        else onlyBest score rest best owner

/-- An item of a list whose score is less than that of every other one that has a score. -/
def Alone (score : α → Option β) (l : List α) (a : α) : Prop :=
  a ∈ l ∧ ∃ value, score a = some value ∧ ∀ b ∈ l, b ≠ a → ∀ other, score b = some other → value < other

theorem alone_cons_of_none {b : α} (none : score b = none) : Alone score (b :: l) a ↔ Alone score l a := by
  constructor
  · rintro ⟨there, value, scored, less⟩
    rcases List.mem_cons.mp there with rfl | there
    · rw [none] at scored
      cases scored
    · exact ⟨there, value, scored, fun c inside => less c (List.mem_cons_of_mem _ inside)⟩
  · rintro ⟨there, value, scored, less⟩
    refine ⟨List.mem_cons_of_mem _ there, value, scored, fun c inside apart other scored' => ?_⟩
    rcases List.mem_cons.mp inside with rfl | inside
    · rw [none] at scored'
      cases scored'
    · exact less c inside apart other scored'

theorem alone_cons_of_some {b : α} {value : β} (fresh : b ∉ l) (scored : score b = some value) :
    Alone score (b :: l) a ↔ (a = b ∧ ∀ c ∈ l, ∀ other, score c = some other → value < other) ∨
      (Alone score l a ∧ ∀ other, score a = some other → other < value) := by
  constructor
  · rintro ⟨there, value', scored', less⟩
    rcases List.mem_cons.mp there with rfl | there
    · obtain rfl : value = value' := Option.some.inj (scored.symm.trans scored')
      exact .inl ⟨rfl, fun c inside => less c (List.mem_cons_of_mem _ inside) fun same => fresh (same ▸ inside)⟩
    · refine .inr ⟨⟨there, value', scored', fun c inside => less c (List.mem_cons_of_mem _ inside)⟩, fun other found => ?_⟩
      rw [scored'] at found
      cases found
      exact less b List.mem_cons_self (fun same => fresh (same ▸ there)) value scored
  · rintro (⟨rfl, less⟩ | ⟨⟨there, value', scored', less⟩, below⟩)
    · exact ⟨List.mem_cons_self, value, scored, fun c inside apart => less c ((List.mem_cons.mp inside).resolve_left apart)⟩
    · refine ⟨List.mem_cons_of_mem _ there, value', scored', fun c inside apart other found => ?_⟩
      rcases List.mem_cons.mp inside with rfl | inside
      · rw [scored] at found
        cases found
        exact below value' scored'
      · exact less c inside apart other found

/-- What the loop answers, by what it has seen: the one it holds if the others are worse, or
the only best of the others if that one is better. -/
theorem onlyBest_from {best : β} {owner : Option α} (distinct : l.Nodup) :
    onlyBest score l (some best) owner = some a ↔
      (owner = some a ∧ ∀ b ∈ l, ∀ value, score b = some value → best < value) ∨
        (Alone score l a ∧ ∀ value, score a = some value → value < best) := by
  induction l generalizing best owner with
  | nil => simp [onlyBest, Alone]
  | cons b rest ih =>
    obtain ⟨fresh, distinct'⟩ := List.nodup_cons.mp distinct
    unfold onlyBest
    cases scored : score b with
    | none =>
      rw [ih distinct', alone_cons_of_none scored]
      simp [scored]
    | some value =>
      have first : (∀ c ∈ b :: rest, ∀ other, score c = some other → best < other) ↔
          best < value ∧ ∀ c ∈ rest, ∀ other, score c = some other → best < other := by
        rw [List.forall_mem_cons]
        simp [scored]
      rw [first, alone_cons_of_some fresh scored]
      dsimp only
      rcases lt_trichotomy value best with better | rfl | worse
      · have lower : (∀ other, score a = some other → other < value) → ∀ other, score a = some other → other < best :=
          fun below other found => (below other found).trans better
        rw [if_pos better, ih distinct', Option.some.injEq, eq_comm]
        constructor
        · rintro (⟨rfl, less⟩ | ⟨alone, below⟩)
          · exact .inr ⟨.inl ⟨rfl, less⟩, fun other found => Option.some.inj (scored.symm.trans found) ▸ better⟩
          · exact .inr ⟨.inr ⟨alone, below⟩, lower below⟩
        · rintro (⟨-, low, -⟩ | ⟨⟨rfl, less⟩ | both, -⟩)
          · exact absurd low better.not_gt
          · exact .inl ⟨rfl, less⟩
          · exact .inr both
      · rw [if_neg (lt_irrefl value), if_pos rfl, ih distinct']
        constructor
        · rintro (⟨none, -⟩ | both)
          · cases none
          · exact .inr ⟨.inr both, both.2⟩
        · rintro (⟨-, low, -⟩ | ⟨⟨rfl, -⟩ | both, below⟩)
          · exact absurd low (lt_irrefl value)
          · exact absurd (below value scored) (lt_irrefl value)
          · exact .inr both
      · rw [if_neg worse.not_gt, if_neg worse.ne', ih distinct']
        constructor
        · rintro (⟨held, less⟩ | ⟨alone, below⟩)
          · exact .inl ⟨held, worse, less⟩
          · exact .inr ⟨.inr ⟨alone, fun other found => (below other found).trans worse⟩, below⟩
        · rintro (⟨held, -, less⟩ | ⟨⟨rfl, -⟩ | ⟨alone, -⟩, below⟩)
          · exact .inl ⟨held, less⟩
          · exact absurd (below value scored) worse.not_gt
          · exact .inr ⟨alone, below⟩

/-- The loop finds the item with the best score if no other one is as good. -/
theorem onlyBest_eq_some_iff (distinct : l.Nodup) : onlyBest score l none none = some a ↔ Alone score l a := by
  induction l with
  | nil => simp [onlyBest, Alone]
  | cons b rest ih =>
    obtain ⟨fresh, distinct'⟩ := List.nodup_cons.mp distinct
    unfold onlyBest
    cases scored : score b with
    | none => rw [ih distinct', alone_cons_of_none scored]
    | some value =>
      dsimp only
      rw [onlyBest_from distinct', alone_cons_of_some fresh scored, Option.some.injEq, eq_comm]

end Alone

section Nearest

variable {α : Type} {holds holds' : α → Prop} {l : List α} {a b : α}

/-- The first item of a list that a condition holds of. -/
def Nearest (l : List α) (holds : α → Prop) (a : α) : Prop :=
  ∃ nearer farther, l = nearer ++ a :: farther ∧ holds a ∧ ∀ b ∈ nearer, ¬ holds b

/-- A search for a condition that a test decides finds the nearest item. -/
theorem nearest_of_find? {test : α → Bool} (decides : ∀ b, test b = true ↔ holds b) (found : l.find? test = some a) :
    Nearest l holds a := by
  obtain ⟨here, nearer, farther, split, before⟩ := List.find?_eq_some_iff_append.mp found
  refine ⟨nearer, farther, split, (decides a).mp here, fun b member held => ?_⟩
  have missed := before b member
  rw [(decides b).mpr held] at missed
  cases missed

theorem nearest_iff_find? [DecidablePred holds] : Nearest l holds a ↔ l.find? (fun b => holds b) = some a := by
  rw [List.find?_eq_some_iff_append, Nearest]
  simp only [decide_eq_true_eq, Bool.not_eq_true', decide_eq_false_iff_not]
  exact ⟨fun ⟨nearer, farther, split, here, before⟩ => ⟨here, nearer, farther, split, before⟩,
    fun ⟨here, nearer, farther, split, before⟩ => ⟨nearer, farther, split, here, before⟩⟩

theorem Nearest.unique (first : Nearest l holds a) (second : Nearest l holds b) : a = b := by
  classical
  exact Option.some.inj ((nearest_iff_find?.mp first).symm.trans (nearest_iff_find?.mp second))

theorem Nearest.mem (nearest : Nearest l holds a) : a ∈ l := by
  obtain ⟨nearer, farther, rfl, -, -⟩ := nearest
  exact List.mem_append_right _ List.mem_cons_self

theorem Nearest.here (nearest : Nearest l holds a) : holds a := by
  obtain ⟨-, -, -, here, -⟩ := nearest
  exact here

end Nearest

end NixHomeServer.Library
