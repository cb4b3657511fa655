import NixHomeServer.Library.Text

/-! Two texts that are joined from the same pieces with different blanks after them: when
they are the same but for the blanks at their ends. -/
namespace NixHomeServer.Library

section Spacing

variable {α : Type} {blank : α → Bool}

theorem rdropWhile_cons (x : α) (text : List α) :
    (x :: text).rdropWhile blank = if text.rdropWhile blank = [] ∧ blank x = true then [] else x :: text.rdropWhile blank := by
  rcases blank_or_split blank text with all | ⟨left, y, right, rfl, solid⟩
  · rw [List.rdropWhile_eq_nil_iff.mpr all]
    cases head : blank x with
    | true => simp only [List.rdropWhile_eq_nil_iff.mpr fun y member => (List.mem_cons.mp member).elim (· ▸ head) (all y), and_self, if_true]
    | false =>
      have alone := rdropWhile_append_solid [] text head
      rw [List.nil_append, List.rdropWhile_eq_nil_iff.mpr all] at alone
      simpa using alone
  · rw [← List.cons_append, rdropWhile_append_solid _ _ solid, rdropWhile_append_solid _ _ solid]
    simp

/-- Texts with the same start end alike if what follows does. -/
theorem rdropWhile_append_inj (left right more : List α) :
    (left ++ right).rdropWhile blank = (left ++ more).rdropWhile blank ↔ right.rdropWhile blank = more.rdropWhile blank := by
  induction left with
  | nil => simp
  | cons x left ih =>
    rw [List.cons_append, List.cons_append, rdropWhile_cons, rdropWhile_cons, ← ih]
    constructor
    · intro same
      split at same
      · rename_i first
        split at same
        · rename_i second
          rw [first.1, second.1]
        · cases same
      · split at same
        · cases same
        · exact (List.cons.inj same).2
    · intro same
      rw [same]

/-- What is blank before the first character that is not. -/
theorem blanks_inj {x : α} (solid : blank x = false) {left right more rest : List α} (all : ∀ y ∈ left, blank y = true)
    (all' : ∀ y ∈ right, blank y = true) : left ++ x :: more = right ++ x :: rest ↔ left = right ∧ more = rest := by
  constructor
  · intro same
    induction left generalizing right with
    | nil =>
      cases right with
      | nil => exact ⟨rfl, (List.cons.inj same).2⟩
      | cons y right =>
        have first := all' y List.mem_cons_self
        rw [← (List.cons.inj same).1, solid] at first
        cases first
    | cons y left ih =>
      cases right with
      | nil =>
        have first := all y List.mem_cons_self
        rw [(List.cons.inj same).1, solid] at first
        cases first
      | cons z right =>
        obtain ⟨rfl, tails⟩ := List.cons.inj same
        obtain ⟨rfl, rests⟩ := ih (fun x member => all x (List.mem_cons_of_mem _ member))
          (fun x member => all' x (List.mem_cons_of_mem _ member)) tails
        exact ⟨rfl, rests⟩
  · rintro ⟨rfl, rfl⟩
    rfl

/-- A piece and what follows it in either text. -/
structure Spaced (α : Type) where
  piece : List α
  here : List α
  there : List α

def joinHere (pieces : List (Spaced α)) : List α := pieces.flatMap fun s => s.piece ++ s.here

def joinThere (pieces : List (Spaced α)) : List α := pieces.flatMap fun s => s.piece ++ s.there

/-- Between two pieces that are not blank stands the same in either text; `before` and `before'` are
what stands there since the last such piece. -/
def Level (blank : α → Bool) : Bool → List α → List α → List (Spaced α) → Prop
  | _, _, _, [] => True
  | shown, before, before', s :: rest =>
    if s.piece.all blank then Level blank shown (before ++ s.piece ++ s.here) (before' ++ s.piece ++ s.there) rest
    else (shown = true → before = before') ∧ Level blank true s.here s.there rest

instance Level.decide [DecidableEq α] (blank : α → Bool) :
    (shown : Bool) → (before before' : List α) → (pieces : List (Spaced α)) → Decidable (Level blank shown before before' pieces)
  | _, _, _, [] => isTrue trivial
  | shown, before, before', s :: rest =>
    have := Level.decide blank shown (before ++ s.piece ++ s.here) (before' ++ s.piece ++ s.there) rest
    have := Level.decide blank true s.here s.there rest
    inferInstanceAs (Decidable (if s.piece.all blank then _ else _ ∧ _))

theorem first_solid {piece : List α} (shows : ¬ piece.all blank = true) :
    ∃ front x back, piece = front ++ x :: back ∧ (∀ y ∈ front, blank y = true) ∧ blank x = false := by
  have nonempty : piece.dropWhile blank ≠ [] := fun none => shows (List.all_eq_true.mpr (List.dropWhile_eq_nil_iff.mp none))
  obtain ⟨x, back, dropped⟩ := List.exists_cons_of_ne_nil nonempty
  refine ⟨piece.takeWhile blank, x, back, ?_, fun y member => List.mem_takeWhile_imp member, ?_⟩
  · rw [← dropped, List.takeWhile_append_dropWhile]
  · have stopped := List.head?_dropWhile_not blank piece
    rw [dropped] at stopped
    simpa using stopped

@[simp] theorem joinHere_cons (s : Spaced α) (rest : List (Spaced α)) : joinHere (s :: rest) = s.piece ++ (s.here ++ joinHere rest) := by
  simp [joinHere]

@[simp] theorem joinThere_cons (s : Spaced α) (rest : List (Spaced α)) : joinThere (s :: rest) = s.piece ++ (s.there ++ joinThere rest) := by
  simp [joinThere]

theorem blank_append {left right : List α} (all : ∀ x ∈ left, blank x = true) (all' : ∀ x ∈ right, blank x = true) :
    ∀ x ∈ left ++ right, blank x = true :=
  fun x member => (List.mem_append.mp member).elim (all x) (all' x)

section Level

variable {before before' : List α} {pieces : List (Spaced α)}

theorem level_shown (all : ∀ x ∈ before, blank x = true) (all' : ∀ x ∈ before', blank x = true)
    (here : ∀ s ∈ pieces, ∀ x ∈ s.here, blank x = true) (there : ∀ s ∈ pieces, ∀ x ∈ s.there, blank x = true) :
    (before ++ joinHere pieces).rdropWhile blank = (before' ++ joinThere pieces).rdropWhile blank ↔ Level blank true before before' pieces := by
  induction pieces generalizing before before' with
  | nil =>
    simp only [joinHere, joinThere, List.flatMap_nil, List.append_nil, Level, iff_true]
    rw [List.rdropWhile_eq_nil_iff.mpr all, List.rdropWhile_eq_nil_iff.mpr all']
  | cons s rest ih =>
    obtain ⟨own, here⟩ := List.forall_mem_cons.mp here
    obtain ⟨own', there⟩ := List.forall_mem_cons.mp there
    rw [Level]
    split
    · rename_i hidden
      have blank_piece := List.all_eq_true.mp hidden
      have extended := ih (blank_append (blank_append all blank_piece) own) (blank_append (blank_append all' blank_piece) own') here there
      simpa using extended
    · rename_i shows
      obtain ⟨front, x, back, split, blanks, solid⟩ := first_solid shows
      have inner := ih own own' here there
      have left : before ++ joinHere (s :: rest) = (before ++ front) ++ x :: (back ++ (s.here ++ joinHere rest)) := by simp [split]
      have right : before' ++ joinThere (s :: rest) = (before' ++ front) ++ x :: (back ++ (s.there ++ joinThere rest)) := by simp [split]
      rw [left, right, rdropWhile_append_solid _ _ solid, rdropWhile_append_solid _ _ solid,
        blanks_inj solid (blank_append all blanks) (blank_append all' blanks), rdropWhile_append_inj, inner]
      simp

/-- Texts of the same pieces are the same after trimming exactly if the blanks between visible pieces are. -/
theorem level_iff (all : ∀ x ∈ before, blank x = true) (all' : ∀ x ∈ before', blank x = true)
    (here : ∀ s ∈ pieces, ∀ x ∈ s.here, blank x = true) (there : ∀ s ∈ pieces, ∀ x ∈ s.there, blank x = true) :
    trimBy blank (before ++ joinHere pieces) = trimBy blank (before' ++ joinThere pieces) ↔ Level blank false before before' pieces := by
  induction pieces generalizing before before' with
  | nil =>
    simp only [joinHere, joinThere, List.flatMap_nil, List.append_nil, Level, iff_true]
    rw [trimBy_blank all, trimBy_blank all']
  | cons s rest ih =>
    obtain ⟨own, here⟩ := List.forall_mem_cons.mp here
    obtain ⟨own', there⟩ := List.forall_mem_cons.mp there
    rw [Level]
    split
    · rename_i hidden
      have blank_piece := List.all_eq_true.mp hidden
      have extended := ih (blank_append (blank_append all blank_piece) own) (blank_append (blank_append all' blank_piece) own') here there
      simpa using extended
    · rename_i shows
      obtain ⟨front, x, back, split, blanks, solid⟩ := first_solid shows
      have inner := level_shown own own' here there
      have left : before ++ joinHere (s :: rest) = (before ++ front) ++ x :: (back ++ (s.here ++ joinHere rest)) := by simp [split]
      have right : before' ++ joinThere (s :: rest) = (before' ++ front) ++ x :: (back ++ (s.there ++ joinThere rest)) := by simp [split]
      rw [left, right, trimBy_append_solid _ _ solid, trimBy_append_solid _ _ solid,
        List.dropWhile_eq_nil_iff.mpr (blank_append all blanks), List.dropWhile_eq_nil_iff.mpr (blank_append all' blanks)]
      simp [rdropWhile_append_inj, inner]

end Level

end Spacing

end NixHomeServer.Library
