import Mathlib.Data.List.DropRight

/-! Trimming, cutting and splitting of texts as lists of characters. -/
namespace NixHomeServer.Library

section Text

variable {α : Type} {blank : α → Bool}

/-- What a run over a list finds of every item. -/
theorem forall_of_all {p : α → Prop} [DecidablePred p] {l : List α} (all : l.all (fun x => decide (p x)) = true) : ∀ x ∈ l, p x :=
  fun x member => of_decide_eq_true (List.all_eq_true.mp all x member)

def trimBy (blank : α → Bool) (text : List α) : List α := (text.dropWhile blank).rdropWhile blank

theorem dropWhile_append_solid (left right : List α) {x : α} (solid : blank x = false) :
    (left ++ x :: right).dropWhile blank = left.dropWhile blank ++ x :: right := by
  rw [List.dropWhile_append]
  split
  case isTrue nothing =>
    rw [List.isEmpty_iff.mp nothing, List.dropWhile_cons_of_neg (by simp [solid]), List.nil_append]
  case isFalse => rfl

theorem rdropWhile_append_solid (left right : List α) {x : α} (solid : blank x = false) :
    (left ++ x :: right).rdropWhile blank = left ++ x :: right.rdropWhile blank := by
  have mirrored := dropWhile_append_solid right.reverse left.reverse solid
  simp only [List.rdropWhile, List.reverse_append, List.reverse_cons, List.append_assoc, List.singleton_append,
    mirrored, List.reverse_reverse]

/-- Blanks are trimmed on either side of a character that is none. -/
theorem trimBy_append_solid (left right : List α) {x : α} (solid : blank x = false) :
    trimBy blank (left ++ x :: right) = left.dropWhile blank ++ x :: right.rdropWhile blank := by
  rw [trimBy, dropWhile_append_solid left right solid, rdropWhile_append_solid _ right solid]

theorem blank_or_split (blank : α → Bool) (text : List α) :
    (∀ x ∈ text, blank x = true) ∨ ∃ left x right, text = left ++ x :: right ∧ blank x = false := by
  by_cases all : ∀ x ∈ text, blank x = true
  · exact Or.inl all
  · simp only [not_forall] at all
    obtain ⟨x, member, solid⟩ := all
    obtain ⟨left, right, split⟩ := List.append_of_mem member
    exact Or.inr ⟨left, x, right, split, Bool.not_eq_true _ ▸ solid⟩

theorem trimBy_blank {text : List α} (all : ∀ x ∈ text, blank x = true) : trimBy blank text = [] := by
  rw [trimBy, List.dropWhile_eq_nil_iff.mpr all, List.rdropWhile_nil]

@[simp] theorem trimBy_dropWhile (text : List α) : trimBy blank (text.dropWhile blank) = trimBy blank text := by
  rw [trimBy, List.dropWhile_idempotent, trimBy]

@[simp] theorem trimBy_rdropWhile (text : List α) : trimBy blank (text.rdropWhile blank) = trimBy blank text := by
  rcases blank_or_split blank text with all | ⟨left, x, right, rfl, solid⟩
  · rw [List.rdropWhile_eq_nil_iff.mpr all, trimBy_blank all]
    rfl
  · rw [rdropWhile_append_solid left right solid, trimBy_append_solid left _ solid,
      trimBy_append_solid left _ solid, List.rdropWhile_idempotent]

@[simp] theorem trimBy_trimBy (text : List α) : trimBy blank (trimBy blank text) = trimBy blank text := by
  rw [trimBy, trimBy, ← trimBy, trimBy_rdropWhile, trimBy_dropWhile]
  rfl

/-- Blanks at the end do not count. -/
theorem trimBy_append_blank (text : List α) {right : List α} (all : ∀ x ∈ right, blank x = true) :
    trimBy blank (text ++ right) = trimBy blank text := by
  have dropped : (text ++ right).rdropWhile blank = text.rdropWhile blank := by
    rw [List.rdropWhile, List.reverse_append, List.dropWhile_append_of_pos, List.rdropWhile]
    exact fun x member => all x (List.mem_reverse.mp member)
  rw [← trimBy_rdropWhile, dropped, trimBy_rdropWhile]

theorem mem_of_mem_trimBy {text : List α} {x : α} (member : x ∈ trimBy blank text) : x ∈ text :=
  List.dropWhile_subset blank ((List.rdropWhile_prefix blank _).subset member)

theorem mem_trimBy {text : List α} {x : α} (member : x ∈ text) (solid : blank x = false) :
    x ∈ trimBy blank text := by
  obtain ⟨left, right, rfl⟩ := List.append_of_mem member
  rw [trimBy_append_solid left right solid]
  exact List.mem_append_right _ List.mem_cons_self

/-- A text that is trimmed already ends in no blank. -/
theorem last_of_trimBy_eq {text : List α} (trimmed : trimBy blank text = text) (nonempty : text ≠ []) :
    ∃ front x, text = front ++ [x] ∧ blank x = false := by
  have whole : (text.dropWhile blank).rdropWhile blank ≠ [] := fun none => nonempty (trimmed.symm.trans none)
  refine ⟨_, _, (List.dropLast_append_getLast nonempty).symm, ?_⟩
  have solid := List.rdropWhile_last_not blank _ whole
  simp only [show (text.dropWhile blank).rdropWhile blank = text from trimmed] at solid
  exact Bool.not_eq_true _ ▸ solid

theorem trimBy_of_solid {text : List α} (solid : ∀ x ∈ text, blank x = false) : trimBy blank text = text := by
  have left : text.dropWhile blank = text := List.dropWhile_eq_self_iff.mpr fun positive => by
    simp [solid _ (List.getElem_mem positive)]
  rw [trimBy, left, List.rdropWhile_eq_self_iff]
  exact fun nonempty => by simp [solid _ (List.getLast_mem nonempty)]

theorem trimBy_of_solid_ends {x y : α} (first : blank x = false) (middle : List α) (last : blank y = false) :
    trimBy blank (x :: (middle ++ [y])) = x :: (middle ++ [y]) := by
  rw [← List.nil_append (x :: (middle ++ [y])), trimBy_append_solid [] _ first,
    List.rdropWhile_concat_neg _ _ _ (by simp [last])]
  rfl

theorem trimBy_of_ends {text : List α} (first : ∀ c rest, text = c :: rest → blank c = false)
    (last : ∀ front c, text = front ++ [c] → blank c = false) : trimBy blank text = text := by
  have front : text.dropWhile blank = text := by
    cases text with
    | nil => rfl
    | cons c rest => exact List.dropWhile_cons_of_neg (by rw [first c rest rfl]; exact Bool.false_ne_true)
  rw [trimBy, front, List.rdropWhile_eq_self_iff]
  intro filled
  rw [last _ _ (List.dropLast_append_getLast filled).symm]
  exact Bool.false_ne_true

theorem isInfix_trimBy (blank : α → Bool) (text : List α) : trimBy blank text <:+: text :=
  (List.rdropWhile_prefix blank _).isInfix.trans (List.dropWhile_suffix blank).isInfix

theorem solid_of_trimBy_ends {text : List α} (nonempty : trimBy blank text ≠ []) :
    (∃ x rest, trimBy blank text = x :: rest ∧ blank x = false) ∧
      ∃ front x, trimBy blank text = front ++ [x] ∧ blank x = false := by
  rcases blank_or_split blank text with all | ⟨left, x, right, rfl, solid⟩
  · exact absurd (trimBy_blank all) nonempty
  · refine ⟨?_, last_of_trimBy_eq (trimBy_trimBy _) nonempty⟩
    rw [trimBy_append_solid left right solid]
    cases dropped : left.dropWhile blank with
    | nil => exact ⟨x, _, rfl, solid⟩
    | cons y rest =>
      refine ⟨y, _, rfl, ?_⟩
      have stopped := List.head?_dropWhile_not blank left
      rw [dropped] at stopped
      simpa using stopped

/-- Blanks are inside a trimmed text where something else is before and after them. -/
theorem infix_trimBy_iff {text part : List α} (some_blank : part ≠ []) (all : ∀ x ∈ part, blank x = true) :
    part <:+: trimBy blank text ↔
      ∃ left right, text = left ++ part ++ right ∧ (∃ x ∈ left, blank x = false) ∧ ∃ x ∈ right, blank x = false := by
  constructor
  · rintro ⟨front, back, inside⟩
    have nonempty : trimBy blank text ≠ [] := by
      rw [← inside, List.append_assoc]
      exact List.append_ne_nil_of_right_ne_nil _ (List.append_ne_nil_of_left_ne_nil some_blank _)
    obtain ⟨⟨x, rest, starts, first⟩, last, y, ends, final⟩ := solid_of_trimBy_ends nonempty
    have before : ∃ z ∈ front, blank z = false := by
      cases front with
      | nil =>
        obtain ⟨z, part, rfl⟩ := List.exists_cons_of_ne_nil some_blank
        rw [← inside] at starts
        obtain ⟨rfl, -⟩ := List.cons.inj starts
        rw [all z List.mem_cons_self] at first
        cases first
      | cons z front =>
        rw [← inside] at starts
        obtain ⟨rfl, -⟩ := List.cons.inj starts
        exact ⟨z, List.mem_cons_self, first⟩
    have after : ∃ z ∈ back, blank z = false := by
      rcases List.eq_nil_or_concat back with rfl | ⟨back, z, rfl⟩
      · rw [← inside, List.append_nil] at ends
        rcases List.eq_nil_or_concat part with rfl | ⟨part, z, rfl⟩
        · exact absurd rfl some_blank
        · rw [List.concat_eq_append, ← List.append_assoc] at ends
          obtain ⟨-, same⟩ := List.append_inj' ends rfl
          rw [List.cons.inj same |>.1] at all
          rw [all y (by simp)] at final
          cases final
      · rw [← inside, List.concat_eq_append, ← List.append_assoc] at ends
        obtain ⟨-, same⟩ := List.append_inj' ends rfl
        rw [(List.cons.inj same).1, List.concat_eq_append]
        exact ⟨y, List.mem_append_right _ List.mem_cons_self, final⟩
    obtain ⟨head, tail, whole⟩ := isInfix_trimBy blank text
    obtain ⟨z, in_front, solid⟩ := before
    obtain ⟨z', in_back, solid'⟩ := after
    refine ⟨head ++ front, back ++ tail, ?_, ⟨z, List.mem_append_right _ in_front, solid⟩,
      z', List.mem_append_left _ in_back, solid'⟩
    rw [← whole, ← inside]
    simp only [List.append_assoc]
  · rintro ⟨left, right, rfl, ⟨x, in_left, first⟩, y, in_right, last⟩
    obtain ⟨a, b, rfl⟩ := List.append_of_mem in_left
    obtain ⟨c, d, rfl⟩ := List.append_of_mem in_right
    rw [show a ++ x :: b ++ part ++ (c ++ y :: d) = a ++ x :: (b ++ (part ++ (c ++ y :: d))) by simp,
      trimBy_append_solid a _ first]
    rw [show b ++ (part ++ (c ++ y :: d)) = (b ++ part ++ c) ++ y :: d by simp, rdropWhile_append_solid _ d last]
    exact ⟨a.dropWhile blank ++ x :: b, c ++ y :: d.rdropWhile blank, by simp⟩

theorem mem_intercalate {separator c : α} {parts : List (List α)} (member : c ∈ [separator].intercalate parts) :
    c = separator ∨ ∃ part ∈ parts, c ∈ part := by
  induction parts with
  | nil => cases member
  | cons part rest ih =>
    cases rest with
    | nil =>
      rw [List.intercalate_singleton] at member
      exact .inr ⟨part, List.mem_cons_self, member⟩
    | cons next rest =>
      rw [List.intercalate_cons_cons] at member
      rcases List.mem_append.mp member with first | later
      · rcases List.mem_append.mp first with own | between
        · exact .inr ⟨part, List.mem_cons_self, own⟩
        · exact .inl (List.mem_singleton.mp between)
      · rcases ih later with same | ⟨other, among, inside⟩
        · exact .inl same
        · exact .inr ⟨other, List.mem_cons_of_mem _ among, inside⟩

variable [DecidableEq α]

/-- What is before and after the first separator. -/
def cutAt (separator : α) : List α → Option (List α × List α)
  | [] => none
  | x :: rest =>
    if x = separator then some ([], rest)
    else (cutAt separator rest).map fun parts => (x :: parts.1, parts.2)

theorem cutAt_append (separator : α) {left : List α} (right : List α) (absent : separator ∉ left) :
    cutAt separator (left ++ separator :: right) = some (left, right) := by
  induction left with
  | nil => simp only [List.nil_append, cutAt, if_true]
  | cons x left ih =>
    rw [List.mem_cons, not_or] at absent
    simp only [List.cons_append, cutAt, if_neg (Ne.symm absent.1), ih absent.2, Option.map_some]

theorem cutAt_eq_some {separator : α} {text left right : List α} (cut : cutAt separator text = some (left, right)) :
    text = left ++ separator :: right ∧ separator ∉ left := by
  induction text generalizing left with
  | nil => cases cut
  | cons x rest ih =>
    simp only [cutAt] at cut
    split at cut
    · rename_i same
      cases cut
      exact ⟨congrArg (· :: _) same, List.not_mem_nil⟩
    · rename_i other
      obtain ⟨⟨l, r⟩, found, parts⟩ := Option.map_eq_some_iff.mp cut
      cases parts
      obtain ⟨rfl, absent⟩ := ih found
      exact ⟨rfl, fun member => (List.mem_cons.mp member).elim (fun same => other same.symm) absent⟩

/-- The first cut is no later than any other. -/
theorem cutAt_earlier (separator : α) (front back : List α) :
    ∃ left right, cutAt separator (front ++ separator :: back) = some (left, right) ∧ back <:+ right := by
  induction front with
  | nil => exact ⟨[], back, by simp [cutAt], List.suffix_refl back⟩
  | cons x front ih =>
    rw [List.cons_append, cutAt]
    split
    · exact ⟨[], _, rfl, (List.suffix_cons separator back).trans (List.suffix_append front _)⟩
    · obtain ⟨left, right, cut, ends⟩ := ih
      exact ⟨x :: left, right, by rw [cut]; rfl, ends⟩

/-- The parts between separators. -/
def splitAll (separator : α) : List α → List (List α)
  | [] => [[]]
  | x :: rest =>
    if x = separator then [] :: splitAll separator rest
    else match splitAll separator rest with
      | [] => [[x]]
      | part :: parts => (x :: part) :: parts

theorem splitAll_of_not_mem {separator : α} {text : List α} (absent : separator ∉ text) :
    splitAll separator text = [text] := by
  induction text with
  | nil => rfl
  | cons x rest ih =>
    rw [List.mem_cons, not_or] at absent
    simp only [splitAll, if_neg (Ne.symm absent.1), ih absent.2]

theorem splitAll_ne_nil (separator : α) (text : List α) : splitAll separator text ≠ [] := by
  cases text with
  | nil => exact List.cons_ne_nil _ _
  | cons x rest =>
    rw [splitAll]
    split
    · exact List.cons_ne_nil _ _
    · split <;> exact List.cons_ne_nil _ _

theorem splitAll_append (separator : α) (left right : List α) :
    splitAll separator (left ++ separator :: right) = splitAll separator left ++ splitAll separator right := by
  induction left with
  | nil => simp [splitAll]
  | cons x left ih =>
    by_cases same : x = separator
    · simp [splitAll, same, ih]
    · simp only [List.cons_append, splitAll, if_neg same, ih]
      cases parts : splitAll separator left with
      | nil => exact absurd parts (splitAll_ne_nil separator left)
      | cons part parts => rfl

theorem splitAll_intercalate (separator : α) {parts : List (List α)} (some_part : parts ≠ [])
    (clean : ∀ part ∈ parts, separator ∉ part) : splitAll separator ([separator].intercalate parts) = parts := by
  induction parts with
  | nil => exact (some_part rfl).elim
  | cons part rest ih =>
    obtain ⟨own, others⟩ := List.forall_mem_cons.mp clean
    cases rest with
    | nil => rw [List.intercalate_singleton, splitAll_of_not_mem own]
    | cons next rest =>
      rw [List.intercalate_cons_cons, List.append_assoc, List.singleton_append, splitAll_append, splitAll_of_not_mem own,
        ih (List.cons_ne_nil _ _) others]
      rfl

/-- What lies before the first separator. -/
def firstPart (separator : α) (text : List α) : List α := (splitAll separator text).headD []

theorem firstPart_eq (separator : α) (text : List α) : firstPart separator text = text.takeWhile (· ≠ separator) := by
  induction text with
  | nil => rfl
  | cons x rest ih =>
    rw [firstPart, splitAll]
    split
    · rename_i same
      simp only [List.headD_cons, List.takeWhile_cons, same, ne_eq, not_true, decide_false, Bool.false_eq_true, if_false]
    · rename_i other
      simp only [List.takeWhile_cons, ne_eq, other, not_false_eq_true, decide_true, if_true]
      rw [firstPart] at ih
      split
      · rename_i none
        exact absurd none (splitAll_ne_nil separator rest)
      · rename_i part parts split
        rw [split] at ih
        exact congrArg (x :: ·) ih

theorem firstPart_append (separator : α) {left : List α} (right : List α) (absent : separator ∉ left) :
    firstPart separator (left ++ separator :: right) = left := by
  rw [firstPart_eq, List.takeWhile_append_of_pos, List.takeWhile_cons]
  · simp only [ne_eq, not_true, decide_false, Bool.false_eq_true, if_false, List.append_nil]
  · exact fun x member => decide_eq_true fun same => absent (same ▸ member)

theorem firstPart_of_not_mem {separator : α} {text : List α} (absent : separator ∉ text) :
    firstPart separator text = text := by
  rw [firstPart, splitAll_of_not_mem absent, List.headD_cons]

end Text

def isWhitespace (c : Char) : Bool :=
  (9 ≤ c.toNat && c.toNat ≤ 13) || c.toNat == 32 || c.toNat == 0x85 || c.toNat == 0xA0 || c.toNat == 0x1680 ||
    (0x2000 ≤ c.toNat && c.toNat ≤ 0x200A) || c.toNat == 0x2028 || c.toNat == 0x2029 || c.toNat == 0x202F ||
    c.toNat == 0x205F || c.toNat == 0x3000

def isControl (c : Char) : Bool := c.toNat < 0x20 || 0x7F ≤ c.toNat && c.toNat < 0xA0

def trim (text : List Char) : List Char := trimBy isWhitespace text

def trimEnd (text : List Char) : List Char := text.rdropWhile isWhitespace

end NixHomeServer.Library
