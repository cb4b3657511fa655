import NixHomeServer.Library.Text

/-! Texts that are cut, split and replaced at a pattern, and their lines and words. -/
namespace NixHomeServer.Library

section Patterns

variable {α : Type} [DecidableEq α]

/-- What is before and after the first place of a pattern. -/
def cutAtText (pattern : List α) : List α → Option (List α × List α)
  | [] => none
  | x :: rest =>
    if pattern.isPrefixOf (x :: rest) then some ([], (x :: rest).drop pattern.length)
    else (cutAtText pattern rest).map fun parts => (x :: parts.1, parts.2)

/-- What is before and after the last separator. -/
def cutAtLast (separator : α) (text : List α) : Option (List α × List α) :=
  (cutAt separator text.reverse).map fun parts => (parts.2.reverse, parts.1.reverse)

/-- The parts between the places of a pattern from left to right; `skip` counts what is left
of the one being passed. -/
def splitFrom (pattern : List α) : Nat → List α → List (List α)
  | _, [] => [[]]
  | skip + 1, _ :: rest => splitFrom pattern skip rest
  | 0, x :: rest =>
    if pattern.isPrefixOf (x :: rest) then [] :: splitFrom pattern (pattern.length - 1) rest
    else (splitFrom pattern 0 rest).modifyHead (x :: ·)

def splitText (pattern text : List α) : List (List α) := splitFrom pattern 0 text

def replaceText (pattern new text : List α) : List α := new.intercalate (splitText pattern text)

/-- At most so many parts between separators: the last one is the rest. -/
def splitN (separator : α) : Nat → List α → List (List α)
  | 0, _ => []
  | 1, text => [text]
  | n + 2, text =>
    match cutAt separator text with
    | none => [text]
    | some (left, right) => left :: splitN separator (n + 1) right

variable {pattern left right text : List α} {a x : α}

theorem cutAtLast_eq_some : cutAtLast a text = some (left, right) ↔ text = left ++ a :: right ∧ a ∉ right := by
  constructor
  · intro cut
    obtain ⟨⟨after, before⟩, found, parts⟩ := Option.map_eq_some_iff.mp cut
    cases parts
    obtain ⟨whole, absent⟩ := cutAt_eq_some found
    rw [List.reverse_eq_iff] at whole
    simp only [List.reverse_append, List.reverse_cons, List.append_assoc, List.singleton_append] at whole
    exact ⟨whole, fun member => absent (List.mem_reverse.mp member)⟩
  · rintro ⟨rfl, absent⟩
    have mirrored := cutAt_append a left.reverse (fun member => absent (List.mem_reverse.mp member))
    simp only [cutAtLast, List.reverse_append, List.reverse_cons, List.append_assoc, List.singleton_append, mirrored,
      Option.map_some, List.reverse_reverse]

theorem cutAtLast_eq_none : cutAtLast a text = none ↔ a ∉ text := by
  constructor
  · intro uncut member
    obtain ⟨after, before, split, absent⟩ := List.eq_append_cons_of_mem (List.mem_reverse.mpr member)
    rw [cutAtLast, split, cutAt_append a before absent] at uncut
    cases uncut
  · intro absent
    cases found : cutAtLast a text with
    | none => rfl
    | some parts =>
      obtain ⟨rfl, -⟩ := cutAtLast_eq_some.mp found
      exact absurd (List.mem_append_right _ List.mem_cons_self) absent

theorem cutAtText_cons : cutAtText pattern (x :: text) =
    if pattern.isPrefixOf (x :: text) then some ([], (x :: text).drop pattern.length)
    else (cutAtText pattern text).map fun parts => (x :: parts.1, parts.2) := rfl

theorem splitFrom_cons : splitFrom pattern 0 (x :: text) =
    if pattern.isPrefixOf (x :: text) then [] :: splitFrom pattern (pattern.length - 1) text
    else (splitFrom pattern 0 text).modifyHead (x :: ·) := rfl

theorem cutAtText_eq_some (cut : cutAtText pattern text = some (left, right)) : text = left ++ pattern ++ right := by
  induction text generalizing left with
  | nil => cases cut
  | cons x rest ih =>
    rw [cutAtText_cons] at cut
    split at cut
    · rename_i here
      cases cut
      obtain ⟨after, whole⟩ := List.isPrefixOf_iff_prefix.mp here
      rw [← whole, List.drop_left, List.nil_append]
    · obtain ⟨parts, found, same⟩ := Option.map_eq_some_iff.mp cut
      obtain ⟨before, after⟩ := parts
      cases same
      rw [List.cons_append, List.cons_append, ← ih found]

theorem not_isPrefixOf_cons (other : x ≠ a) : (a :: pattern).isPrefixOf (x :: text) = false := by
  rw [List.isPrefixOf, beq_eq_false_iff_ne.mpr (Ne.symm other), Bool.false_and]

theorem cutAtText_append (absent : a ∉ left) (right : List α) :
    cutAtText (a :: pattern) (left ++ (a :: pattern) ++ right) = some (left, right) := by
  induction left with
  | nil =>
    have there : (a :: pattern).isPrefixOf ((a :: pattern) ++ right) = true :=
      List.isPrefixOf_iff_prefix.mpr (List.prefix_append _ _)
    simp only [List.nil_append, List.cons_append, cutAtText_cons] at there ⊢
    rw [if_pos there, ← List.cons_append, List.drop_left]
  | cons x left ih =>
    rw [List.mem_cons, not_or] at absent
    simp only [List.cons_append, cutAtText_cons, not_isPrefixOf_cons (Ne.symm absent.1), Bool.false_eq_true, if_false]
    rw [ih absent.2]
    rfl

theorem cutAtText_of_not_mem (absent : a ∉ text) : cutAtText (a :: pattern) text = none := by
  induction text with
  | nil => rfl
  | cons x rest ih =>
    rw [List.mem_cons, not_or] at absent
    simp only [cutAtText_cons, not_isPrefixOf_cons (Ne.symm absent.1), Bool.false_eq_true, if_false, ih absent.2,
      Option.map_none]

/-- A pattern that is found in a part is found in the whole. -/
theorem cutAtText_isSome_iff : (cutAtText (a :: pattern) text).isSome ↔ a :: pattern <:+: text := by
  induction text with
  | nil => simp [cutAtText]
  | cons x rest ih =>
    rw [cutAtText_cons, List.infix_cons_iff, ← List.isPrefixOf_iff_prefix, ← ih]
    split <;> simp_all

theorem splitFrom_of_not_mem (absent : a ∉ text) : splitFrom (a :: pattern) 0 text = [text] := by
  induction text with
  | nil => rfl
  | cons x rest ih =>
    rw [List.mem_cons, not_or] at absent
    simp only [splitFrom_cons, not_isPrefixOf_cons (Ne.symm absent.1), Bool.false_eq_true, if_false, ih absent.2,
      List.modifyHead_cons]

theorem replaceText_of_not_mem (new : List α) (absent : a ∉ text) : replaceText (a :: pattern) new text = text := by
  rw [replaceText, splitText, splitFrom_of_not_mem absent, List.intercalate_singleton]

theorem splitFrom_append (absent : a ∉ left) (right : List α) :
    splitFrom (a :: pattern) 0 (left ++ right) = (splitFrom (a :: pattern) 0 right).modifyHead (left ++ ·) := by
  induction left with
  | nil => cases split : splitFrom (a :: pattern) 0 right <;> simp [split]
  | cons x left ih =>
    rw [List.mem_cons, not_or] at absent
    simp only [List.cons_append, splitFrom_cons, not_isPrefixOf_cons (Ne.symm absent.1), Bool.false_eq_true, if_false,
      ih absent.2, List.modifyHead_modifyHead]
    rfl

theorem splitFrom_pair (a : α) (right : List α) : splitFrom [a, a] 0 (a :: a :: right) = [] :: splitFrom [a, a] 0 right := by
  simp [splitFrom]

theorem splitFrom_single (other : x ≠ a) (right : List α) :
    splitFrom [a, a] 0 (a :: x :: right) = (splitFrom [a, a] 0 (x :: right)).modifyHead (a :: ·) := by
  have apart : [a, a].isPrefixOf (a :: x :: right) = false := by
    simp [List.isPrefixOf, Ne.symm other]
  rw [splitFrom_cons, apart, if_neg Bool.false_ne_true]

/-- Items between single separators stay together up to a double one. -/
theorem splitFrom_intercalate {ls : List (List α)} (nonempty : ls ≠ []) (clean : ∀ line ∈ ls, line ≠ [] ∧ a ∉ line)
    (right : List α) :
    splitFrom [a, a] 0 ([a].intercalate ls ++ a :: a :: right) = [a].intercalate ls :: splitFrom [a, a] 0 right := by
  induction ls with
  | nil => exact absurd rfl nonempty
  | cons line more ih =>
    obtain ⟨-, absent⟩ := clean line List.mem_cons_self
    cases more with
    | nil =>
      rw [List.intercalate_singleton, splitFrom_append absent, splitFrom_pair, List.modifyHead_cons, List.append_nil]
    | cons next more =>
      have later : ∀ line ∈ next :: more, line ≠ [] ∧ a ∉ line := fun line member =>
        clean line (List.mem_cons_of_mem _ member)
      have rest := ih (List.cons_ne_nil _ _) later
      obtain ⟨solid, free⟩ := later next List.mem_cons_self
      obtain ⟨x, tail, rfl⟩ := List.exists_cons_of_ne_nil solid
      have other : x ≠ a := fun same => free (same ▸ List.mem_cons_self)
      have head : ∃ body, [a].intercalate ((x :: tail) :: more) = x :: body := by
        cases more with
        | nil => exact ⟨tail, List.intercalate_singleton⟩
        | cons third more => exact ⟨_, List.intercalate_cons_cons⟩
      obtain ⟨body, starts⟩ := head
      rw [List.intercalate_cons_cons, starts, List.append_assoc, List.append_assoc, splitFrom_append absent]
      rw [starts] at rest
      simp only [List.nil_append, List.cons_append, List.append_assoc] at rest ⊢
      rw [splitFrom_single other, rest]
      rfl

theorem mem_splitOn {part : List α} (member : part ∈ text.splitOn a) : a ∉ part ∧ ∀ x ∈ part, x ∈ text := by
  induction text generalizing part with
  | nil =>
    obtain rfl := List.mem_singleton.mp member
    exact ⟨List.not_mem_nil, fun x absent => absurd absent List.not_mem_nil⟩
  | cons y rest ih =>
    rw [List.splitOn_cons_eq_if_modifyHead] at member
    split at member
    · rcases List.mem_cons.mp member with rfl | later
      · exact ⟨List.not_mem_nil, fun x absent => absurd absent List.not_mem_nil⟩
      · exact (ih later).imp_right fun inside x found => List.mem_cons_of_mem _ (inside x found)
    · rename_i other
      obtain ⟨head, parts, split⟩ := List.exists_cons_of_ne_nil (List.splitOn_ne_nil a rest)
      rw [split, List.modifyHead_cons] at member
      rw [split] at ih
      rcases List.mem_cons.mp member with rfl | later
      · obtain ⟨absent, inside⟩ := ih List.mem_cons_self
        refine ⟨fun found => ?_, fun x found => ?_⟩
        · rcases List.mem_cons.mp found with rfl | tail
          · exact other (beq_self_eq_true _)
          · exact absent tail
        · rcases List.mem_cons.mp found with rfl | tail
          · exact List.mem_cons_self
          · exact List.mem_cons_of_mem _ (inside x tail)
      · obtain ⟨absent, inside⟩ := ih (List.mem_cons_of_mem _ later)
        exact ⟨absent, fun x found => List.mem_cons_of_mem _ (inside x found)⟩

end Patterns

/-- `str::lines`: a carriage return goes with the line feed after it, and nothing follows the last line feed. -/
def lines (text : List Char) : List (List Char) :=
  let parts := text.splitOn '\n'
  parts.dropLast.map (fun line => if line.getLast? = some '\r' then line.dropLast else line) ++
    parts.getLast?.toList.filter (· ≠ [])

/-- The first of the words between white space. -/
def firstWord (text : List Char) : Option (List Char) :=
  let word := (text.dropWhile isWhitespace).takeWhile fun c => ¬ isWhitespace c
  if word = [] then none else some word

theorem firstWord_append {word rest : List Char} (nonempty : word ≠ []) (solid : ∀ c ∈ word, isWhitespace c = false)
    (blank : ∀ c ∈ rest, isWhitespace c = true) (before : List Char) (leading : ∀ c ∈ before, isWhitespace c = true) :
    firstWord (before ++ word ++ rest) = some word := by
  obtain ⟨c, tail, rfl⟩ := List.exists_cons_of_ne_nil nonempty
  have first := solid c List.mem_cons_self
  have ends : rest.takeWhile (fun c => decide ¬ isWhitespace c = true) = [] := by
    cases rest with
    | nil => rfl
    | cons d rest => rw [List.takeWhile_cons, blank d List.mem_cons_self]; rfl
  rw [firstWord, List.append_assoc, List.dropWhile_append_of_pos leading, List.cons_append,
    List.dropWhile_cons_of_neg (by simp [first]), ← List.cons_append, List.takeWhile_append_of_pos, ends,
    List.append_nil, if_neg (List.cons_ne_nil c tail)]
  exact fun d member => by simp [solid d member]

theorem lines_intercalate {ls : List (List Char)} (nonempty : ls ≠ [])
    (clean : ∀ line ∈ ls, line ≠ [] ∧ '\n' ∉ line ∧ '\r' ∉ line) : lines (['\n'].intercalate ls) = ls := by
  obtain ⟨front, last, rfl⟩ : ∃ front last, ls = front ++ [last] :=
    ⟨_, _, (List.dropLast_append_getLast nonempty).symm⟩
  have kept : ∀ line ∈ front, (if line.getLast? = some '\r' then line.dropLast else line) = line := by
    intro line member
    refine if_neg fun found => ?_
    exact (clean line (List.mem_append_left _ member)).2.2 (List.mem_of_getLast? found)
  have solid := (clean last (List.mem_append_right _ (List.mem_singleton_self last))).1
  rw [lines, List.splitOn_intercalate '\n' (fun line member => (clean line member).2.1) nonempty]
  simp only [List.dropLast_concat, List.getLast?_concat, Option.toList_some]
  rw [List.filter_singleton, decide_eq_true solid, cond_true, List.map_congr_left kept, List.map_id']

end NixHomeServer.Library
