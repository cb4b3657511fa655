import NixHomeServer.Library.Text

/-! Canonical names of folders and files: the cleaning of one component, and when
a cleaned name is in normal form. -/
namespace NixHomeServer.MediaManager.Naming

open NixHomeServer.Library

abbrev Text := List Char

/-- What is written for a character that is no white space. -/
def written (c : Char) : Text :=
  if c = '/' ∨ c = '\\' ∨ c = '\x00' then ['-']
  else if c = ':' then [' ', '-']
  else if isControl c then []
  else [c]

/-- The result so far, and whether white space was skipped since. -/
def cleanStep (s : Text × Bool) (c : Char) : Text × Bool :=
  if isWhitespace c then (s.1, true)
  else ((if s.2 ∧ s.1 ≠ [] then s.1 ++ [' '] else s.1) ++ written c, false)

def isTrimmed (c : Char) : Bool := c == '.' || c == ' '

def cleanComponent (value : Text) : Text := trimBy isTrimmed ((trim value).foldl cleanStep ([], false)).1

/-- A component as the rest of the program expects it. -/
structure NormalForm (name : Text) : Prop where
  chars : ∀ c ∈ name, c ≠ '/' ∧ c ≠ '\\' ∧ c ≠ '\x00' ∧ isControl c = false
  single : ¬ [' ', ' '] <:+: name
  starts : ∀ c, name.head? = some c → c ≠ '.' ∧ c ≠ ' '
  ends : ∀ c, name.getLast? = some c → c ≠ '.' ∧ c ≠ ' '

/-- A control character that is neither white space nor written as a dash. -/
def Vanishes (c : Char) : Prop := isWhitespace c = false ∧ written c = []

/-- A character that puts something into the name which trimming leaves there. -/
def Stays (c : Char) : Prop := isWhitespace c = false ∧ written c ≠ [] ∧ c ≠ '.'

/-- Between two characters that stay there is white space before a colon, or white space on both
sides of control characters. -/
def Broken (value : Text) : Prop :=
  ∃ left w gap c right, value = left ++ w :: (gap ++ c :: right) ∧ isWhitespace w = true ∧ (∀ x ∈ gap, Vanishes x) ∧
    (c = ':' ∨ gap ≠ [] ∧ isWhitespace c = true) ∧ (∃ x ∈ left, Stays x) ∧ ∃ x ∈ c :: right, Stays x

section Spelling

/-- What the characters from some point on add to the name: whether there is something of it yet,
and whether white space came last. -/
def spell : Bool → Bool → Text → Text
  | _, _, [] => []
  | started, pending, c :: rest =>
    if isWhitespace c then spell started true rest
    else (if pending && started then [' '] else []) ++ written c ++ spell (started || written c ≠ []) false rest

@[simp] theorem spell_nil {started pending : Bool} : spell started pending [] = [] := by
  cases started <;> cases pending <;> rfl

theorem spell_cons {started pending : Bool} {c : Char} {rest : Text} : spell started pending (c :: rest) =
    if isWhitespace c then spell started true rest
    else (if pending && started then [' '] else []) ++ written c ++ spell (started || written c ≠ []) false rest := rfl

theorem spell_solid {c : Char} (solid : isWhitespace c = false) (rest : Text) (started pending : Bool) :
    spell started pending (c :: rest) =
      (if pending && started then [' '] else []) ++ written c ++ spell (started || written c ≠ []) false rest := by
  simp [spell_cons, solid]

theorem foldl_cleanStep (value result : Text) (pending : Bool) :
    (value.foldl cleanStep (result, pending)).1 = result ++ spell (result ≠ []) pending value := by
  induction value generalizing result pending with
  | nil => rw [List.foldl_nil, spell_nil, List.append_nil]
  | cons c rest ih =>
    rw [List.foldl_cons, cleanStep, spell_cons]
    split
    · exact ih result true
    · rw [ih, ← List.append_assoc, ← List.append_assoc]
      by_cases started : result = []
      · simp [started]
      · cases pending <;> simp [started]

theorem spell_blank {value : Text} (blank : ∀ c ∈ value, isWhitespace c = true) (started pending : Bool) :
    spell started pending value = [] := by
  induction value generalizing pending with
  | nil => rfl
  | cons c rest ih =>
    rw [spell_cons, if_pos (blank c List.mem_cons_self)]
    exact ih (fun x member => blank x (List.mem_cons_of_mem _ member)) true

theorem spell_append_blank {value blanks : Text} (blank : ∀ c ∈ blanks, isWhitespace c = true) (started pending : Bool) :
    spell started pending (value ++ blanks) = spell started pending value := by
  induction value generalizing started pending with
  | nil => exact spell_blank blank started pending
  | cons c rest ih => simp [spell_cons, ih]

/-- White space at the start and at the end adds nothing. -/
theorem spell_trim (value : Text) : spell false false (trim value) = spell false false value := by
  have pending : ∀ rest pending, spell false pending rest = spell false false rest := by
    intro rest
    induction rest with
    | nil => exact fun _ => rfl
    | cons c rest ih =>
      intro pending
      rw [spell_cons, spell_cons, ih true, Bool.and_false, Bool.and_false]
  have front : ∀ rest, spell false false (rest.dropWhile isWhitespace) = spell false false rest := by
    intro rest
    induction rest with
    | nil => rfl
    | cons c rest ih =>
      by_cases blank : isWhitespace c = true
      · rw [List.dropWhile_cons_of_pos blank, ih, spell_cons, if_pos blank, pending rest true]
      · rw [List.dropWhile_cons_of_neg blank]
  have tail : ∀ rest : Text, ∃ blanks, rest = rest.rdropWhile isWhitespace ++ blanks ∧ ∀ c ∈ blanks, isWhitespace c = true := by
    intro rest
    refine ⟨(rest.reverse.takeWhile isWhitespace).reverse, ?_, fun c member => ?_⟩
    · simp [List.rdropWhile, ← List.reverse_append]
    · exact List.all_eq_true.mp List.all_takeWhile c (List.mem_reverse.mp member)
  obtain ⟨blanks, split, blank⟩ := tail (value.dropWhile isWhitespace)
  rw [← front value, split, spell_append_blank blank]
  rfl

theorem cleanComponent_eq (value : Text) : cleanComponent value = trimBy isTrimmed (spell false false value) := by
  rw [cleanComponent, foldl_cleanStep, ← spell_trim]
  rfl

/-- White space is never written as such, and a written text of some length ends in no space. -/
theorem written_cases {c : Char} (solid : isWhitespace c = false) :
    (Vanishes c ∧ written c = []) ∨ (c = ':' ∧ written c = [' ', '-']) ∨
      ∃ x, written c = [x] ∧ x ≠ ' ' ∧ c ≠ ':' ∧ (x = '.' → c = '.') := by
  by_cases empty : written c = []
  · exact .inl ⟨⟨solid, empty⟩, empty⟩
  · unfold written at empty ⊢
    split
    · rename_i slash
      refine .inr (.inr ⟨'-', rfl, by decide, ?_, fun same => absurd same (by decide)⟩)
      rcases slash with rfl | rfl | rfl <;> decide
    · split
      · rename_i colon
        exact .inr (.inl ⟨colon, rfl⟩)
      · rename_i other
        split
        · simp_all
        · refine .inr (.inr ⟨c, rfl, ?_, other, id⟩)
          rintro rfl
          exact absurd solid (by decide)

theorem solid_written {c x : Char} (solid : isWhitespace c = false) (member : x ∈ written c) (kept : isTrimmed x = false) :
    Stays c := by
  refine ⟨solid, List.ne_nil_of_mem member, ?_⟩
  rintro rfl
  have same : x = '.' := by simpa [written, isControl] using member
  subst same
  exact absurd kept (by decide)

theorem stays_written {c : Char} (stays : Stays c) : ∃ x ∈ written c, isTrimmed x = false := by
  obtain ⟨solid, nonempty, other⟩ := stays
  rcases written_cases solid with ⟨-, empty⟩ | ⟨-, made⟩ | ⟨x, made, no_space, -, dot⟩
  · exact absurd empty nonempty
  · exact ⟨'-', by simp [made], by decide⟩
  · refine ⟨x, by simp [made], ?_⟩
    have no_dot : x ≠ '.' := fun same => other (dot same)
    simp [isTrimmed, no_dot, no_space]

/-- What trimming leaves comes from a character that stays. -/
theorem stays_of_spell {value : Text} {started pending : Bool} {x : Char} (member : x ∈ spell started pending value)
    (kept : isTrimmed x = false) : ∃ c ∈ value, Stays c := by
  induction value generalizing started pending with
  | nil => simp at member
  | cons c rest ih =>
    rw [spell_cons] at member
    split at member
    · obtain ⟨d, later, stays⟩ := ih member
      exact ⟨d, List.mem_cons_of_mem _ later, stays⟩
    · rename_i solid
      rw [Bool.not_eq_true] at solid
      rcases List.mem_append.mp member with here | later
      · rcases List.mem_append.mp here with space | here
        · split at space
          · rw [List.mem_singleton.mp space] at kept
            exact absurd kept (by decide)
          · exact absurd space List.not_mem_nil
        · exact ⟨c, List.mem_cons_self, solid_written solid here kept⟩
      · obtain ⟨d, later, stays⟩ := ih later
        exact ⟨d, List.mem_cons_of_mem _ later, stays⟩

theorem spell_of_stays {value : Text} {started pending : Bool} {c : Char} (member : c ∈ value) (stays : Stays c) :
    ∃ x ∈ spell started pending value, isTrimmed x = false := by
  induction value generalizing started pending with
  | nil => exact absurd member List.not_mem_nil
  | cons d rest ih =>
    rw [spell_cons]
    rcases List.mem_cons.mp member with rfl | later
    · obtain ⟨x, inside, kept⟩ := stays_written stays
      rw [if_neg (by simp [stays.1])]
      exact ⟨x, by simp [inside], kept⟩
    · split
      · exact ih later
      · obtain ⟨x, inside, kept⟩ := ih later
        exact ⟨x, List.mem_append_right _ inside, kept⟩

/-- After characters that vanish a space comes from white space or a colon. -/
theorem opens_with_space {value rest : Text} (opens : spell true false value = ' ' :: rest) :
    ∃ gap c right, value = gap ++ c :: right ∧ (∀ x ∈ gap, Vanishes x) ∧ (c = ':' ∨ isWhitespace c = true) := by
  induction value generalizing rest with
  | nil => simp at opens
  | cons c tail ih =>
    by_cases blank : isWhitespace c = true
    · exact ⟨[], c, tail, rfl, by simp, .inr blank⟩
    · have solid : isWhitespace c = false := by simpa using blank
      rw [spell_cons, if_neg blank] at opens
      rcases written_cases solid with ⟨vanishes, empty⟩ | ⟨colon, -⟩ | ⟨x, made, no_space, -⟩
      · simp only [empty, Bool.false_and, Bool.false_eq_true, if_false, List.nil_append, ne_eq, not_true, decide_false,
          Bool.or_false] at opens
        obtain ⟨gap, d, right, rfl, all, ends⟩ := ih opens
        exact ⟨c :: gap, d, right, rfl, List.forall_mem_cons.mpr ⟨vanishes, all⟩, ends⟩
      · exact ⟨[], c, tail, rfl, by simp, .inl colon⟩
      · simp [made] at opens
        exact absurd opens.1 no_space

theorem pending_opens {value : Text} {c : Char} (member : c ∈ value) (stays : Stays c) :
    ∃ r, spell true true value = ' ' :: r ∧ ∃ x ∈ r, isTrimmed x = false := by
  induction value with
  | nil => exact absurd member List.not_mem_nil
  | cons d rest ih =>
    by_cases blank : isWhitespace d = true
    · rcases List.mem_cons.mp member with rfl | later
      · exact absurd blank (by simp [stays.1])
      · simpa [spell_cons, blank] using ih later
    · have opens : spell true true (d :: rest) = ' ' :: (written d ++ spell true false rest) := by simp [spell_cons, blank]
      have left_over : ∃ x ∈ spell true true (d :: rest), isTrimmed x = false := spell_of_stays member stays
      obtain ⟨x, inside, kept⟩ := left_over
      rw [opens] at inside
      rcases List.mem_cons.mp inside with rfl | inside
      · exact absurd kept (by decide)
      · exact ⟨_, opens, x, inside, kept⟩

theorem spell_append (left rest : Text) (started pending : Bool) : ∃ waiting, spell started pending (left ++ rest) =
    spell started pending left ++ spell (started || left.any fun c => !isWhitespace c && written c ≠ []) waiting rest := by
  induction left generalizing started pending with
  | nil => exact ⟨pending, by simp⟩
  | cons c left ih =>
    by_cases blank : isWhitespace c = true
    · obtain ⟨waiting, same⟩ := ih started true
      exact ⟨waiting, by simp [spell_cons, blank, same]⟩
    · obtain ⟨waiting, same⟩ := ih (started || written c ≠ []) false
      exact ⟨waiting, by simpa [spell_cons, blank, Bool.or_assoc] using same⟩

theorem spell_gap {gap : Text} (all : ∀ x ∈ gap, Vanishes x) (value : Text) :
    spell true false (gap ++ value) = spell true false value := by
  induction gap with
  | nil => rfl
  | cons x gap ih =>
    obtain ⟨⟨solid, empty⟩, later⟩ := List.forall_mem_cons.mp all
    simp [spell_cons, solid, empty, ih later]

end Spelling

section Doubles

/-- The colon or the white space after which a space stands behind another one. -/
def DoubledAt (value r : Text) : Prop :=
  ∃ gap c right, value = gap ++ c :: right ∧ (∀ x ∈ gap, Vanishes x) ∧ (c = ':' ∨ gap ≠ [] ∧ isWhitespace c = true) ∧
    ((∃ x ∈ r, isTrimmed x = false) → ∃ x ∈ c :: right, Stays x)

/-- The white space before it, where it is in the value. -/
def DoubledIn (value l r : Text) : Prop :=
  ∃ left w gap c right, value = left ++ w :: (gap ++ c :: right) ∧ isWhitespace w = true ∧ (∀ x ∈ gap, Vanishes x) ∧
    (c = ':' ∨ gap ≠ [] ∧ isWhitespace c = true) ∧ ((∃ x ∈ l, isTrimmed x = false) → ∃ x ∈ left, Stays x) ∧
    ((∃ x ∈ r, isTrimmed x = false) → ∃ x ∈ c :: right, Stays x)

/-- One character adds two spaces in a row only if it is a colon after white space. -/
theorem double_emitted {a : Char} {spaced : Bool} {l m : Text} (solid : isWhitespace a = false)
    (same : (if spaced then [' '] else []) ++ written a = l ++ ' ' :: ' ' :: m) : spaced = true ∧ l = [] ∧ a = ':' := by
  rcases written_cases solid with ⟨-, made⟩ | ⟨colon, made⟩ | ⟨z, made, no_space, -⟩
  all_goals
    rw [made] at same
    cases spaced <;> rcases l with _ | ⟨b, _ | ⟨d, _ | ⟨e, l⟩⟩⟩ <;> simp_all

theorem doubled_spell {value l r : Text} {started pending : Bool}
    (doubled : spell started pending value = l ++ ' ' :: ' ' :: r) :
    DoubledIn value l r ∨ pending = true ∧ l = [] ∧ DoubledAt value r := by
  induction value generalizing started pending l with
  | nil => simp at doubled
  | cons a rest ih =>
    rw [spell_cons] at doubled
    split at doubled
    · rename_i blank
      rcases ih doubled with ⟨left, w, gap, c, right, rfl, white, all, ends, before, after⟩ |
        ⟨-, rfl, gap, c, right, rfl, all, ends, after⟩
      · refine .inl ⟨a :: left, w, gap, c, right, rfl, white, all, ends, fun kept => ?_, after⟩
        obtain ⟨x, member, stays⟩ := before kept
        exact ⟨x, List.mem_cons_of_mem _ member, stays⟩
      · exact .inl ⟨[], a, gap, c, right, rfl, blank, all, ends, fun ⟨x, absent, _⟩ => absurd absent List.not_mem_nil, after⟩
    · rename_i solid
      rw [Bool.not_eq_true] at solid
      have behind : ∀ l', l = (if pending && started then [' '] else []) ++ written a ++ l' →
          spell (started || written a ≠ []) false rest = l' ++ ' ' :: ' ' :: r → DoubledIn (a :: rest) l r := by
        rintro l' rfl later
        rcases ih later with ⟨left, w, gap, c, right, rfl, white, all, ends, before, after⟩ | ⟨no, -⟩
        · refine ⟨a :: left, w, gap, c, right, rfl, white, all, ends, fun ⟨x, member, kept⟩ => ?_, after⟩
          rcases List.mem_append.mp member with here | member
          · rcases List.mem_append.mp here with space | here
            · split at space
              · rw [List.mem_singleton.mp space] at kept
                exact absurd kept (by decide)
              · exact absurd space List.not_mem_nil
            · exact ⟨a, List.mem_cons_self, solid_written solid here kept⟩
          · obtain ⟨y, member, stays⟩ := before ⟨x, member, kept⟩
            exact ⟨y, List.mem_cons_of_mem _ member, stays⟩
        · cases no
      rcases List.append_eq_append_iff.mp doubled with ⟨l', same, later⟩ | ⟨m, same, later⟩
      · exact .inl (behind l' same later)
      · match m with
        | [] => exact .inl (behind [] (by simpa using same.symm) later.symm)
        | [x] =>
          -- the first space is all that this character adds
          obtain ⟨rfl, opens⟩ := List.cons.inj later
          rcases written_cases solid with ⟨vanishes, empty⟩ | ⟨-, made⟩ | ⟨y, made, no_space, -⟩
          · by_cases spaced : pending && started
            · rw [if_pos spaced, empty, List.append_nil] at same
              obtain ⟨waiting, began⟩ := Bool.and_eq_true_iff.mp spaced
              obtain rfl : l = [] := by simpa using congrArg List.length same
              rw [began, Bool.true_or] at opens
              obtain ⟨gap, c, right, rfl, all, ends⟩ := opens_with_space opens.symm
              refine .inr ⟨waiting, rfl, a :: gap, c, right, rfl, List.forall_mem_cons.mpr ⟨vanishes, all⟩,
                ends.imp_right fun white => ⟨List.cons_ne_nil _ _, white⟩, fun ⟨y, member, kept⟩ => ?_⟩
              rw [spell_gap all] at opens
              exact stays_of_spell (opens ▸ List.mem_cons_of_mem _ member) kept
            · simp [spaced, empty] at same
          · have last := congrArg List.getLast? same
            simp [made] at last
          · have last := congrArg List.getLast? same
            simp [made] at last
            exact absurd last no_space
        | x :: y :: m =>
          obtain ⟨rfl, next⟩ := List.cons.inj later
          obtain ⟨rfl, tail⟩ := List.cons.inj next
          obtain ⟨spaced, rfl, colon⟩ := double_emitted solid same
          have stays : Stays a := ⟨solid, by simp [written, colon], by simp [colon]⟩
          exact .inr ⟨(Bool.and_eq_true_iff.mp spaced).1, rfl, [], a, rest, rfl, by simp, .inl colon,
            fun _ => ⟨a, List.mem_cons_self, stays⟩⟩

/-- The raw name has two spaces in a row, between characters that trimming leaves, exactly where
the value is broken. -/
theorem doubled_iff (value : Text) : [' ', ' '] <:+: cleanComponent value ↔ Broken value := by
  rw [cleanComponent_eq, infix_trimBy_iff (by simp) (by simp [isTrimmed])]
  constructor
  · rintro ⟨l, r, split, before, after⟩
    have doubled : spell false false value = l ++ ' ' :: ' ' :: r := by simp [split]
    rcases doubled_spell doubled with ⟨left, w, gap, c, right, same, white, all, ends, first, last⟩ | ⟨no, -⟩
    · exact ⟨left, w, gap, c, right, same, white, all, ends, first before, last after⟩
    · cases no
  · rintro ⟨left, w, gap, c, right, rfl, white, all, ends, ⟨x, member, stays⟩, y, member', stays'⟩
    have began : (left.any fun c => !isWhitespace c && written c ≠ []) = true :=
      List.any_eq_true.mpr ⟨x, member, by simp [stays.1, stays.2.1]⟩
    obtain ⟨waiting, cut⟩ := spell_append left (w :: (gap ++ c :: right)) false false
    have spaces : ∃ r, spell true waiting (w :: (gap ++ c :: right)) = ' ' :: ' ' :: r ∧ ∃ z ∈ r, isTrimmed z = false := by
      rw [spell_cons, if_pos white]
      cases gap with
      | nil =>
        obtain rfl : c = ':' := ends.resolve_right fun both => both.1 rfl
        exact ⟨_, rfl, '-', by simp, by decide⟩
      | cons g gap =>
        obtain ⟨⟨solid, empty⟩, later⟩ := List.forall_mem_cons.mp all
        have emitted : spell true true (g :: gap ++ c :: right) = ' ' :: spell true false (c :: right) := by
          simp [spell_cons, solid, empty, spell_gap later]
        rw [emitted]
        rcases ends with rfl | ⟨-, blank⟩
        · exact ⟨_, rfl, '-', by simp, by decide⟩
        · have inside : y ∈ right := by
            rcases List.mem_cons.mp member' with rfl | inside
            · exact absurd blank (by simp [stays'.1])
            · exact inside
          obtain ⟨r, opens, kept⟩ := pending_opens inside stays'
          exact ⟨r, by simp [spell_cons, blank, opens], kept⟩
    obtain ⟨r, same, kept⟩ := spaces
    rw [began, Bool.or_true, same] at cut
    exact ⟨spell false false left, r, by simp [cut], spell_of_stays member stays, kept⟩

end Doubles

section Normal

/-- What every name is made of. -/
structure Plain (c : Char) : Prop where
  dashed : c ≠ '/' ∧ c ≠ '\\' ∧ c ≠ '\x00' ∧ c ≠ ':'
  control : isControl c = false
  space : isWhitespace c = true → c = ' '

theorem plain_written {c x : Char} (solid : isWhitespace c = false) (member : x ∈ written c) : Plain x := by
  have dash : Plain '-' := ⟨by decide, by decide, by decide⟩
  have space : Plain ' ' := ⟨by decide, by decide, by decide⟩
  unfold written at member
  split at member
  · exact List.mem_singleton.mp member ▸ dash
  · rename_i no_slash
    split at member
    · rcases List.mem_cons.mp member with rfl | member
      · exact space
      · exact List.mem_singleton.mp member ▸ dash
    · rename_i no_colon
      split at member
      · exact absurd member List.not_mem_nil
      · rename_i printable
        obtain rfl := List.mem_singleton.mp member
        simp only [not_or] at no_slash
        exact ⟨⟨no_slash.1, no_slash.2.1, no_slash.2.2, no_colon⟩, by simpa using printable, by simp [solid]⟩

theorem plain_spell {value : Text} {started pending : Bool} : ∀ x ∈ spell started pending value, Plain x := by
  induction value generalizing started pending with
  | nil => simp
  | cons c rest ih =>
    intro x member
    rw [spell_cons] at member
    split at member
    · exact ih x member
    · rename_i solid
      rcases List.mem_append.mp member with here | later
      · rcases List.mem_append.mp here with space | here
        · split at space
          · exact List.mem_singleton.mp space ▸ ⟨by decide, by decide, by decide⟩
          · exact absurd space List.not_mem_nil
        · exact plain_written (by simpa using solid) here
      · exact ih x later

theorem Plain.written {c : Char} (plain : Plain c) : written c = [c] := by
  obtain ⟨⟨a, b, d, colon⟩, control, -⟩ := plain
  simp [Naming.written, a, b, d, colon, control]

/-- A text of single spaces inside is written as it is. -/
theorem spell_plain {text : Text} (plain : ∀ x ∈ text, Plain x) (single : ¬ [' ', ' '] <:+: text)
    (ends : text.getLast? ≠ some ' ') : spell true false text = text ∧
      ∀ c rest, text = c :: rest → c ≠ ' ' → ∀ started, spell started false text = text ∧ spell true true text = ' ' :: text := by
  induction text with
  | nil => simp
  | cons c rest ih =>
    obtain ⟨first, others⟩ := List.forall_mem_cons.mp plain
    have behind := ih others (fun inside => single (inside.trans (List.suffix_cons c rest).isInfix))
    cases rest with
    | nil =>
      have solid : c ≠ ' ' := by simpa using ends
      have blank : isWhitespace c ≠ true := mt first.space solid
      simp [spell_cons, blank, first.written]
    | cons d later =>
      obtain ⟨whole, waiting⟩ := behind (by simpa using ends)
      by_cases space : c = ' '
      · subst space
        have other : d ≠ ' ' := by
          rintro rfl
          exact single ⟨[], later, rfl⟩
        have opens := (waiting d later rfl other true).2
        refine ⟨by rw [spell_cons, if_pos (by decide), opens], ?_⟩
        rintro c rest same solid
        exact absurd (List.cons.inj same).1.symm solid
      · have blank : isWhitespace c ≠ true := mt first.space space
        have step : ∀ started, spell started false (c :: d :: later) = c :: d :: later := by
          intro started
          rw [spell_solid (by simpa using blank), first.written]
          simp [whole]
        refine ⟨step true, fun _ _ _ _ started => ⟨step started, ?_⟩⟩
        rw [spell_solid (by simpa using blank), first.written]
        simp [whole]

/-- A cleaned name is in normal form, and cleaning it again changes nothing, exactly where no white
space stands before a colon or on both sides of control characters. -/
theorem cleanComponent_normal_iff (value : Text) :
    (NormalForm (cleanComponent value) ∧ cleanComponent (cleanComponent value) = cleanComponent value) ↔ ¬ Broken value := by
  rw [← doubled_iff]
  refine ⟨fun both => both.1.single, fun single => ?_⟩
  have plain : ∀ x ∈ cleanComponent value, Plain x := by
    rw [cleanComponent_eq]
    exact fun x member => plain_spell x (mem_of_mem_trimBy member)
  have again : cleanComponent (cleanComponent value) = trimBy isTrimmed (spell false false (cleanComponent value)) :=
    cleanComponent_eq _
  have trimmed : trimBy isTrimmed (cleanComponent value) = cleanComponent value := by
    rw [cleanComponent_eq, trimBy_trimBy]
  have kept : ∀ c, isTrimmed c = false → c ≠ '.' ∧ c ≠ ' ' := by
    intro c
    simp [isTrimmed]
  by_cases empty : cleanComponent value = []
  · rw [empty] at again ⊢
    exact ⟨⟨by simp, by simp, by simp, by simp⟩, again⟩
  · have solid_ends := solid_of_trimBy_ends (trimmed ▸ empty)
    rw [trimmed] at solid_ends
    obtain ⟨⟨x, rest, starts, first⟩, front, y, ends, last⟩ := solid_ends
    have whole := spell_plain plain single (by rw [ends, List.getLast?_concat]; simp [(kept y last).2])
    refine ⟨⟨fun c member => ?_, single, ?_, ?_⟩, ?_⟩
    · obtain ⟨dashed, control, -⟩ := plain c member
      exact ⟨dashed.1, dashed.2.1, dashed.2.2.1, control⟩
    · simpa [starts] using kept x first
    · simpa [ends] using kept y last
    · rw [again, (whole.2 x rest starts (kept x first).2 false).1, trimmed]

/-- White space before a colon, as in a title and its subtitle. -/
theorem spaced_colon : [' ', ' '] <:+: cleanComponent "a : b".toList ∧
    cleanComponent (cleanComponent "a : b".toList) ≠ cleanComponent "a : b".toList := by
  decide

end Normal

end NixHomeServer.MediaManager.Naming
