import Mathlib.Algebra.GroupWithZero.Nat
import NixHomeServer.Downloader.Paths
import NixHomeServer.Library.Numerals
import NixHomeServer.Library.Templates

/-! Titles as names of folders and files, and as templates of the program that downloads. -/
namespace NixHomeServer.Downloader

open NixHomeServer.Library

def blank (c : Char) : Bool := c = '.' || isSpace c

/-- What of a text the name is cut from. -/
def body (value : Option String) (fallback : String) : Name :=
  trimBy blank (trimBy isSpace (collapse ((value.getD fallback).toList.map fun c => if isForbidden c then ' ' else c)))

def units (text : Name) : Nat := (text.map fun c => if c.val < 0x10000 then 1 else 2).sum

theorem sanitizeSegment_eq (value : Option String) (fallback : String) :
    sanitizeSegment value fallback =
      if sliceUnits 120 (body value fallback) = [] then fallback.toList
      else if windowsReservedNames (sliceUnits 120 (body value fallback)) then sliceUnits 120 (body value fallback) ++ ['_']
      else sliceUnits 120 (body value fallback) := rfl

section Tidy

variable {text left right : Name} {c : Char}

/-- No blank but single spaces. -/
def Single : Name → Prop
  | [] => True
  | c :: rest => (isSpace c = true → c = ' ' ∧ rest.head?.any isSpace = false) ∧ Single rest

theorem collapse_cons : collapse (c :: text) =
    if isSpace c then if text.head?.any isSpace then collapse text else ' ' :: collapse text else c :: collapse text := rfl

theorem collapse_head (solid : text.head?.any isSpace = false) : (collapse text).head?.any isSpace = false := by
  cases text with
  | nil => rfl
  | cons c rest =>
    have plain : isSpace c = false := by simpa using solid
    rw [collapse_cons, plain, if_neg Bool.false_ne_true]
    exact solid

theorem single_collapse (text : Name) : Single (collapse text) := by
  induction text with
  | nil => trivial
  | cons c rest ih =>
    rw [collapse_cons]
    by_cases space : isSpace c = true
    · rw [if_pos space]
      by_cases more : rest.head?.any isSpace = true
      · rw [if_pos more]
        exact ih
      · rw [if_neg more]
        exact ⟨fun _ => ⟨rfl, collapse_head (Bool.not_eq_true _ ▸ more)⟩, ih⟩
    · rw [if_neg space]
      exact ⟨fun same => (space same).elim, ih⟩

theorem collapse_of_single (single : Single text) : collapse text = text := by
  induction text with
  | nil => rfl
  | cons c rest ih =>
    obtain ⟨first, later⟩ := single
    rw [collapse_cons]
    by_cases space : isSpace c = true
    · obtain ⟨rfl, alone⟩ := first space
      rw [if_pos space, alone, if_neg Bool.false_ne_true, ih later]
    · rw [if_neg space, ih later]

theorem mem_collapse (member : c ∈ collapse text) : c = ' ' ∨ c ∈ text := by
  induction text with
  | nil => cases member
  | cons x rest ih =>
    rw [collapse_cons] at member
    split at member
    · split at member
      · exact (ih member).imp id (List.mem_cons_of_mem _)
      · rcases List.mem_cons.mp member with same | later
        · exact .inl same
        · exact (ih later).imp id (List.mem_cons_of_mem _)
    · rcases List.mem_cons.mp member with same | later
      · exact .inr (same ▸ List.mem_cons_self)
      · exact (ih later).imp id (List.mem_cons_of_mem _)

theorem Single.front (single : Single (left ++ right)) : Single left := by
  induction left with
  | nil => trivial
  | cons c left ih =>
    obtain ⟨first, later⟩ := single
    refine ⟨fun space => ⟨(first space).1, ?_⟩, ih later⟩
    cases left with
    | nil => rfl
    | cons d left => exact (first space).2

theorem Single.back (single : Single (left ++ right)) : Single right := by
  induction left with
  | nil => exact single
  | cons c left ih => exact ih single.2

/-- Two texts fit together unless one ends and the other starts with a blank. -/
theorem Single.append (first : Single left) (second : Single right)
    (apart : ∀ front c d rest, left = front ++ [c] → right = d :: rest → isSpace c = false ∨ isSpace d = false) :
    Single (left ++ right) := by
  induction left with
  | nil => exact second
  | cons c left ih =>
    refine ⟨fun space => ⟨(first.1 space).1, ?_⟩,
      ih first.2 fun front x d rest same => apart (c :: front) x d rest (by rw [same]; rfl)⟩
    cases left with
    | nil =>
      cases right with
      | nil => rfl
      | cons d right =>
        rcases apart [] c d right rfl rfl with solid | solid
        · rw [space] at solid
          cases solid
        · simpa using solid
    | cons d left => exact (first.1 space).2

/-- No forbidden character, and no blank but single spaces. -/
structure Tidy (text : Name) : Prop where
  clean : ∀ c ∈ text, isForbidden c = false
  single : Single text

/-- Neither end is a dot or a blank. -/
structure Ends (text : Name) : Prop where
  first : ∀ c rest, text = c :: rest → blank c = false
  last : ∀ front c, text = front ++ [c] → blank c = false

theorem Tidy.part (tidy : Tidy right) (part : left <:+: right) : Tidy left := by
  obtain ⟨front, back, rfl⟩ := part
  exact ⟨fun c member => tidy.clean c (by simp [member]), tidy.single.front.back⟩

theorem tidy_body (value : Option String) (fallback : String) : Tidy (body value fallback) := by
  set text := (value.getD fallback).toList.map fun c => if isForbidden c then ' ' else c with text_eq
  have whole : Tidy (collapse text) := by
    refine ⟨fun c member => ?_, single_collapse text⟩
    rcases mem_collapse member with rfl | inside
    · decide
    · rw [text_eq] at inside
      obtain ⟨x, -, rfl⟩ := List.mem_map.mp inside
      split
      · decide
      · rename_i plain
        exact Bool.not_eq_true _ ▸ plain
  exact whole.part ((isInfix_trimBy blank _).trans (isInfix_trimBy isSpace _))

theorem ends_body (value : Option String) (fallback : String) : Ends (body value fallback) := by
  by_cases empty : body value fallback = []
  · rw [empty]
    exact ⟨nofun, fun front c same => by simp at same⟩
  · obtain ⟨⟨x, rest, front, first⟩, before, y, back, last⟩ := solid_of_trimBy_ends (show trimBy blank _ ≠ [] from empty)
    change body value fallback = x :: rest at front
    change body value fallback = before ++ [y] at back
    constructor
    · intro c others same
      rw [front] at same
      exact (List.cons.inj same).1 ▸ first
    · intro others c same
      rw [back] at same
      exact List.singleton_inj.mp (List.append_inj' same rfl).2 ▸ last

/-- A tidy text with solid ends is its own body. -/
theorem body_of_tidy (tidy : Tidy text) (ends : Ends text) (fallback : String) :
    body (some (String.ofList text)) fallback = text := by
  have spaces : ∀ c, blank c = false → isSpace c = false := by
    intro c solid
    rw [blank, Bool.or_eq_false_iff] at solid
    exact solid.2
  have plain : text.map (fun c => if isForbidden c then ' ' else c) = text := by
    rw [List.map_congr_left fun c member => if_neg (by rw [tidy.clean c member]; exact Bool.false_ne_true)]
    exact List.map_id'' (fun _ => rfl) text
  rw [body, Option.getD_some, String.toList_ofList, plain, collapse_of_single tidy.single,
    trimBy_of_ends (fun c rest same => spaces c (ends.first c rest same)) fun front c same => spaces c (ends.last front c same),
    trimBy_of_ends ends.first ends.last]

end Tidy

section Slices

variable {text front front' rest rest' : Name} {c : Char} {n : Nat}

@[simp] theorem units_nil : units [] = 0 := rfl

@[simp] theorem units_cons (c : Char) (text : Name) :
    units (c :: text) = (if c.val < 0x10000 then 1 else 2) + units text := rfl

@[simp] theorem units_append (left right : Name) : units (left ++ right) = units left + units right := by
  simp [units]

theorem units_of_small (small : ∀ c ∈ text, c.val < 0x10000) : units text = text.length := by
  induction text with
  | nil => rfl
  | cons c text ih =>
    obtain ⟨first, others⟩ := List.forall_mem_cons.mp small
    rw [units_cons, if_pos first, ih others, List.length_cons, Nat.add_comm]

theorem length_le_units (text : Name) : text.length ≤ units text := by
  induction text with
  | nil => exact Nat.le_refl 0
  | cons c text ih =>
    rw [units_cons, List.length_cons]
    split <;> omega

/-- The same count of units from the start is the same text. -/
theorem front_of_units (same : front ++ rest = front' ++ rest') (count : units front = units front') : front = front' := by
  rcases List.append_eq_append_iff.mp same with ⟨middle, rfl, -⟩ | ⟨middle, rfl, -⟩
  all_goals
    rw [units_append] at count
    have empty : middle.length = 0 := by have := length_le_units middle; omega
    simp [List.length_eq_zero_iff.mp empty]

/-- A text that is cut is cut between two characters or within one. -/
theorem sliceUnits_cases (n : Nat) (text : Name) : (units text ≤ n ∧ sliceUnits n text = text) ∨
    (∃ front c rest, text = front ++ c :: rest ∧ units front = n ∧ sliceUnits n text = front) ∨
    (∃ front c rest, text = front ++ c :: rest ∧ units front + 1 = n ∧ ¬ c.val < 0x10000 ∧
      sliceUnits n text = front ++ ['\ufffd']) := by
  induction text generalizing n with
  | nil => exact .inl ⟨Nat.zero_le n, by cases n <;> rfl⟩
  | cons c rest ih =>
    cases n with
    | zero => exact .inr (.inl ⟨[], c, rest, rfl, rfl, rfl⟩)
    | succ n =>
      by_cases small : c.val < 0x10000
      · have cut : sliceUnits (n + 1) (c :: rest) = c :: sliceUnits n rest := if_pos small
        rw [cut]
        rcases ih n with ⟨fits, whole⟩ | ⟨front, d, back, split, count, made⟩ | ⟨front, d, back, split, count, large, made⟩
        · exact .inl ⟨by rw [units_cons, if_pos small]; omega, by rw [whole]⟩
        · exact .inr (.inl ⟨c :: front, d, back, by rw [split, List.cons_append], by rw [units_cons, if_pos small]; omega,
            by rw [made]⟩)
        · exact .inr (.inr ⟨c :: front, d, back, by rw [split, List.cons_append], by rw [units_cons, if_pos small]; omega,
            large, by rw [made, List.cons_append]⟩)
      · by_cases last : n = 0
        · refine .inr (.inr ⟨[], c, rest, rfl, by simp [last], small, ?_⟩)
          simp [sliceUnits, small, last]
        · have cut : sliceUnits (n + 1) (c :: rest) = c :: sliceUnits (n - 1) rest := by
            simp [sliceUnits, small, last]
          rw [cut]
          rcases ih (n - 1) with ⟨fits, whole⟩ | ⟨front, d, back, split, count, made⟩ | ⟨front, d, back, split, count, large, made⟩
          · exact .inl ⟨by rw [units_cons, if_neg small]; omega, by rw [whole]⟩
          · exact .inr (.inl ⟨c :: front, d, back, by rw [split, List.cons_append], by rw [units_cons, if_neg small]; omega,
              by rw [made]⟩)
          · exact .inr (.inr ⟨c :: front, d, back, by rw [split, List.cons_append], by rw [units_cons, if_neg small]; omega,
              large, by rw [made, List.cons_append]⟩)

theorem units_sliceUnits (n : Nat) (text : Name) : units (sliceUnits n text) ≤ n := by
  rcases sliceUnits_cases n text with ⟨fits, whole⟩ | ⟨front, c, rest, -, count, made⟩ | ⟨front, c, rest, -, count, -, made⟩
  · rw [whole]
    exact fits
  · rw [made]
    exact Nat.le_of_eq count
  · rw [made, units_append]
    exact Nat.le_of_eq count

end Slices

section Devices

variable {text stem rest : Name} {c : Char}

theorem reserved_extension (stem rest : Name) : windowsReservedNames (stem ++ '.' :: rest) = windowsReservedNames stem := by
  have same : (stem ++ '.' :: rest).takeWhile (· ≠ '.') = stem.takeWhile (· ≠ '.') := by
    induction stem with
    | nil => rfl
    | cons c stem ih =>
      rw [List.cons_append, List.takeWhile_cons, List.takeWhile_cons, ih]
  rw [windowsReservedNames, windowsReservedNames, same]

theorem reserved_cases (reserved : windowsReservedNames text = true) :
    (text.takeWhile (· ≠ '.')).map Char.toLower ∈ (["con", "prn", "aux", "nul"].map String.toList ++
      ["com", "lpt"].flatMap fun port => "123456789".toList.map fun digit => port.toList ++ [digit]) := by
  simp only [windowsReservedNames, Bool.or_eq_true, List.any_eq_true, decide_eq_true_eq] at reserved
  rcases reserved with ⟨name, member, same⟩ | ⟨port, member, digit, among, same⟩
  · exact List.mem_append_left _ (List.mem_map.mpr ⟨name, member, same⟩)
  · exact List.mem_append_right _ (List.mem_flatMap.mpr ⟨port, member, List.mem_map.mpr ⟨digit, among, same⟩⟩)

/-- A device name is short and starts with a letter. -/
theorem reserved_shape (reserved : windowsReservedNames text = true) :
    (text.takeWhile (· ≠ '.')).length ≤ 4 ∧ ∃ c rest, text = c :: rest ∧ c.toLower ∈ ['c', 'p', 'a', 'n', 'l'] ∧
      ∀ last ∈ ((text.takeWhile (· ≠ '.')).map Char.toLower).getLast?, last ≠ '_' := by
  have table : ∀ name ∈ (["con", "prn", "aux", "nul"].map String.toList ++
      ["com", "lpt"].flatMap fun port => "123456789".toList.map fun digit => port.toList ++ [digit]),
      name.length ≤ 4 ∧ name.head?.any (· ∈ ['c', 'p', 'a', 'n', 'l']) = true ∧ name.getLast? ≠ some '_' := by
    decide
  obtain ⟨short, letter, unscored⟩ := table _ (reserved_cases reserved)
  have last : ∀ last ∈ ((text.takeWhile (· ≠ '.')).map Char.toLower).getLast?, last ≠ '_' := by
    rintro last there rfl
    exact unscored there
  rw [List.length_map] at short
  refine ⟨short, ?_⟩
  cases text with
  | nil => simp at letter
  | cons c rest =>
    refine ⟨c, rest, rfl, ?_, last⟩
    by_cases dot : c = '.'
    · simp [dot] at letter
    · simpa [List.takeWhile_cons, dot] using letter

end Devices

section Names

variable {text segment : Name} {value : Option String} {fallback : String}

/-- A name that every system takes as it is, and that is not changed when it is cleaned again. -/
structure Good (segment : Name) : Prop where
  filled : segment ≠ []
  clean : ∀ c ∈ segment, isForbidden c = false
  ends : Ends segment
  device : windowsReservedNames segment = false
  fixed : ∀ fallback, sanitizeSegment (some (String.ofList segment)) fallback = segment

theorem sanitizeSegment_tidy (tidy : Tidy segment) (ends : Ends segment) (filled : segment ≠ [])
    (device : windowsReservedNames (sliceUnits 120 segment) = false) (fallback : String) :
    sanitizeSegment (some (String.ofList segment)) fallback = sliceUnits 120 segment := by
  have kept : sliceUnits 120 segment ≠ [] := by
    obtain ⟨c, rest, rfl⟩ := List.exists_cons_of_ne_nil filled
    simp only [sliceUnits]
    split
    · exact List.cons_ne_nil _ _
    · exact List.cons_ne_nil _ _
  rw [sanitizeSegment_eq, body_of_tidy tidy ends, if_neg kept, device, if_neg Bool.false_ne_true]

theorem good_of_tidy (tidy : Tidy segment) (ends : Ends segment) (filled : segment ≠ []) (fits : units segment ≤ 120)
    (device : windowsReservedNames segment = false) : Good segment := by
  have whole : sliceUnits 120 segment = segment := by
    rcases sliceUnits_cases 120 segment with ⟨-, whole⟩ | ⟨front, c, rest, rfl, count, -⟩ | ⟨front, c, rest, rfl, count, large, -⟩
    · exact whole
    · rw [units_append, units_cons] at fits
      split at fits <;> omega
    · rw [units_append, units_cons, if_neg large] at fits
      omega
  refine ⟨filled, tidy.clean, ends, device, fun fallback => ?_⟩
  rw [sanitizeSegment_tidy tidy ends filled (by rw [whole]; exact device), whole]

/-- Where the cut of a text and the device names leave it a name. -/
structure NameOk (text : Name) : Prop where
  cut : ∀ front c rest, text = front ++ c :: rest → units front = 119 → blank c = false
  device : ∀ stem rest, text = stem ++ '.' :: rest → windowsReservedNames stem = false

/-- The start of a text that is kept: its first character, no blank but single spaces, no forbidden character. -/
theorem tidy_slice (tidy : Tidy text) : Tidy (sliceUnits 120 text) ∧
    ∀ c rest, text = c :: rest → ∃ later, (sliceUnits 120 text = c :: later) := by
  have replacement : Tidy ['\ufffd'] := by
    refine ⟨fun c member => ?_, fun same => absurd same (by decide), trivial⟩
    rw [List.mem_singleton.mp member]
    decide
  rcases sliceUnits_cases 120 text with ⟨-, whole⟩ | ⟨front, d, back, rfl, count, made⟩ | ⟨front, d, back, rfl, count, large, made⟩
  · rw [whole]
    exact ⟨tidy, fun c rest same => ⟨rest, same⟩⟩
  · rw [made]
    refine ⟨tidy.part (List.prefix_append _ _).isInfix, fun c rest same => ?_⟩
    cases front with
    | nil => cases count
    | cons x front => exact ⟨front, by rw [(List.cons.inj same).1]⟩
  · rw [made]
    have first := tidy.part (List.prefix_append front (d :: back)).isInfix
    refine ⟨⟨fun c member => ?_, ?_⟩, fun c rest same => ?_⟩
    · exact (List.mem_append.mp member).elim (first.clean c) (replacement.clean c)
    · refine first.single.append replacement.single fun front c d rest _ same => .inr ?_
      rw [← (List.cons.inj same).1]
      decide
    · cases front with
      | nil => cases count
      | cons x front => exact ⟨front ++ ['\ufffd'], by rw [(List.cons.inj same).1]; rfl⟩

theorem Tidy.append {left right : Name} (first : Tidy left) (second : Tidy right)
    (apart : ∀ front c d rest, left = front ++ [c] → right = d :: rest → isSpace c = false ∨ isSpace d = false) :
    Tidy (left ++ right) :=
  ⟨fun c member => (List.mem_append.mp member).elim (first.clean c) (second.clean c), first.single.append second.single apart⟩

theorem tidy_word (word : ∀ c ∈ text, isForbidden c = false ∧ blank c = false) : Tidy text := by
  refine ⟨fun c member => (word c member).1, ?_⟩
  induction text with
  | nil => trivial
  | cons c rest ih =>
    refine ⟨fun space => ?_, ih fun d member => word d (List.mem_cons_of_mem _ member)⟩
    have solid := (word c List.mem_cons_self).2
    rw [blank, space, Bool.or_true] at solid
    cases solid

theorem small_of_blank {c : Char} (void : blank c = true) : c.val < 0x10000 := by
  by_contra large
  have high : ∀ d : Char, d.val < 0x10000 → c ≠ d := by
    rintro d small rfl
    exact large small
  have upper : ∀ d : Char, d.val < 0x10000 → ¬ c ≤ d := fun d small below =>
    large (UInt32.lt_iff_toNat_lt.mpr (Nat.lt_of_le_of_lt (UInt32.le_iff_toNat_le.mp below) (UInt32.lt_iff_toNat_lt.mp small)))
  simp only [blank, isSpace, Bool.or_eq_true, Bool.and_eq_true, decide_eq_true_eq] at void
  rcases void with same | ((((((((((same | below) | same) | same) | below) | same) | same) | same) | same) | same) | same)
  all_goals first
    | exact high _ (by decide) same
    | exact upper _ (by decide) below.2

/-- The end of a cut text is solid exactly if its 120th unit is. -/
theorem cut_iff (ends : Ends text) : (∀ front c rest, text = front ++ c :: rest → units front = 119 → blank c = false) ↔
    ∀ front c, sliceUnits 120 text = front ++ [c] → blank c = false := by
  rcases sliceUnits_cases 120 text with ⟨fits, whole⟩ | ⟨start, d, back, rfl, count, made⟩ | ⟨start, d, back, rfl, count, large, made⟩
  · rw [whole]
    refine ⟨fun _ => ends.last, fun _ front c rest same full => ?_⟩
    rw [same, units_append, units_cons] at fits
    cases rest with
    | nil => exact ends.last front c same
    | cons x rest =>
      rw [units_cons] at fits
      split at fits <;> split at fits <;> omega
  · rw [made]
    constructor
    · rintro cut front c rfl
      by_cases void : blank c = true
      · rw [units_append, units_cons, if_pos (small_of_blank void), units_nil] at count
        exact cut front c (d :: back) (by simp) (by omega)
      · exact Bool.not_eq_true _ ▸ void
    · intro last front c rest same full
      by_cases void : blank c = true
      · have split : start ++ d :: back = (front ++ [c]) ++ rest := by rw [same]; simp
        have own := front_of_units split (by rw [units_append, units_cons, if_pos (small_of_blank void), units_nil, count, full])
        exact last front c own
      · exact Bool.not_eq_true _ ▸ void
  · rw [made]
    constructor
    · intro _ front c same
      rw [← List.singleton_inj.mp (List.append_inj' same rfl).2]
      decide
    · intro _ front c rest same full
      obtain rfl := front_of_units same (by omega)
      obtain ⟨rfl, -⟩ := List.cons.inj (List.append_cancel_left same)
      by_cases void : blank d = true
      · exact (large (small_of_blank void)).elim
      · exact Bool.not_eq_true _ ▸ void

theorem units_le (text : Name) : units text ≤ 2 * text.length := by
  induction text with
  | nil => exact Nat.le_refl 0
  | cons c text ih =>
    rw [units_cons, List.length_cons]
    split <;> omega

/-- The cut keeps what is at the start. -/
theorem slice_of_front {front rest : Name} (split : text = front ++ rest) (short : units front < 119) :
    ∃ later, sliceUnits 120 text = front ++ later := by
  rcases sliceUnits_cases 120 text with ⟨-, whole⟩ | ⟨start, d, back, same, count, made⟩ | ⟨start, d, back, same, count, -, made⟩
  · exact ⟨rest, by rw [whole, split]⟩
  · rcases List.append_eq_append_iff.mp (split.symm.trans same) with ⟨middle, rfl, -⟩ | ⟨middle, rfl, -⟩
    · exact ⟨middle, made⟩
    · rw [units_append] at short
      omega
  · rcases List.append_eq_append_iff.mp (split.symm.trans same) with ⟨middle, rfl, -⟩ | ⟨middle, rfl, -⟩
    · exact ⟨middle ++ ['\ufffd'], by rw [made, List.append_assoc]⟩
    · rw [units_append] at short
      omega

theorem takeWhile_dotless (dotless : '.' ∉ text) : text.takeWhile (· ≠ '.') = text := by
  rw [List.takeWhile_eq_self_iff]
  exact fun c member => decide_eq_true fun same => dotless (same ▸ member)

theorem reserved_slice {stem rest : Name} (split : text = stem ++ '.' :: rest) (reserved : windowsReservedNames stem = true) :
    windowsReservedNames (sliceUnits 120 text) = true := by
  obtain ⟨word, back, own, dotless⟩ := List.eq_append_cons_of_mem (show '.' ∈ text by rw [split]; simp)
  have device : windowsReservedNames word = true := by
    rw [← reserved_extension word back, ← own, split, reserved_extension, reserved]
  have short := (reserved_shape device).1
  rw [takeWhile_dotless dotless] at short
  have bound := units_le word
  have front : units (word ++ ['.']) < 119 := by
    rw [units_append, show units ['.'] = 1 from rfl]
    omega
  obtain ⟨later, made⟩ := slice_of_front (show text = (word ++ ['.']) ++ back by rw [own]; simp) front
  rw [made, List.append_assoc, List.singleton_append, reserved_extension, device]

theorem dot_of_slice {stem extension : Name} (made : sliceUnits 120 text = stem ++ '.' :: extension) :
    ∃ rest, text = stem ++ '.' :: rest := by
  rcases sliceUnits_cases 120 text with ⟨-, whole⟩ | ⟨start, d, back, same, -, cut⟩ | ⟨start, d, back, same, -, -, cut⟩
  · exact ⟨extension, whole.symm.trans made⟩
  · exact ⟨extension ++ d :: back, by rw [same, ← cut, made]; simp⟩
  · rw [cut] at made
    rcases List.eq_nil_or_concat extension with rfl | ⟨front, last, rfl⟩
    · exact absurd (List.append_inj' made rfl).2 (by decide)
    · have whole : start ++ ['\ufffd'] = (stem ++ '.' :: front) ++ [last] := by rw [made]; simp
      have own := (List.append_inj' whole rfl).1
      exact ⟨front ++ d :: back, by rw [same, own]; simp⟩

/-- A name is good exactly if what it is cut from leaves it so. -/
theorem good_sanitize_iff (value : Option String) (fallback : String) (good : Good fallback.toList) :
    Good (sanitizeSegment value fallback) ↔ NameOk (body value fallback) := by
  have tidy := tidy_body value fallback
  have ends := ends_body value fallback
  rw [sanitizeSegment_eq]
  set text := body value fallback
  obtain ⟨kept, first⟩ := tidy_slice tidy
  by_cases empty : text = []
  · rw [empty]
    exact iff_of_true good ⟨fun front c rest same => by simp at same, fun stem rest same => by simp at same⟩
  · obtain ⟨c, rest, start⟩ := List.exists_cons_of_ne_nil empty
    obtain ⟨later, cut⟩ := first c rest start
    have filled : sliceUnits 120 text ≠ [] := by rw [cut]; exact List.cons_ne_nil _ _
    rw [if_neg filled]
    by_cases reserved : windowsReservedNames (sliceUnits 120 text) = true
    · rw [if_pos reserved]
      by_cases dotted : '.' ∈ sliceUnits 120 text
      · obtain ⟨stem, extension, made, -⟩ := List.eq_append_cons_of_mem dotted
        have device : windowsReservedNames stem = true := by rw [← reserved_extension stem extension, ← made, reserved]
        refine iff_of_false (fun named => ?_) fun ok => ?_
        · have plain := named.device
          rw [made, List.append_assoc, List.cons_append, reserved_extension, device] at plain
          cases plain
        · obtain ⟨rest, split⟩ := dot_of_slice made
          have plain := ok.device stem rest split
          rw [device] at plain
          cases plain
      · have short := (reserved_shape reserved).1
        rw [takeWhile_dotless dotted] at short
        have bound := units_le (sliceUnits 120 text)
        have whole : sliceUnits 120 text = text := by
          rcases sliceUnits_cases 120 text with ⟨-, whole⟩ | ⟨front, d, back, -, count, made⟩ | ⟨front, d, back, -, count, -, made⟩
          · exact whole
          · rw [made] at bound short
            omega
          · rw [made, units_append] at bound
            rw [made] at short
            omega
        rw [whole] at reserved dotted short bound ⊢
        refine iff_of_true ?_ ⟨fun front d rest same full => ?_, fun stem rest same => (dotted (same ▸ by simp)).elim⟩
        · refine good_of_tidy (tidy.append (tidy_word (forall_of_all (by decide))) fun front x d rest same next => .inr ?_) ⟨?_, ?_⟩ (by simp) ?_ ?_
          · rw [← (List.cons.inj next).1]
            decide
          · intro x others same
            rw [start] at same
            exact (List.cons.inj same).1 ▸ ends.first c rest start
          · intro front x same
            rw [← List.singleton_inj.mp (List.append_inj' same rfl).2]
            decide
          · rw [units_append, show units ['_'] = 1 from rfl]
            omega
          · by_contra still
            have dotless : '.' ∉ text ++ ['_'] := by simp [dotted]
            obtain ⟨-, d, others, same, -, last⟩ := reserved_shape (Bool.not_eq_false _ ▸ still)
            rw [takeWhile_dotless dotless] at last
            exact last '_' (by simp) rfl
        · rw [same, units_append] at bound
          have := congrArg List.length same
          omega
    · rw [if_neg reserved]
      constructor
      · intro named
        refine ⟨(cut_iff ends).mpr named.ends.last, fun stem rest split => ?_⟩
        by_contra device
        exact reserved (reserved_slice split (Bool.not_eq_false _ ▸ device))
      · intro ok
        refine good_of_tidy kept ⟨?_, (cut_iff ends).mp ok.cut⟩ filled (units_sliceUnits 120 text) (Bool.not_eq_true _ ▸ reserved)
        intro x others same
        rw [cut] at same
        exact (List.cons.inj same).1 ▸ ends.first c rest start

end Names

section Folders

variable {value : Option String} {fallback : String} {date segment : Name} {c : Char}

theorem digit_facts (digit : c.isDigit = true) : isForbidden c = false ∧ blank c = false ∧ c.val < 0x10000 ∧
    c.toLower ∉ ['c', 'p', 'a', 'n', 'l'] := by
  obtain ⟨low, high⟩ := isDigit_iff.mp digit
  have table : ∀ n < 58, 48 ≤ n → isForbidden (Char.ofNat n) = false ∧ blank (Char.ofNat n) = false ∧
      (Char.ofNat n).val < 0x10000 ∧ (Char.ofNat n).toLower ∉ ['c', 'p', 'a', 'n', 'l'] := by decide
  have facts := table c.toNat (by omega) low
  rw [Char.ofNat_toNat] at facts
  exact facts

theorem reserved_digit {rest : Name} (digit : c.isDigit = true) : windowsReservedNames (c :: rest) = false := by
  by_contra reserved
  obtain ⟨-, d, others, same, letter, -⟩ := reserved_shape (Bool.not_eq_false _ ▸ reserved)
  exact (digit_facts digit).2.2.2 ((List.cons.inj same).1 ▸ letter)

/-- Digits with dashes between them. -/
structure DateText (date : Name) : Prop where
  chars : ∀ c ∈ date, c.isDigit = true ∨ c = '-'
  first : ∃ c rest, date = c :: rest ∧ c.isDigit = true

theorem DateText.word (dated : DateText date) : ∀ c ∈ date, isForbidden c = false ∧ blank c = false ∧ c.val < 0x10000 := by
  intro c member
  rcases dated.chars c member with digit | rfl
  · exact ⟨(digit_facts digit).1, (digit_facts digit).2.1, (digit_facts digit).2.2.1⟩
  · decide

theorem dateParts_text {source : ProbeResponse} {year : Name} (found : dateParts source = some (year, date)) :
    DateText year ∧ DateText date ∧ year.length = 4 := by
  simp only [dateParts] at found
  split at found
  · cases found
  · split at found
    all_goals first
      | cases found
      | split at found
        · rename_i digits
          cases found
          simp only [List.all_cons, List.all_nil, Bool.and_true, Bool.and_eq_true] at digits
          refine ⟨⟨?_, _, _, rfl, digits.1⟩, ⟨?_, _, _, rfl, digits.1⟩, rfl⟩ <;>
            · simp only [List.mem_cons, List.not_mem_nil, or_false]
              rintro c member
              grind
        · cases found

theorem good_year {year : Name} (dated : DateText year) (short : year.length = 4) : Good year := by
  obtain ⟨c, rest, rfl, digit⟩ := dated.first
  have word := dated.word
  refine good_of_tidy (tidy_word fun c member => ⟨(word c member).1, (word c member).2.1⟩) ⟨?_, ?_⟩ (List.cons_ne_nil _ _) ?_
    (reserved_digit digit)
  · intro d others same
    exact (word d (same ▸ List.mem_cons_self)).2.1
  · intro front d same
    exact (word d (same ▸ by simp)).2.1
  · rw [units_of_small fun c member => (word c member).2.2, short]
    decide

/-- What a name is cut from, or the fallback. -/
def full (value : Option String) (fallback : String) : Name :=
  if body value fallback = [] then fallback.toList else body value fallback

/-- A fallback is a name of its own. -/
structure Fallback (fallback : String) : Prop where
  tidy : Tidy fallback.toList
  good : Good fallback.toList
  fits : units fallback.toList ≤ 120

theorem fallback_of_body (own : body (some fallback) "" = fallback.toList) (filled : fallback.toList ≠ [])
    (fits : units fallback.toList ≤ 120) (device : windowsReservedNames fallback.toList = false) : Fallback fallback := by
  have tidy := tidy_body (some fallback) ""
  have ends := ends_body (some fallback) ""
  rw [own] at tidy ends
  exact ⟨tidy, good_of_tidy tidy ends filled fits device, fits⟩

theorem fallback_title : Fallback "Unknown Title" := fallback_of_body (by decide) (by decide) (by decide) (by decide)

theorem fallback_channel : Fallback "Unknown Channel" := fallback_of_body (by decide) (by decide) (by decide) (by decide)

/-- A cleaned name is what it is cut from, or it is as long as a name may be. -/
theorem sanitize_cases (value : Option String) (spare : Fallback fallback) :
    (units (full value fallback) ≤ 120 ∧ sanitizeSegment value fallback =
      full value fallback ++ (if windowsReservedNames (full value fallback) then ['_'] else [])) ∨
    (120 < units (full value fallback) ∧ 119 ≤ units (sanitizeSegment value fallback)) := by
  rw [sanitizeSegment_eq, full]
  obtain ⟨-, first⟩ := tidy_slice (tidy_body value fallback)
  by_cases empty : body value fallback = []
  · left
    rw [empty, if_pos rfl, spare.good.device]
    exact ⟨spare.fits, (List.append_nil _).symm⟩
  · obtain ⟨c, rest, start⟩ := List.exists_cons_of_ne_nil empty
    obtain ⟨later, cut⟩ := first c rest start
    rw [if_neg empty, if_neg (by rw [cut]; exact List.cons_ne_nil _ _)]
    have long : units (sliceUnits 120 (body value fallback)) ≤ units (if windowsReservedNames (sliceUnits 120 (body value fallback)) then
        sliceUnits 120 (body value fallback) ++ ['_'] else sliceUnits 120 (body value fallback)) := by
      split
      · rw [units_append]
        exact Nat.le_add_right _ _
      · exact Nat.le_refl _
    rcases sliceUnits_cases 120 (body value fallback) with ⟨fits, whole⟩ | ⟨front, d, back, same, count, made⟩ |
      ⟨front, d, back, same, count, large, made⟩
    · left
      rw [whole]
      refine ⟨fits, ?_⟩
      split
      · rfl
      · exact (List.append_nil _).symm
    · right
      rw [made] at long ⊢
      refine ⟨?_, by omega⟩
      rw [same, units_append, units_cons]
      split <;> omega
    · right
      rw [made] at long ⊢
      rw [units_append] at long
      refine ⟨?_, by omega⟩
      rw [same, units_append, units_cons, if_neg large]
      omega

/-- Whatever a name is cut from, it starts with no dot and holds no slash. -/
theorem sanitize_start (value : Option String) (spare : Fallback fallback) :
    Tidy (sanitizeSegment value fallback) ∧
      ∃ c rest, sanitizeSegment value fallback = c :: rest ∧ blank c = false := by
  rw [sanitizeSegment_eq]
  obtain ⟨kept, first⟩ := tidy_slice (tidy_body value fallback)
  by_cases empty : body value fallback = []
  · rw [empty, if_pos (show sliceUnits 120 [] = [] from rfl)]
    obtain ⟨c, rest, start⟩ := List.exists_cons_of_ne_nil spare.good.filled
    exact ⟨spare.tidy, c, rest, start, spare.good.ends.first c rest start⟩
  · obtain ⟨c, rest, start⟩ := List.exists_cons_of_ne_nil empty
    obtain ⟨later, cut⟩ := first c rest start
    have solid := (ends_body value fallback).first c rest start
    rw [if_neg (by rw [cut]; exact List.cons_ne_nil _ _)]
    split
    · refine ⟨kept.append (tidy_word (forall_of_all (by decide))) fun front x d rest same next => .inr ?_, c, later ++ ['_'], by rw [cut]; rfl, solid⟩
      rw [← (List.cons.inj next).1]
      decide
    · exact ⟨kept, c, later, cut, solid⟩

/-- A short name ends as what it is cut from does. -/
theorem sanitize_last (spare : Fallback fallback) (short : units (sanitizeSegment value fallback) < 119) :
    ∀ front c, sanitizeSegment value fallback = front ++ [c] → blank c = false := by
  intro front c last
  rcases sanitize_cases value spare with ⟨-, same⟩ | ⟨-, long⟩
  · rw [last] at same
    split at same
    · rw [List.singleton_inj.mp (List.append_inj' same rfl).2]
      decide
    · rw [List.append_nil, full] at same
      split at same
      · exact spare.good.ends.last front c same.symm
      · exact (ends_body value fallback).last front c same.symm
  · omega

theorem sanitize_fits_iff (spare : Fallback fallback) {n : Nat} (more : 2 ≤ n) :
    n + units (sanitizeSegment value fallback) ≤ 120 ↔
      n + units (full value fallback) + (if windowsReservedNames (full value fallback) then 1 else 0) ≤ 120 := by
  rcases sanitize_cases value spare with ⟨-, same⟩ | ⟨long, other⟩
  · rw [same, units_append, ← Nat.add_assoc]
    split <;> rfl
  · omega

/-- A tidy name that starts with a digit is good exactly if it fits and does not end in a blank. -/
theorem good_digit_iff {leaf rest : Name} (tidy : Tidy leaf) (start : leaf = c :: rest) (digit : c.isDigit = true) :
    Good leaf ↔ units leaf ≤ 120 ∧ ∀ front d, leaf = front ++ [d] → blank d = false := by
  have filled : leaf ≠ [] := by rw [start]; exact List.cons_ne_nil _ _
  constructor
  · intro named
    refine ⟨?_, named.ends.last⟩
    obtain ⟨later, cut⟩ := (tidy_slice tidy).2 c rest start
    have fixed := named.fixed ""
    rw [sanitizeSegment_tidy tidy named.ends filled (by rw [cut]; exact reserved_digit digit)] at fixed
    exact fixed ▸ units_sliceUnits 120 leaf
  · rintro ⟨fits, last⟩
    refine good_of_tidy tidy ⟨fun d others same => ?_, last⟩ filled fits (by rw [start]; exact reserved_digit digit)
    rw [start] at same
    exact (List.cons.inj same).1 ▸ (digit_facts digit).2.1

theorem tidy_dated {tail : Name} (dated : DateText date) (tidy : Tidy tail) (start : ∃ c rest, tail = c :: rest ∧ blank c = false) :
    Tidy (date ++ [' ', '-', ' '] ++ tail) := by
  obtain ⟨c, rest, same, solid⟩ := start
  have dash : Tidy [' ', '-', ' '] :=
    ⟨forall_of_all (by decide), fun _ => ⟨rfl, rfl⟩, fun same => absurd same (by decide), fun _ => ⟨rfl, rfl⟩, trivial⟩
  refine ((tidy_word fun c member => ⟨(dated.word c member).1, (dated.word c member).2.1⟩).append dash ?_).append tidy ?_
  · intro front x y more last _
    have void := (dated.word x (last ▸ by simp)).2.1
    rw [blank, Bool.or_eq_false_iff] at void
    exact .inl void.2
  · intro front x y more _ next
    rw [same] at next
    rw [blank, Bool.or_eq_false_iff] at solid
    exact .inr ((List.cons.inj next).1 ▸ solid.2)

/-- A name with a date before it is good exactly if the two fit. -/
theorem good_dated_iff (value : Option String) (spare : Fallback fallback) (dated : DateText date) :
    Good (date ++ [' ', '-', ' '] ++ sanitizeSegment value fallback) ↔
      date.length + 3 + units (full value fallback) + (if windowsReservedNames (full value fallback) then 1 else 0) ≤ 120 := by
  obtain ⟨tidy, start⟩ := sanitize_start value spare
  obtain ⟨d, others, first, digit⟩ := dated.first
  have count : units (date ++ [' ', '-', ' '] ++ sanitizeSegment value fallback) =
      date.length + 3 + units (sanitizeSegment value fallback) := by
    rw [units_append, units_append, units_of_small fun c member => (dated.word c member).2.2]
    rfl
  rw [good_digit_iff (tidy_dated dated tidy start) (by rw [first]; rfl) digit, count,
    ← sanitize_fits_iff spare (show 2 ≤ date.length + 3 by omega)]
  refine and_iff_left_of_imp fun fits front c last => ?_
  have own := sanitize_last spare (show units (sanitizeSegment value fallback) < 119 by omega)
  rcases List.eq_nil_or_concat (sanitizeSegment value fallback) with empty | ⟨before, x, same⟩
  · obtain ⟨y, rest, filled, -⟩ := start
    rw [empty] at filled
    cases filled
  · rw [same, List.concat_eq_append, ← List.append_assoc] at last
    rw [← List.singleton_inj.mp (List.append_inj' last rfl).2]
    exact own before x (by rw [same, List.concat_eq_append])

/-- What is asked of the titles and dates of a source. -/
def NamesOk (source : ProbeResponse) (request : CreateJobRequest) : Prop :=
  if request.includeChannel then NameOk (body (firstTruthy [source.channel, source.uploader]) "Unknown Channel")
  else match dateParts source with
    | none => NameOk (body source.title "Unknown Title")
    | some (_, date) =>
      if request.includeDate then date.length + 3 + units (full source.title "Unknown Title") +
        (if windowsReservedNames (full source.title "Unknown Title") then 1 else 0) ≤ 120
      else NameOk (body source.title "Unknown Title")

theorem folders_good_iff (source : ProbeResponse) (request : CreateJobRequest) :
    (∀ segment ∈ folderNameFor source request, Good segment) ↔ NamesOk source request := by
  have title := good_sanitize_iff source.title "Unknown Title" fallback_title.good
  have channel := good_sanitize_iff (firstTruthy [source.channel, source.uploader]) "Unknown Channel" fallback_channel.good
  unfold folderNameFor NamesOk
  dsimp only
  by_cases by_channel : request.includeChannel = true
  · rw [if_pos by_channel, if_pos by_channel]
    simp [channel]
  · rw [if_neg by_channel, if_neg by_channel]
    cases found : dateParts source with
    | none => simp [title]
    | some parts =>
      obtain ⟨year, date⟩ := parts
      obtain ⟨year_text, date_text, four⟩ := dateParts_text found
      by_cases by_date : request.includeDate = true
      · have dated := good_dated_iff (some source.title) fallback_title date_text
        have named := good_year year_text four
        simp only [by_date, if_true]
        rw [List.forall_mem_cons, List.forall_mem_singleton, and_iff_right named]
        exact dated
      · simp [by_date, title]

end Folders

section Templates

variable {keepStray : Bool} {root tempDir : Path} {names : List Name}

/-- A name that a path may end in. -/
structure Usable (name : Name) : Prop where
  start : ∃ c rest, name = c :: rest ∧ c ≠ '.'
  single : '/' ∉ name

theorem join_usable {name : Name} (usable : Usable name) (path : Path) : join path name = path ++ [name] := by
  obtain ⟨c, rest, rfl, other⟩ := usable.start
  rw [join, splitAll_of_not_mem usable.single]
  simp [other]

theorem joins_usable (usable : ∀ name ∈ names, Usable name) (path : Path) : names.foldl join path = path ++ names := by
  induction names generalizing path with
  | nil => simp
  | cons name names ih =>
    obtain ⟨first, others⟩ := List.forall_mem_cons.mp usable
    rw [List.foldl_cons, join_usable first, ih others, List.append_assoc, List.singleton_append]

theorem usable_of_tidy {name : Name} (tidy : Tidy name) (start : ∃ c rest, name = c :: rest ∧ blank c = false) : Usable name := by
  obtain ⟨c, rest, same, solid⟩ := start
  refine ⟨⟨c, rest, same, ?_⟩, fun slash => ?_⟩
  · rintro rfl
    cases solid
  · exact absurd (tidy.clean '/' slash) (by decide)

theorem usable_folders (source : ProbeResponse) (request : CreateJobRequest) :
    ∀ name ∈ folderNameFor source request, Usable name := by
  have title := sanitize_start source.title fallback_title
  have channel := sanitize_start (firstTruthy [source.channel, source.uploader]) fallback_channel
  unfold folderNameFor
  dsimp only
  by_cases by_channel : request.includeChannel = true
  · rw [if_pos by_channel, List.forall_mem_singleton]
    exact usable_of_tidy channel.1 channel.2
  · rw [if_neg by_channel]
    cases found : dateParts source with
    | none => exact List.forall_mem_singleton.mpr (usable_of_tidy title.1 title.2)
    | some parts =>
      obtain ⟨year, date⟩ := parts
      obtain ⟨year_text, date_text, four⟩ := dateParts_text found
      have starts : ∀ {text : Name}, DateText text → ∀ tail : Name, ∃ c rest, text ++ tail = c :: rest ∧ blank c = false := by
        intro text dated tail
        obtain ⟨c, rest, rfl, digit⟩ := dated.first
        exact ⟨c, rest ++ tail, rfl, (digit_facts digit).2.1⟩
      by_cases by_date : request.includeDate = true
      · simp only [by_date, if_true]
        refine List.forall_mem_cons.mpr ⟨?_, List.forall_mem_singleton.mpr ?_⟩
        · have word := year_text.word
          refine usable_of_tidy (tidy_word fun c member => ⟨(word c member).1, (word c member).2.1⟩) ?_
          simpa using starts year_text []
        · have dash : " - ".toList = [' ', '-', ' '] := by decide
          rw [dash]
          refine usable_of_tidy (tidy_dated date_text title.1 title.2) ?_
          rw [List.append_assoc]
          exact starts date_text _
      · simp only [by_date, Bool.false_eq_true, if_false]
        exact List.forall_mem_singleton.mpr (usable_of_tidy title.1 title.2)

theorem folders_filled (source : ProbeResponse) (request : CreateJobRequest) : folderNameFor source request ≠ [] := by
  unfold folderNameFor
  dsimp only
  split
  · exact List.cons_ne_nil _ _
  · split
    · split <;> exact List.cons_ne_nil _ _
    · exact List.cons_ne_nil _ _

/-- Every candidate for the output folder is below the root. -/
theorem candidate_inside (usable : ∀ name ∈ names, Usable name) (filled : names ≠ []) (root : Path) (index : Nat) :
    root <+: candidateFolder (names.foldl join root) index ∧ candidateFolder (names.foldl join root) index ≠ root := by
  have long := List.length_pos_iff.mpr filled
  rw [joins_usable usable, candidateFolder]
  split
  · exact ⟨List.prefix_append _ _, by simpa using filled⟩
  · rw [List.dropLast_append_of_ne_nil filled, List.append_assoc]
    exact ⟨List.prefix_append _ _, by simp⟩

/-- A path as it is written. -/
def pathText (path : Path) : Name := path.flatMap ('/' :: ·)

/-- The template of the downloaded file. -/
def baseTemplate (tempDir : Path) (source : ProbeResponse) : Name :=
  pathText (join tempDir (sanitizeSegment source.title "Unknown Title" ++ ".%(ext)s".toList))

/-- `keepStray` is how the downloader reads a percent sign that starts neither an escape nor a field. -/
structure SafeJob (keepStray : Bool) (tempDir safeRoot : Path) (source : ProbeResponse) (request : CreateJobRequest) : Prop where
  segments : ∀ segment ∈ folderNameFor source request, Good segment
  inside : ∀ index, safeRoot <+: candidateFolder ((folderNameFor source request).foldl join safeRoot) index ∧
    candidateFolder ((folderNameFor source request).foldl join safeRoot) index ≠ safeRoot
  template : ∀ fields, expand keepStray fields (baseTemplate tempDir source) =
    some (pathText (tempDir ++ [sanitizeSegment source.title "Unknown Title" ++ '.' :: fields "ext".toList]))

theorem literal_title (source : ProbeResponse) : Literal keepStray (sanitizeSegment source.title "Unknown Title") ↔
    Literal keepStray (sliceUnits 120 (body source.title "Unknown Title")) := by
  have plain : Literal keepStray "Unknown Title".toList :=
    ⟨fun front c rest same => absurd (show '%' ∈ "Unknown Title".toList by rw [same]; simp) (by decide), .inr (by decide)⟩
  rw [sanitizeSegment_eq]
  split
  · rename_i empty
    rw [empty]
    exact iff_of_true plain literal_nil
  · split
    · rw [literal_append (by decide) (by decide)]
      exact and_iff_left literal_nil
    · exact Iff.rfl

theorem template_iff (source : ProbeResponse) :
    (∀ fields, expand keepStray fields (baseTemplate tempDir source) =
      some (pathText (tempDir ++ [sanitizeSegment source.title "Unknown Title" ++ '.' :: fields "ext".toList]))) ↔
    Literal keepStray (pathText tempDir) ∧ Literal keepStray (sliceUnits 120 (body source.title "Unknown Title")) := by
  obtain ⟨tidy, c, rest, start, solid⟩ := sanitize_start source.title fallback_title
  have extension : ".%(ext)s".toList = '.' :: '%' :: '(' :: ("ext".toList ++ [')', 's']) := by decide
  have usable : Usable (sanitizeSegment source.title "Unknown Title" ++ ".%(ext)s".toList) := by
    refine ⟨⟨c, rest ++ ".%(ext)s".toList, by rw [start]; rfl, ?_⟩, fun slash => ?_⟩
    · rintro rfl
      cases solid
    · rcases List.mem_append.mp slash with inside | inside
      · exact absurd (tidy.clean '/' inside) (by decide)
      · exact absurd inside (by decide)
  have written : baseTemplate tempDir source = (pathText tempDir ++ '/' :: sanitizeSegment source.title "Unknown Title") ++
      '.' :: '%' :: '(' :: ("ext".toList ++ [')', 's']) := by
    unfold baseTemplate
    rw [join_usable usable, extension, pathText, List.flatMap_append, List.flatMap_singleton, ← List.cons_append,
      ← List.append_assoc]
    rfl
  have target : ∀ fields : Name → Name, pathText (tempDir ++ [sanitizeSegment source.title "Unknown Title" ++ '.' :: fields "ext".toList]) =
      (pathText tempDir ++ '/' :: sanitizeSegment source.title "Unknown Title") ++ '.' :: fields "ext".toList := by
    intro fields
    rw [pathText, List.flatMap_append, List.flatMap_singleton, ← List.cons_append, ← List.append_assoc]
    rfl
  have closed : ')' ∉ "ext".toList := by decide
  rw [← literal_title, ← literal_append (c := '/') (by decide) (by decide), ← expand_iff closed]
  refine forall_congr' fun fields => ?_
  rw [written, target]

/-- Titles are safe exactly if their names are, and no percent sign among their first units is read. -/
theorem safeJob_iff (keepStray : Bool) (tempDir safeRoot : Path) (source : ProbeResponse) (request : CreateJobRequest) :
    SafeJob keepStray tempDir safeRoot source request ↔ NamesOk source request ∧
      Literal keepStray (pathText tempDir) ∧ Literal keepStray (sliceUnits 120 (body source.title "Unknown Title")) := by
  rw [← folders_good_iff, ← template_iff]
  constructor
  · exact fun safe => ⟨safe.segments, safe.template⟩
  · rintro ⟨segments, template⟩
    exact ⟨segments, candidate_inside (usable_folders source request) (folders_filled source request) safeRoot, template⟩

/-- A device name with an extension, and a title with two percent signs. -/
theorem unsafe_titles : ¬ SafeJob true ["tmp".toList] ["media".toList] { title := "con.cert" } { url := "u" } ∧
    ¬ SafeJob true ["tmp".toList] ["media".toList] { title := "100%% live" } { url := "u" } := by
  constructor
  · intro safe
    have named : folderNameFor { title := "con.cert" } { url := "u" } = ["con.cert_".toList] := by decide
    have good := safe.segments "con.cert_".toList (by rw [named]; exact List.mem_singleton_self _)
    exact absurd good.device (by decide)
  · intro safe
    have literal := (template_iff _).mp safe.template
    have cut : sliceUnits 120 (body (some "100%% live") "Unknown Title") = "100".toList ++ '%' :: '%' :: " live".toList := by decide
    exact (literal.2.1 _ _ _ cut).1 rfl

end Templates

end NixHomeServer.Downloader
