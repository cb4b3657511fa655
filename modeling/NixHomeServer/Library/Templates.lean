import NixHomeServer.Library.Text

/-! Templates with percent signs: two of them stand for one, and `%(name)s` for a field. -/
namespace NixHomeServer.Library

section Templates

/-- `keepStray` says whether a percent sign that starts neither is kept or refused. -/
def expand (keepStray : Bool) (fields : List Char → List Char) (text : List Char) : Option (List Char) :=
  match text with
  | [] => some []
  | '%' :: '%' :: rest => (expand keepStray fields rest).map ('%' :: ·)
  | '%' :: '(' :: rest =>
    match _cut : cutAt ')' rest with
    | some (name, 's' :: after) => (expand keepStray fields after).map (fields name ++ ·)
    | _ => none
  | c :: rest => if c = '%' ∧ keepStray = false then none else (expand keepStray fields rest).map (c :: ·)
termination_by text.length
decreasing_by
  · simp only [List.length_cons]
    omega
  · rw [(cutAt_eq_some _cut).1]
    simp only [List.length_append, List.length_cons]
    omega
  · simp only [List.length_cons]
    omega

/-- No percent sign of the text starts an escape or a field. -/
def Literal (keepStray : Bool) (text : List Char) : Prop :=
  (∀ front c rest, text = front ++ '%' :: c :: rest → c ≠ '%' ∧ c ≠ '(') ∧ (keepStray = true ∨ '%' ∉ text)

variable {keepStray : Bool} {fields : List Char → List Char} {text tail rest name out : List Char} {c : Char}

theorem expand_nil : expand keepStray fields [] = some [] := by
  rw [expand]

/-- What the first character of a template stands for. -/
theorem expand_cons : expand keepStray fields (c :: rest) =
    if c ≠ '%' then (expand keepStray fields rest).map (c :: ·)
    else match rest with
      | '%' :: rest => (expand keepStray fields rest).map ('%' :: ·)
      | '(' :: rest =>
        match cutAt ')' rest with
        | some (name, 's' :: after) => (expand keepStray fields after).map (fields name ++ ·)
        | _ => none
      | rest => if keepStray = false then none else (expand keepStray fields rest).map ('%' :: ·) := by
  by_cases percent : c = '%'
  · subst percent
    rw [if_neg (not_not_intro rfl)]
    split
    · rw [expand]
    · rw [expand]
      split <;> rename_i found <;> split <;> rename_i same
      · rw [found] at same
        cases same
        rfl
      · exact (same _ _ found).elim
      · exact (found _ _ same).elim
      · rfl
    · rename_i escape field
      rw [expand]
      · simp
      · exact fun after _ => escape after
      · exact fun after _ => field after
  · rw [if_pos percent, expand]
    · simp [percent]
    · exact fun _ same => absurd same percent
    · exact fun _ same => absurd same percent

theorem expand_escape : expand keepStray fields ('%' :: '%' :: rest) = (expand keepStray fields rest).map ('%' :: ·) := by
  rw [expand_cons, if_neg (not_not_intro rfl)]
  rfl

theorem expand_field (closed : ')' ∉ name) :
    expand keepStray fields ('%' :: '(' :: (name ++ ')' :: 's' :: rest)) = (expand keepStray fields rest).map (fields name ++ ·) := by
  rw [expand_cons, if_neg (not_not_intro rfl)]
  simp only [cutAt_append ')' ('s' :: rest) closed]

theorem expand_char (other : c ≠ '%') : expand keepStray fields (c :: rest) = (expand keepStray fields rest).map (c :: ·) := by
  rw [expand_cons, if_pos other]

theorem expand_stray (escape : ∀ after, rest ≠ '%' :: after) (field : ∀ after, rest ≠ '(' :: after) :
    expand keepStray fields ('%' :: rest) = if keepStray = false then none else (expand keepStray fields rest).map ('%' :: ·) := by
  rw [expand_cons, if_neg (not_not_intro rfl)]
  split
  · exact absurd rfl (escape _)
  · exact absurd rfl (field _)
  · rfl

theorem literal_nil : Literal keepStray [] :=
  ⟨fun front c rest same => by simp at same, .inr List.not_mem_nil⟩

theorem literal_cons : Literal keepStray (c :: text) ↔
    (c = '%' → keepStray = true ∧ ∀ d rest, text = d :: rest → d ≠ '%' ∧ d ≠ '(') ∧ Literal keepStray text := by
  constructor
  · rintro ⟨plain, stray⟩
    refine ⟨?_, fun front d rest same => plain (c :: front) d rest (by rw [same, List.cons_append]), ?_⟩
    · rintro rfl
      exact ⟨stray.elim id fun absent => (absent List.mem_cons_self).elim, fun d rest same => plain [] d rest (by rw [same]; rfl)⟩
    · exact stray.imp id fun absent member => absent (List.mem_cons_of_mem _ member)
  · rintro ⟨first, plain, stray⟩
    refine ⟨fun front d rest same => ?_, ?_⟩
    · cases front with
      | nil =>
        obtain ⟨percent, later⟩ := List.cons.inj same
        exact (first percent).2 d rest later
      | cons x front => exact plain front d rest (List.cons.inj same).2
    · by_cases percent : c = '%'
      · exact .inl (first percent).1
      · exact stray.imp id fun absent member => (List.mem_cons.mp member).elim (fun same => percent same.symm) absent

theorem literal_append (percent : c ≠ '%') (opening : c ≠ '(') :
    Literal keepStray (text ++ c :: rest) ↔ Literal keepStray text ∧ Literal keepStray rest := by
  induction text with
  | nil => simp [literal_cons, percent, literal_nil]
  | cons x text ih =>
    rw [List.cons_append, literal_cons, @literal_cons _ text, ih, and_assoc]
    refine and_congr_left fun later => ?_
    cases text with
    | nil => simp [percent, opening]
    | cons y text => simp

theorem expand_literal (literal : Literal keepStray text) :
    expand keepStray fields (text ++ '.' :: tail) = (expand keepStray fields ('.' :: tail)).map (text ++ ·) := by
  induction text with
  | nil => simp
  | cons c text ih =>
    obtain ⟨first, later⟩ := literal_cons.mp literal
    by_cases percent : c = '%'
    · subst percent
      obtain ⟨kept, plain⟩ := first rfl
      have escape : ∀ after, text ++ '.' :: tail ≠ '%' :: after := by
        intro after same
        cases text with
        | nil => cases same
        | cons d text => exact (plain d text rfl).1 (List.cons.inj same).1
      have field : ∀ after, text ++ '.' :: tail ≠ '(' :: after := by
        intro after same
        cases text with
        | nil => cases same
        | cons d text => exact (plain d text rfl).2 (List.cons.inj same).1
      rw [List.cons_append, expand_stray escape field, ih later, kept, Option.map_map]
      rfl
    · rw [List.cons_append, expand_char percent, ih later, Option.map_map]
      rfl

/-- With empty fields a template gets no longer, and keeps its length only where it is literal. -/
theorem expand_short (closed : ')' ∉ name)
    (read : expand keepStray (fun _ => []) (text ++ '.' :: '%' :: '(' :: (name ++ [')', 's'])) = some out) :
    out.length ≤ text.length + 1 ∧ (out.length = text.length + 1 → Literal keepStray text) := by
  induction size : text.length using Nat.strongRecOn generalizing text out with
  | _ n ih =>
    have last : expand keepStray (fun _ => []) ('.' :: '%' :: '(' :: (name ++ [')', 's'])) = some ['.'] := by
      rw [expand_char (by decide), expand_field closed, expand_nil]
      rfl
    match text with
    | [] =>
      rw [List.nil_append, last] at read
      cases read
      exact ⟨by simp, fun _ => literal_nil⟩
    | c :: text =>
      simp only [List.length_cons] at size
      by_cases percent : c = '%'
      · subst percent
        match text with
        | [] =>
          rw [List.cons_append, List.nil_append, expand_stray (by simp) (by simp), last] at read
          split at read
          · cases read
          · rename_i kept
            cases read
            simp only [List.length_nil, List.length_cons] at size ⊢
            exact ⟨by omega, fun _ => literal_cons.mpr ⟨fun _ => ⟨by simpa using kept, nofun⟩, literal_nil⟩⟩
        | d :: text =>
          simp only [List.length_cons] at size
          by_cases escape : d = '%'
          · subst escape
            rw [List.cons_append, List.cons_append, expand_escape] at read
            obtain ⟨o, later, rfl⟩ := Option.map_eq_some_iff.mp read
            have short := (ih text.length (by omega) later rfl).1
            simp only [List.length_cons]
            exact ⟨by omega, by omega⟩
          · by_cases field : d = '('
            · subst field
              rw [List.cons_append, List.cons_append] at read
              by_cases inside : ')' ∈ text
              · obtain ⟨front, back, rfl, unclosed⟩ := List.eq_append_cons_of_mem inside
                have cut := cutAt_append ')' (back ++ '.' :: '%' :: '(' :: (name ++ [')', 's'])) unclosed
                rw [List.append_assoc, List.cons_append, expand_cons, if_neg (not_not_intro rfl)] at read
                simp only at read
                split at read
                · rename_i name' after found
                  rw [cut] at found
                  obtain ⟨rfl, same⟩ := Prod.mk.inj (Option.some.inj found)
                  obtain ⟨o, later, rfl⟩ := Option.map_eq_some_iff.mp read
                  cases back with
                  | nil => exact absurd (List.cons.inj same).1 (by decide)
                  | cons x back =>
                    rw [← (List.cons.inj same).2] at later
                    have short := (ih back.length (by simp only [List.length_append, List.length_cons] at size; omega) later rfl).1
                    simp only [List.length_append, List.length_cons, List.nil_append] at size ⊢
                    exact ⟨by omega, by omega⟩
                · cases read
              · have closes : text ++ '.' :: '%' :: '(' :: (name ++ [')', 's']) = (text ++ '.' :: '%' :: '(' :: name) ++ ')' :: 's' :: [] := by
                  simp
                have unclosed : ')' ∉ text ++ '.' :: '%' :: '(' :: name := by
                  simp [inside, closed]
                rw [closes, expand_field unclosed, expand_nil] at read
                cases read
                simp only [List.append_nil, List.length_nil]
                exact ⟨by omega, by omega⟩
            · have escape' : ∀ after, d :: text ++ '.' :: '%' :: '(' :: (name ++ [')', 's']) ≠ '%' :: after :=
                fun after same => escape (List.cons.inj same).1
              have field' : ∀ after, d :: text ++ '.' :: '%' :: '(' :: (name ++ [')', 's']) ≠ '(' :: after :=
                fun after same => field (List.cons.inj same).1
              rw [List.cons_append, expand_stray escape' field'] at read
              split at read
              · cases read
              · rename_i kept
                obtain ⟨o, later, rfl⟩ := Option.map_eq_some_iff.mp read
                obtain ⟨short, literal⟩ := ih (d :: text).length (by simp only [List.length_cons]; omega) later rfl
                simp only [List.length_cons] at short literal ⊢
                refine ⟨by omega, fun long => literal_cons.mpr ⟨fun _ => ⟨by simpa using kept, ?_⟩, literal (by omega)⟩⟩
                rintro x rest same
                obtain ⟨rfl, rfl⟩ := List.cons.inj same
                exact ⟨escape, field⟩
      · rw [List.cons_append, expand_char percent] at read
        obtain ⟨o, later, rfl⟩ := Option.map_eq_some_iff.mp read
        obtain ⟨short, literal⟩ := ih text.length (by omega) later rfl
        simp only [List.length_cons]
        refine ⟨by omega, fun long => literal_cons.mpr ⟨fun same => (percent same).elim, literal (by omega)⟩⟩

/-- A text before a field stands for itself exactly if it is literal. -/
theorem expand_iff (closed : ')' ∉ name) :
    (∀ fields, expand keepStray fields (text ++ '.' :: '%' :: '(' :: (name ++ [')', 's'])) = some (text ++ '.' :: fields name)) ↔
      Literal keepStray text := by
  constructor
  · intro all
    exact (expand_short closed (all fun _ => [])).2 (by simp)
  · intro literal fields
    rw [expand_literal literal, expand_char (by decide), expand_field closed, expand_nil]
    simp

end Templates

end NixHomeServer.Library
