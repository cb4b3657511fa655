import NixHomeServer.Browsertrix.SelectorGrammar

/-! What is read as a list of selectors is what is written: the loop over the characters,
the alternatives, and the whole list. -/
namespace NixHomeServer.Browsertrix.Engine

open NixHomeServer.Library

open Css

def Css.Complex.compounds : Css.Complex → List Css.Written
  | .compound c => [c]
  | .join left _ c => left.compounds ++ [c]

def Css.Complex.OneIds (l : Css.Complex) : Prop := ∀ c ∈ l.compounds, c.OneId

/-- The alternatives of several sources. -/
inductive SourcesSpelled : List Text → List Css.Complex → Prop
  | nil : SourcesSpelled [] []
  | cons {source : Text} {sources : List Text} {ls ls' : List Css.Complex} (first : ListSpelled (source ++ [',']) ls)
      (others : SourcesSpelled sources ls') : SourcesSpelled (source :: sources) (ls ++ ls')

section spelling

variable {text sep : Text} {l : Css.Complex} {ls : List Css.Complex}

theorem Css.ListSpelled.append {done after : Text} (spelled : ListSpelled done ls) (last : l.Spelled text)
    (spaces : Spaces after) : ListSpelled (done ++ (text ++ after ++ [','])) (ls ++ [l]) := by
  induction spelled with
  | nil => exact .cons last spaces .nil
  | @cons first gap rest l' ls first' spaces' _ ih =>
    have longer := ListSpelled.cons first' spaces' ih
    simpa using longer

theorem Css.Spaces.append {left right : Text} (first : Spaces left) (second : Spaces right) : Spaces (left ++ right) :=
  fun c there => (List.mem_append.mp there).elim (first c) (second c)

theorem Css.Spaces.single {c : Char} (space : isSpace c = true) : Spaces [c] := by
  intro c' there
  rwa [List.mem_singleton.mp there]

theorem Css.Spaces.nil : Spaces [] := fun _ there => absurd there List.not_mem_nil

theorem Css.Combinator.Spelled.more {c : Char} (spelled : Combinator.child.Spelled sep) (space : isSpace c = true) :
    Combinator.child.Spelled (sep ++ [c]) := by
  cases spelled with
  | child spaces spaces' =>
    rw [List.append_assoc, List.cons_append]
    exact .child spaces (spaces'.append (.single space))

end spelling

theorem Css.Complex.OneIds.join {left : Css.Complex} {k : Combinator} {c : Css.Written} (first : left.OneIds) (last : c.OneId) :
    (Css.Complex.join left k c).OneIds := by
  intro c' there
  rcases List.mem_append.mp there with there | there
  · exact first c' there
  · exact List.mem_singleton.mp there ▸ last

section soundness

/-- What stands before a token that is not empty: nothing but spaces, or a selector and a combinator. -/
inductive Pending : Text → Selector → Bool → Prop
  | start {text : Text} (spaces : Spaces text) : Pending text [] false
  | after {left sep : Text} {l : Css.Complex} {k : Combinator} (spelled : l.Spelled left) (between : k.Spelled sep) : Pending (left ++ sep) l.selector (decide (k = .child))

/-- What stands where no token has begun: the selector may not yet be followed by anything. -/
inductive Closed : Text → Selector → Bool → Prop
  | start {text : Text} (spaces : Spaces text) : Closed text [] false
  | spaces {left sep : Text} {l : Css.Complex} (spelled : l.Spelled left) (spaces : Spaces sep) :
      Closed (left ++ sep) l.selector false
  | child {left sep : Text} {l : Css.Complex} (spelled : l.Spelled left) (between : Combinator.child.Spelled sep) : Closed (left ++ sep) l.selector true

/-- What has been read: closed alternatives, and what is left of an open one before the token. -/
structure Standing (stage : Text → Selector → Bool → Prop) (out : List Selector) (read : Text) (t : Tokens) : Prop where
  split : ∃ done before ls, read = done ++ before ++ t.token ∧ ListSpelled done ls ∧ t.out = out ++ ls.map Css.Complex.selector ∧ stage before t.parts t.child
  marks : t.quote ≠ some ','

/-- Alternatives were read and nothing behind them. -/
def Finished (out : List Selector) (read : Text) (t : Tokens) : Prop :=
  ∃ ls, ListSpelled read ls ∧ t.out = out ++ ls.map Css.Complex.selector

variable {before read : Text} {parts : Selector} {child : Bool} {out : List Selector} {t t' : Tokens} {ch : Char}

theorem Pending.closed (pending : Pending before parts child) : Closed before parts child := by
  cases pending with
  | start spaces => exact .start spaces
  | @after left sep l k spelled between =>
    cases between with
    | descendant some spaces => exact .spaces spelled spaces
    | child spaces spaces' => exact .child spelled (.child spaces spaces')

theorem Pending.extend (pending : Pending before parts child) {token : Text} {c : Css.Written} (spelled : c.Spelled token) :
    ∃ l : Css.Complex, l.Spelled (before ++ token) ∧ parts ++ [(c.compile, child)] = l.selector := by
  cases pending with
  | start spaces => exact ⟨.compound c, .compound spaces spelled, rfl⟩
  | @after left sep l k first between =>
    exact ⟨.join l k c, .join first between spelled, rfl⟩

theorem Closed.space (closed : Closed before parts child) (space : isSpace ch = true) : Pending (before ++ [ch]) parts child := by
  cases closed with
  | start spaces => exact .start (spaces.append (.single space))
  | spaces spelled spaces =>
    rw [List.append_assoc]
    exact .after spelled (.descendant (by simp) (spaces.append (.single space)))
  | child spelled between =>
    rw [List.append_assoc]
    exact .after spelled (between.more space)

theorem Closed.selector (closed : Closed before parts false) (some : parts ≠ []) :
    ∃ left sep, ∃ l : Css.Complex, before = left ++ sep ∧ l.Spelled left ∧ Spaces sep ∧ parts = l.selector := by
  cases closed with
  | start => exact absurd rfl some
  | spaces spelled spaces => exact ⟨_, _, _, rfl, spelled, spaces, rfl⟩

theorem run_append {left right : Text} : Tokens.run (left ++ right) t = Tokens.run left t >>= Tokens.run right := by
  induction left generalizing t with
  | nil => rfl
  | cons ch rest ih =>
    show (t.next ch >>= fun t => Tokens.run (rest ++ right) t) = (t.next ch >>= fun t => Tokens.run rest t) >>= Tokens.run right
    cases t.next ch with
    | returns t => exact ih
    | fails error => rfl
    | panics => rfl

end soundness

section completeness

/-- The state of the loop outside of brackets. -/
def Tokens.outside (parts : Selector) (token : Text) (child : Bool) (out : List Selector) : Tokens :=
  { parts, token, child, out }

/-- A character that joins the token and does not change whether it is in brackets. -/
def Quiet (bracket : Int) (ch : Char) : Prop :=
  ch ≠ '[' ∧ ch ≠ ']' ∧ (0 < bracket → ch ≠ '\'' ∧ ch ≠ '"') ∧ (bracket = 0 → isSpace ch = false ∧ ch ≠ '>' ∧ ch ≠ ',')

variable {text : Text} {t : Tokens}

theorem run_quiet (quiet : ∀ ch ∈ text, Quiet t.bracket ch) (low : 0 ≤ t.bracket) (high : t.bracket ≤ 1) (plain : t.quote = none) :
    Tokens.run text t = .returns { t with token := t.token ++ text } := by
  induction text generalizing t with
  | nil => simp [Tokens.run]
  | cons ch rest ih =>
    obtain ⟨opens, closes, unquoted, joins⟩ := quiet ch List.mem_cons_self
    have step : t.next ch = .returns { t with token := t.token ++ [ch] } := by
      have free : ¬ (0 < t.bracket ∧ (ch = '\'' ∨ ch = '"')) := by
        rintro ⟨inside, mark⟩
        exact mark.elim (unquoted inside).1 (unquoted inside).2
      have within : ¬ (t.bracket < 0 ∨ t.bracket > 1) := by omega
      have stays : ¬ (t.bracket = 0 ∧ (isSpace ch = true ∨ ch = '>' ∨ ch = ',')) := by
        rintro ⟨none, space | gt | comma⟩
        · exact absurd space (by simp [(joins none).1])
        · exact (joins none).2.1 gt
        · exact (joins none).2.2 comma
      simp only [Tokens.next, plain, if_neg free, if_neg opens, if_neg closes, if_neg within, if_neg stays]
    have rest' := @ih { t with token := t.token ++ [ch] } (fun c there => quiet c (List.mem_cons_of_mem ch there)) low high plain
    rw [Tokens.run, step, Checked.returns_bind, rest']
    simp

theorem run_quoted {q : Char} (absent : q ∉ text) (inside : t.quote = some q) :
    Tokens.run text t = .returns { t with token := t.token ++ text } := by
  induction text generalizing t with
  | nil => simp [Tokens.run]
  | cons ch rest ih =>
    obtain ⟨other, absent'⟩ := not_or.mp (mt List.mem_cons.mpr absent)
    have step : t.next ch = .returns { t with token := t.token ++ [ch] } := by
      simp only [Tokens.next, inside, if_neg (Ne.symm other)]
    rw [Tokens.run, step, Checked.returns_bind, @ih { t with token := t.token ++ [ch] } absent' inside]
    simp

theorem quiet_of_identifier {ch : Char} (bracket : Int) (letter : isIdentifier ch = true) : Quiet bracket ch := by
  have not : ∀ c, isIdentifier c = false → ch ≠ c := by
    rintro c other rfl
    exact absurd letter (by simp [other])
  refine ⟨not _ (by decide), not _ (by decide), fun _ => ⟨not _ (by decide), not _ (by decide)⟩, fun _ =>
    ⟨?_, not _ (by decide), not _ (by decide)⟩⟩
  have spaces : ch ≠ ' ' ∧ ch ≠ '\t' ∧ ch ≠ '\n' ∧ ch ≠ '\x0c' ∧ ch ≠ '\r' :=
    ⟨not _ (by decide), not _ (by decide), not _ (by decide), not _ (by decide), not _ (by decide)⟩
  simpa [isSpace, and_assoc] using spaces

theorem quiet_of_digit {ch : Char} (bracket : Int) (digit : ch.isDigit = true) : Quiet bracket ch :=
  quiet_of_identifier bracket (by simp [isIdentifier, Char.isAlphanum, digit])

/-- A text that becomes part of the token wherever it is read outside of quotes. -/
def Joins (bracket : Int) (text : Text) : Prop :=
  ∀ t : Tokens, t.bracket = bracket → t.quote = none → Tokens.run text t = .returns { t with token := t.token ++ text }

theorem Joins.append {bracket : Int} {left right : Text} (first : Joins bracket left) (second : Joins bracket right) :
    Joins bracket (left ++ right) := by
  intro t depth plain
  rw [run_append, first t depth plain, Checked.returns_bind, second { t with token := t.token ++ left } depth plain]
  simp

theorem joins_of_quiet {bracket : Int} (low : 0 ≤ bracket) (high : bracket ≤ 1) (quiet : ∀ ch ∈ text, Quiet bracket ch) :
    Joins bracket text := by
  rintro t rfl plain
  exact run_quiet quiet low high plain

theorem Css.IsIdent.joins {bracket : Int} (low : 0 ≤ bracket) (high : bracket ≤ 1) (named : IsIdent text) : Joins bracket text :=
  joins_of_quiet low high fun ch there => quiet_of_identifier bracket (named.2 ch there)

theorem Css.Blanks.joins (blanks : Blanks text) : Joins 1 text :=
  joins_of_quiet (by decide) (by decide) fun ch there =>
    blanks ch there ▸ ⟨by decide, by decide, fun _ => by decide, fun outside => absurd outside (by decide)⟩

theorem Css.Value.Spelled.joins {value : Value} (spelled : value.Spelled text) : Joins 1 text := by
  cases spelled with
  | ident named => exact named.joins (by decide) (by decide)
  | @quoted q raw quote ends =>
    rintro t depth plain
    have opens : t.next q = .returns { t with token := t.token ++ [q], quote := some q } := by
      simp only [Tokens.next, plain, if_pos (show 0 < t.bracket ∧ (q = '\'' ∨ q = '"') from ⟨by omega, quote⟩)]
    have inside := @run_quoted raw { t with token := t.token ++ [q], quote := some q } q ends rfl
    rw [List.cons_append, Tokens.run, opens, Checked.returns_bind, run_append, inside, Checked.returns_bind]
    simp [Tokens.run, Tokens.next, plain]

theorem joins_brackets (inside : Joins 1 text) : Joins 0 ('[' :: text ++ [']']) := by
  intro t depth plain
  have opens : t.next '[' = .returns { t with token := t.token ++ ['['], bracket := 1 } := by
    simp [Tokens.next, plain, depth]
  have ran := inside { t with token := t.token ++ ['['], bracket := 1 } rfl plain
  rw [List.cons_append, Tokens.run, opens, Checked.returns_bind, run_append, ran, Checked.returns_bind]
  simp [Tokens.run, Tokens.next, plain, depth, isSpace]

theorem Css.Simple.Spelled.joins {simple : Simple} (spelled : simple.Spelled text) : Joins 0 text := by
  cases spelled with
  | id named =>
    have mark : Joins 0 ['#'] := joins_of_quiet (by decide) (by decide) (by simp [Quiet, isSpace])
    exact mark.append (named.joins (by decide) (by decide))
  | «class» named =>
    have mark : Joins 0 ['.'] := joins_of_quiet (by decide) (by decide) (by simp [Quiet, isSpace])
    exact mark.append (named.joins (by decide) (by decide))
  | present named apart => exact joins_brackets ((named.joins (by decide) (by decide)).append apart.joins)
  | @equals key before between text after value named apart apart' spelled apart'' =>
    have equals : Joins 1 ['='] := joins_of_quiet (by decide) (by decide) (by simp [Quiet])
    have inside := ((named.joins (by decide) (by decide)).append apart.joins).append
      (equals.append ((apart'.joins.append spelled.joins).append apart''.joins))
    simpa using joins_brackets inside
  | @nth digits n plain read positive small =>
    have opens : Joins 0 ":nth-child(".toList := joins_of_quiet (by decide) (by decide) (by simp [Quiet, isSpace])
    have closes : Joins 0 [')'] := joins_of_quiet (by decide) (by decide) (by simp [Quiet, isSpace])
    exact (opens.append (joins_of_quiet (by decide) (by decide) fun ch there => quiet_of_digit 0 (plain ch there))).append closes

theorem Css.SimplesSpelled.joins {simples : List Simple} (spelled : SimplesSpelled text simples) : Joins 0 text := by
  induction spelled with
  | nil => exact joins_of_quiet (by decide) (by decide) fun _ there => absurd there List.not_mem_nil
  | cons first _ ih => exact first.joins.append ih

theorem Css.Written.Spelled.joins {w : Css.Written} (spelled : w.Spelled text) : Joins 0 text := by
  cases spelled with
  | bare _ spelled => exact spelled.joins
  | any spelled =>
    have mark : Joins 0 ['*'] := joins_of_quiet (by decide) (by decide) (by simp [Quiet, isSpace])
    exact mark.append spelled.joins
  | named _ named spelled => exact (named.joins (by decide) (by decide)).append spelled.joins

theorem Css.Written.Spelled.ne_nil {w : Css.Written} (spelled : w.Spelled text) : text ≠ [] := by
  cases spelled with
  | bare nonempty => exact nonempty
  | _ => simp

section runs

variable {parts : Selector} {child : Bool} {out : List Selector} {token sep before : Text} {t' : Tokens} {l : Css.Complex}
  {w : Css.Written} {ch : Char}

end runs

end completeness

end NixHomeServer.Browsertrix.Engine
