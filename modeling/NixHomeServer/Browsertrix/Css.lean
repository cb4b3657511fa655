import NixHomeServer.Browsertrix.Selectors

/-! The subset of CSS in its own terms: how selectors are written, and what they select. -/
namespace NixHomeServer.Browsertrix.Engine

open NixHomeServer.Library

namespace Css

/-- The value of an attribute, as an identifier or as what stands between quotes. -/
inductive Value
  | ident (name : Text)
  | quoted (raw : Text)
  deriving DecidableEq

inductive Simple
  | id (name : Text)
  | class (name : Text)
  | attr (key : Text) (value : Option Value)
  | nth (n : Nat)
  deriving DecidableEq

/-- Simple selectors of one element, with or without the name of the element. -/
structure Written where
  tag : Option Text
  simples : List Simple
  deriving DecidableEq

inductive Combinator
  | descendant
  | child
  deriving DecidableEq

inductive Complex
  | compound (c : Written)
  | join (left : Complex) (k : Combinator) (c : Written)
  deriving DecidableEq

section grammar

def IsIdent (text : Text) : Prop := text ≠ [] ∧ ∀ c ∈ text, isIdentifier c = true

def Blanks (text : Text) : Prop := ∀ c ∈ text, c = ' '

def Spaces (text : Text) : Prop := ∀ c ∈ text, isSpace c = true

inductive Value.Spelled : Text → Value → Prop
  | ident {name : Text} (named : IsIdent name) : Spelled name (.ident name)
  | quoted {q : Char} {raw : Text} (quote : q = '\'' ∨ q = '"') (ends : q ∉ raw) : Spelled (q :: raw ++ [q]) (.quoted raw)

inductive Simple.Spelled : Text → Simple → Prop
  | id {name : Text} (named : IsIdent name) : Spelled ('#' :: name) (.id name)
  | class {name : Text} (named : IsIdent name) : Spelled ('.' :: name) (.class name)
  | present {key blanks : Text} (named : IsIdent key) (apart : Blanks blanks) :
      Spelled ('[' :: key ++ blanks ++ [']']) (.attr key none)
  | equals {key before between text after : Text} {value : Value} (named : IsIdent key) (apart : Blanks before)
      (apart' : Blanks between) (spelled : value.Spelled text) (apart'' : Blanks after) :
      Spelled ('[' :: key ++ before ++ '=' :: between ++ text ++ after ++ [']']) (.attr key (some value))
  | nth {digits : Text} {n : Nat} (plain : ∀ c ∈ digits, c.isDigit = true) (read : parseUnsigned 10 (2 ^ 64) digits = some n)
      (positive : 0 < n) (small : n ≤ 50000) : Spelled (":nth-child(".toList ++ digits ++ [')']) (.nth n)

/-- Simple selectors one after the other. -/
inductive SimplesSpelled : Text → List Simple → Prop
  | nil : SimplesSpelled [] []
  | cons {text rest : Text} {simple : Simple} {simples : List Simple} (first : simple.Spelled text)
      (others : SimplesSpelled rest simples) : SimplesSpelled (text ++ rest) (simple :: simples)

inductive Written.Spelled : Text → Written → Prop
  | bare {text : Text} {simples : List Simple} (nonempty : text ≠ []) (spelled : SimplesSpelled text simples) :
      Spelled text ⟨none, simples⟩
  | any {text : Text} {simples : List Simple} (spelled : SimplesSpelled text simples) : Spelled ('*' :: text) ⟨none, simples⟩
  | named {first : Char} {tag text : Text} {simples : List Simple} (letter : first.isAlpha = true)
      (named : IsIdent (first :: tag)) (spelled : SimplesSpelled text simples) :
      Spelled (first :: tag ++ text) ⟨some (first :: tag), simples⟩

inductive Combinator.Spelled : Text → Combinator → Prop
  | descendant {text : Text} (some : text ≠ []) (spaces : Spaces text) : Spelled text .descendant
  | child {before after : Text} (spaces : Spaces before) (spaces' : Spaces after) : Spelled (before ++ '>' :: after) .child

/-- A complex selector, up to its last compound. -/
inductive Complex.Spelled : Text → Complex → Prop
  | compound {before text : Text} {c : Written} (spaces : Spaces before) (spelled : c.Spelled text) :
      Spelled (before ++ text) (.compound c)
  | join {left sep text : Text} {l : Complex} {k : Combinator} {c : Written} (first : l.Spelled left) (between : k.Spelled sep)
      (spelled : c.Spelled text) : Spelled (left ++ sep ++ text) (.join l k c)

/-- Alternatives, each closed by a comma. -/
inductive ListSpelled : Text → List Complex → Prop
  | nil : ListSpelled [] []
  | cons {text after rest : Text} {l : Complex} {ls : List Complex} (first : l.Spelled text) (spaces : Spaces after)
      (others : ListSpelled rest ls) : ListSpelled (text ++ after ++ ',' :: rest) (l :: ls)

end grammar

section meaning

/-- The hexadecimal digits of an escape, at most so many, and what follows them. -/
def hexDigits : Nat → Text → Text × Text
  | left + 1, c :: rest =>
    if (digitOf 16 c).isSome then (c :: (hexDigits left rest).1, (hexDigits left rest).2) else ([], c :: rest)
  | _, text => ([], text)

def isNewline (c : Char) : Bool := c = '\n' || c = '\r' || c = '\x0c'

/-- A line break is one character or CR LF. -/
def afterSpace (c : Char) (text : Text) : Text :=
  match text with
  | d :: rest => if c = '\r' ∧ d = '\n' then rest else text
  | [] => []

/-- The white space that ends an escape belongs to it. -/
def closeEscape (text : Text) : Text :=
  match text with
  | c :: rest => if isSpace c then afterSpace c rest else text
  | [] => []

/-- The character that the digits of an escape stand for. -/
def escapedChar (digits : Text) : Char :=
  match numeral 16 digits with
  | some n => if n ≠ 0 ∧ n.isValidChar then Char.ofNat n else Char.ofNat 0xFFFD
  | none => Char.ofNat 0xFFFD

/-- What an escape stands for, by what follows the backslash, and what follows the escape. -/
def escape (c : Char) (rest : Text) : Text × Text :=
  if isNewline c then ([], afterSpace c rest)
  else if (digitOf 16 c).isSome then
    ([escapedChar (c :: (hexDigits 5 rest).1)], closeEscape (hexDigits 5 rest).2)
  else ([c], rest)

/-- What a string stands for, by what is between its quotes, of which so much is left. -/
def stringFrom : Nat → Text → Option Text
  | _, [] => some []
  | 0, _ :: _ => none
  | left + 1, c :: rest =>
    if c = '\\' then
      match rest with
      | [] => none
      | d :: after => (stringFrom left (escape d after).2).map fun value => (escape d after).1 ++ value
    else if isNewline c then none
    else (stringFrom left rest).map fun value => c :: value

def stringValue (raw : Text) : Option Text := stringFrom raw.length raw

def Value.meant : Value → Option Text
  | .ident name => some name
  | .quoted raw => stringValue raw

/-- The words of a class attribute, as HTML separates them. -/
def classNames (text : Text) : List Text := (text.splitOnP isSpace).filter fun name => !name.isEmpty

/-- A simple selector holds of an element; the names of elements and attributes are those of
HTML, which are compared without regard to case. -/
def Simple.Holds (simple : Simple) (i : Nat) (node : Node) (above : Trail) : Prop :=
  match simple with
  | .id name => node.attr "id".toList = some name
  | .class name => ∃ text, node.attr "class".toList = some text ∧ name ∈ classNames text
  | .attr key none => (node.attr (toAsciiLowercase key)).isSome
  | .attr key (some value) => ∃ text, value.meant = some text ∧ node.attr (toAsciiLowercase key) = some text
  | .nth n => ∃ j parent, above.head? = some (j, parent) ∧ childIndex parent i = some n

/-- An element has the name and everything else that is written of it. -/
def Written.Holds (c : Written) : Trail → Prop
  | [] => False
  | (i, node) :: above => ∃ name, node.elementName = some name ∧ (∀ tag, c.tag = some tag → name = toAsciiLowercase tag) ∧
      ∀ simple ∈ c.simples, simple.Holds i node above

/-- An element is selected where its compounds hold of it and of some ancestors. -/
def Complex.Selects : Complex → Trail → Prop
  | .compound c, trail => c.Holds trail
  | .join left .child c, trail => c.Holds trail ∧ left.Selects trail.tail
  | .join left .descendant c, trail => c.Holds trail ∧ ∃ above, above <:+ trail.tail ∧ left.Selects above

end meaning

end Css

end NixHomeServer.Browsertrix.Engine
