import NixHomeServer.Browsertrix.Documents

/-! The subset of CSS selectors by which an export removes elements: how selectors are
read, and how they are matched from right to left. -/
namespace NixHomeServer.Browsertrix.Engine

open NixHomeServer.Library

section reading

structure Compound where
  tag : Option Text := none
  id : Option Text := none
  classes : List Text := []
  attrs : List (Text × Option Text) := []
  nth : Option Nat := none
  deriving DecidableEq

/-- The compounds from the left to the right, each with whether it is a child of the one before. -/
abbrev Selector := List (Compound × Bool)

def isIdentifier (c : Char) : Bool := c.isAlphanum || c = '_' || c = '-'

def identifier (text : Text) : Result (Text × Text) :=
  if text.takeWhile isIdentifier = [] then .fails "CSS selector requires a simple ASCII identifier"
  else .returns (text.takeWhile isIdentifier, text.dropWhile isIdentifier)

def skipSpaces (text : Text) : Text := text.dropWhile (· = ' ')

/-- The value of an attribute, and what follows it. -/
def attributeValue (text : Text) : Result (Text × Text) :=
  match text with
  | quote :: rest =>
    if quote = '\'' ∨ quote = '"' then
      .ofOption "Unterminated CSS attribute value" (cutAt quote rest)
    else identifier text
  | [] => identifier text

/-- The value of an attribute, if there is one. -/
def optionalValue (text : Text) : Result (Option Text × Text) :=
  match text with
  | '=' :: rest => do
    let (value, rest) ← attributeValue (skipSpaces rest)
    return (some value, rest)
  | _ => .returns (none, text)

/-- What stands in the brackets of an attribute, behind the opening one. -/
def attributeTest (text : Text) : Result ((Text × Option Text) × Text) := do
  let (name, rest) ← identifier text
  let (value, rest) ← optionalValue (skipSpaces rest)
  match skipSpaces rest with
  | ']' :: rest => return ((toAsciiLowercase name, value), rest)
  | _ => .fails "Unsupported CSS attribute selector"

def nthChild (text : Text) : Result (Nat × Text) := do
  let rest ← .ofOption "Only numeric :nth-child() is supported" (text.dropPrefix? ":nth-child(".toList)
  let n ← .ofOption "Invalid :nth-child index" (parseUnsigned 10 (2 ^ 64) (rest.takeWhile Char.isDigit))
  match rest.dropWhile Char.isDigit with
  | ')' :: rest =>
    if n = 0 ∨ n > 50000 then .fails "Invalid :nth-child index" else return (n, rest)
  | _ => .fails "Invalid :nth-child index"

/-- One simple selector of a compound. -/
def component (c : Compound) : Text → Result (Compound × Text)
  | '#' :: rest => do
    .ensure (c.id = none) "Multiple IDs in CSS selector"
    let (id, rest) ← identifier rest
    return ({ c with id := some id }, rest)
  | '.' :: rest => do
    let (name, rest) ← identifier rest
    return ({ c with classes := c.classes ++ [name] }, rest)
  | '[' :: rest => do
    let (attr, rest) ← attributeTest rest
    return ({ c with attrs := c.attrs ++ [attr] }, rest)
  | ':' :: rest => do
    let (n, rest) ← nthChild (':' :: rest)
    return ({ c with nth := some n }, rest)
  | _ => .fails "Unsupported CSS selector syntax"

/-- The loop over the simple selectors; each takes up some of the text. -/
def components : Nat → Compound → Text → Result Compound
  | _, c, [] => .returns c
  | 0, _, _ :: _ => .panics
  | left + 1, c, next :: rest => do
    let (c, rest) ← component c (next :: rest)
    components left c rest

def compound (text : Text) : Result Compound :=
  match text with
  | '*' :: rest => components rest.length {} rest
  | first :: _ =>
    if first.isAlpha then do
      let (tag, rest) ← identifier text
      components rest.length { tag := some (toAsciiLowercase tag) } rest
    else components text.length {} text
  | [] => .returns {}

/-- The loop over the characters of a list of selectors. -/
structure Tokens where
  parts : Selector := []
  token : Text := []
  bracket : Int := 0
  quote : Option Char := none
  child : Bool := false
  out : List Selector

def Tokens.flush (t : Tokens) : Result Tokens :=
  if t.token = [] then .returns t
  else do
    let c ← compound t.token
    return { t with parts := t.parts ++ [(c, t.child)], token := [], child := false }

def isSpace (c : Char) : Bool := c = ' ' || c = '\t' || c = '\n' || c = '\x0c' || c = '\r'

def Tokens.separate (t : Tokens) (ch : Char) : Result Tokens := do
  let t ← t.flush
  if ch = '>' then do
    .ensure (t.parts ≠ [] ∧ t.child = false) "Invalid child selector"
    return { t with child := true }
  else if ch = ',' then do
    .ensure (t.parts ≠ [] ∧ t.parts.length ≤ 16 ∧ t.child = false) "Invalid selector list/depth"
    .ensure (t.out.length < 32) "At most 32 selector alternatives"
    return { t with parts := [], out := t.out ++ [t.parts] }
  else return t

def Tokens.next (t : Tokens) (ch : Char) : Result Tokens :=
  match t.quote with
  | some q => .returns { t with token := t.token ++ [ch], quote := if ch = q then none else some q }
  | none =>
    if 0 < t.bracket ∧ (ch = '\'' ∨ ch = '"') then .returns { t with token := t.token ++ [ch], quote := some ch }
    else
      let bracket := if ch = '[' then t.bracket + 1 else if ch = ']' then t.bracket - 1 else t.bracket
      if bracket < 0 ∨ bracket > 1 then .fails "Invalid selector brackets"
      else if bracket = 0 ∧ (isSpace ch = true ∨ ch = '>' ∨ ch = ',') then Tokens.separate { t with bracket } ch
      else .returns { t with bracket, token := t.token ++ [ch] }

def Tokens.run : Text → Tokens → Result Tokens
  | [], t => .returns t
  | ch :: rest, t => do
    let t ← t.next ch
    Tokens.run rest t

end reading

section matching

/-- A node of a document: its place among its parent's children and itself, then its
parent and so on. -/
abbrev Trail := List (Nat × Node)

/-- The text between white space. -/
def words (text : Text) : List Text := splitWhitespace text

/-- The place of a child among the elements of its parent, from 1. -/
def childIndex (parent : Node) (i : Nat) : Option Nat :=
  match parent.children[i]? with
  | some child =>
    if child.elementName.isSome then
      some (((parent.children.take i).filter fun node => node.elementName.isSome).length + 1)
    else none
  | none => none

mutual

/-- The nodes of a document with their ancestors, in the order in which a stack gives them. -/
def trails (above : Trail) (i : Nat) : Node → List Trail
  | .element name attrs children =>
    ((i, .element name attrs children) :: above) :: trailsAll ((i, .element name attrs children) :: above) 0 children
  | .other children => ((i, .other children) :: above) :: trailsAll ((i, .other children) :: above) 0 children

def trailsAll (above : Trail) (i : Nat) : List Node → List Trail
  | [] => []
  | node :: rest => trailsAll above (i + 1) rest ++ trails above i node

end

def Trail.place (trail : Trail) : List Nat := trail.map Prod.fst

mutual

/-- The document without the nodes at some places. -/
def prune (gone : List Nat → Bool) (above : List Nat) (i : Nat) : Node → Node
  | .element name attrs children => .element name attrs (pruneAll gone (i :: above) 0 children)
  | .other children => .other (pruneAll gone (i :: above) 0 children)

def pruneAll (gone : List Nat → Bool) (above : List Nat) (i : Nat) : List Node → List Node
  | [] => []
  | node :: rest =>
    if gone (i :: above) then pruneAll gone above (i + 1) rest
    else prune gone above i node :: pruneAll gone above (i + 1) rest

end

end matching

end NixHomeServer.Browsertrix.Engine
