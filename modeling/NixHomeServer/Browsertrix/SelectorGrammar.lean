import NixHomeServer.Browsertrix.Css

/-! What is read as a selector is what is written: the compounds that are parsed, and the
grammar. -/
namespace NixHomeServer.Browsertrix.Engine

open NixHomeServer.Library

namespace Css

/-- What the parser keeps of a value. -/
def Value.raw : Value → Text
  | .ident name => name
  | .quoted raw => raw

def Simple.isId : Simple → Bool
  | .id _ => true
  | _ => false

end Css

open Css

/-- What the parser makes of a simple selector behind others. -/
def Compound.add (c : Compound) : Simple → Compound
  | .id name => { c with id := some name }
  | .class name => { c with classes := c.classes ++ [name] }
  | .attr key value => { c with attrs := c.attrs ++ [(toAsciiLowercase key, value.map Value.raw)] }
  | .nth n => { c with nth := some n }

def Css.Written.compile (c : Css.Written) : Compound :=
  c.simples.foldl Compound.add { tag := c.tag.map toAsciiLowercase }

def Css.Complex.selector : Complex → Selector
  | .compound c => [(c.compile, false)]
  | .join left k c => left.selector ++ [(c.compile, decide (k = .child))]

section identifiers

variable {text name rest : Text}

/-- What follows does not go on with a name. -/
def Clear (rest : Text) : Prop := ∀ c ∈ rest.head?, isIdentifier c = false

end identifiers

section components

variable {text piece rest : Text} {c c' : Compound} {simple : Simple}

theorem clear_of_first {first : Char} (other : isIdentifier first = false) : Clear (first :: rest) := by
  rintro c there
  cases there
  exact other

theorem Css.Simple.Spelled.ne_nil (spelled : simple.Spelled piece) : piece ≠ [] := by
  cases spelled <;> simp

theorem Css.Simple.Spelled.clear (spelled : simple.Spelled piece) (rest : Text) : Clear (piece ++ rest) := by
  cases spelled <;> exact clear_of_first (by decide)

theorem Css.SimplesSpelled.clear {simples : List Simple} (spelled : SimplesSpelled text simples) : Clear text := by
  cases spelled with
  | nil => exact nofun
  | cons first others => exact first.clear _

/-- No compound has two identifiers. -/
def Css.Written.OneId (w : Css.Written) : Prop := w.simples.countP Simple.isId ≤ 1

end components

end NixHomeServer.Browsertrix.Engine
