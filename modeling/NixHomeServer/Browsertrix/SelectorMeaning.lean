import NixHomeServer.Browsertrix.SelectorLists

/-! What the parser keeps of a compound, and when that is what is written. -/
namespace NixHomeServer.Browsertrix.Engine

open NixHomeServer.Library

namespace Css

/-- The parser takes what is between quotes as it stands. -/
def Value.kept : Value → Value
  | .ident name => .ident name
  | .quoted raw => .ident raw

def Simple.kept : Simple → Simple
  | .attr key (some value) => .attr key (some value.kept)
  | simple => simple

def Simple.isNth : Simple → Bool
  | .nth _ => true
  | _ => false

/-- Of several `:nth-child` of one element the last one is kept. -/
def keptSimples : List Simple → List Simple
  | [] => []
  | simple :: rest =>
    if simple.isNth ∧ rest.any Simple.isNth then keptSimples rest else simple.kept :: keptSimples rest

/-- A compound as the parser keeps it, written as a selector again. -/
def Written.kept (w : Written) : Written := { w with simples := keptSimples w.simples }

/-- Nothing between quotes stands for anything but itself. -/
def PlainText (raw : Text) : Prop := '\\' ∉ raw ∧ ∀ c ∈ raw, isNewline c = false

/-- A compound of which the parser keeps everything. -/
def Written.Plain (w : Written) : Prop :=
  (∀ m n, .nth m ∈ w.simples → .nth n ∈ w.simples → m = n) ∧
    ∀ key raw, .attr key (some (.quoted raw)) ∈ w.simples → PlainText raw

/-- The class names of an element are separated by nothing but the white space of HTML. -/
def PlainClasses (node : Node) : Prop :=
  ∀ text, node.attr "class".toList = some text → ∀ c ∈ text, isWhitespace c = true → isSpace c = true

def PlainTrail (trail : Trail) : Prop := ∀ p ∈ trail, PlainClasses p.2

section strings

variable {text raw value : Text} {c : Char} {left : Nat}

end strings

section words

variable {text name : Text}

end words

section keeping

variable {simple : Simple} {simples : List Simple} {i : Nat} {node : Node} {above : Trail} {c : Compound} {w : Written}

end keeping

section consistency

/-- The value that a simple selector asks of an attribute. -/
def Simple.demand : Simple → Option (Text × Option Text)
  | .id name => some ("id".toList, some name)
  | .attr key (some value) => some (toAsciiLowercase key, value.meant)
  | _ => none

def Written.demands (w : Written) : List (Text × Option Text) := w.simples.filterMap Simple.demand

/-- A compound that does not ask for two places, for two values of one attribute, or for a
value that is none or does not have the class names asked for. -/
structure Written.Consistent (w : Written) : Prop where
  nth : ∀ m n, .nth m ∈ w.simples → .nth n ∈ w.simples → m = n
  valued : ∀ d ∈ w.demands, d.2.isSome = true
  single : ∀ d ∈ w.demands, ∀ d' ∈ w.demands, d.1 = d'.1 → d.2 = d'.2
  classes : ∀ name, .class name ∈ w.simples → ∀ text, ("class".toList, some text) ∈ w.demands → name ∈ classNames text
  plain : ∀ text, ("class".toList, some text) ∈ w.demands → ∀ c ∈ text, isWhitespace c = true → isSpace c = true

/-- What the grammar promises of a compound. -/
structure Written.Regular (w : Written) : Prop where
  names : ∀ name, .class name ∈ w.simples → IsIdent name
  positive : ∀ n, .nth n ∈ w.simples → 0 < n

variable {w : Written} {i : Nat} {node : Node} {above trail : Trail} {simple : Simple} {simples : List Simple}

theorem mem_keptSimples (there : simple ∈ keptSimples simples) : ∃ simple' ∈ simples, simple = simple'.kept := by
  induction simples with
  | nil => cases there
  | cons first rest ih =>
    unfold keptSimples at there
    split at there
    · obtain ⟨simple', there, same⟩ := ih there
      exact ⟨simple', List.mem_cons_of_mem first there, same⟩
    · rcases List.mem_cons.mp there with same | there
      · exact ⟨first, List.mem_cons_self, same⟩
      · obtain ⟨simple', there, same⟩ := ih there
        exact ⟨simple', List.mem_cons_of_mem first there, same⟩

theorem Written.Regular.kept (regular : w.Regular) : w.kept.Regular := by
  constructor
  · intro name there
    obtain ⟨simple, there, same⟩ := mem_keptSimples there
    refine regular.names name ?_
    cases simple with
    | «class» name' => cases same; exact there
    | attr key value => cases value <;> cases same
    | _ => cases same
  · intro n there
    obtain ⟨simple, there, same⟩ := mem_keptSimples there
    refine regular.positive n ?_
    cases simple with
    | nth n' => cases same; exact there
    | attr key value => cases value <;> cases same
    | _ => cases same

theorem Simple.Holds.demand {d : Text × Option Text} (holds : simple.Holds i node above) (asked : simple.demand = some d) :
    d.2.isSome = true ∧ node.attr d.1 = d.2 := by
  cases simple with
  | id name =>
    cases asked
    exact ⟨rfl, holds⟩
  | attr key value =>
    cases value with
    | none => cases asked
    | some value =>
      cases asked
      obtain ⟨text, meant, found⟩ := holds
      exact ⟨by simp [meant], found.trans meant.symm⟩
  | _ => cases asked

/-- Where a compound holds it does not contradict itself. -/
theorem Written.Holds.consistent (holds : w.Holds trail) (plain : PlainTrail trail) : w.Consistent := by
  cases trail with
  | nil => cases holds
  | cons p above =>
    obtain ⟨i, node⟩ := p
    obtain ⟨name, -, -, all⟩ := holds
    have found : ∀ d ∈ w.demands, d.2.isSome = true ∧ node.attr d.1 = d.2 := by
      intro d there
      obtain ⟨simple, there, asked⟩ := List.mem_filterMap.mp there
      exact (all simple there).demand asked
    refine ⟨fun m n here there => ?_, fun d there => (found d there).1, fun d there d' there' same => ?_, fun name there text asked => ?_,
      fun text asked => ?_⟩
    · obtain ⟨j, parent, above₁, place⟩ := all _ here
      obtain ⟨j', parent', above₂, place'⟩ := all _ there
      rw [above₁] at above₂
      cases above₂
      exact Option.some.inj (place.symm.trans place')
    · rw [← (found d there).2, ← (found d' there').2, same]
    · obtain ⟨text', value, word⟩ := all _ there
      rw [(found _ asked).2] at value
      exact Option.some.inj value ▸ word
    · exact plain _ List.mem_cons_self text (found _ asked).2

end consistency

section sample

def Simple.className : Simple → Option Text
  | .class name => some name
  | _ => none

def Simple.presentKey : Simple → Option (Text × Text)
  | .attr key none => some (toAsciiLowercase key, [])
  | _ => none

def Simple.place : Simple → Option Nat
  | .nth n => some n
  | _ => none

/-- An element of which a compound holds that does not contradict itself, with its place
among the children of a node. -/
def Written.sampleAttrs (w : Written) : List (Text × Text) :=
  w.demands.filterMap (fun d => d.2.map fun value => (d.1, value)) ++
    ("class".toList, (w.simples.filterMap Simple.className).flatMap (· ++ [' '])) :: w.simples.filterMap Simple.presentKey

def Written.sample (w : Written) : Node := .element ((w.tag.map toAsciiLowercase).getD "a".toList) w.sampleAttrs []

variable {w : Written}

end sample

section agreement

variable {w : Written} {trail : Trail} {i : Nat} {node : Node} {above : Trail}

/-- A compound that is kept as it is written, or that contradicts itself both ways. -/
def Written.Faithful (w : Written) : Prop := w.Plain ∨ ¬ w.Consistent ∧ ¬ w.kept.Consistent

end agreement

end Css

end NixHomeServer.Browsertrix.Engine
