import Mathlib.Data.List.Basic

/-! Regular expressions over given patterns, by the places of a text where they match. -/
namespace NixHomeServer.Library

/-- Patterns by where they match: the start and the end of each match in a text. -/
structure Patterns (π : Type) where
  text : π → String
  spans : π → List Char → Nat → Nat → Bool
  inside : ∀ p text i j, spans p text i j = true → i ≤ j ∧ j ≤ text.length

inductive Expr (π : Type)
  | empty
  | pattern (p : π)
  /-- The start of the text. -/
  | start
  /-- Any characters of one line. -/
  | run
  /-- What does not follow. -/
  | never (e : Expr π)
  | group (e : Expr π)
  | either (a b : Expr π)
  | seq (a b : Expr π)
  deriving DecidableEq, Repr

namespace Expr

variable {π : Type}

def oneOf : List (Expr π) → Expr π
  | [] => empty
  | [e] => e
  | e :: rest => either e (oneOf rest)

def print (patterns : Patterns π) : Expr π → List Char
  | empty => []
  | pattern p => (patterns.text p).toList
  | start => ['^']
  | run => ['.', '*']
  | never e => "(?!".toList ++ e.print patterns ++ [')']
  | group e => "(?:".toList ++ e.print patterns ++ [')']
  | either a b => a.print patterns ++ '|' :: b.print patterns
  | seq a b => a.print patterns ++ b.print patterns

/-- No alternatives, as an expression or inside a pattern, stand next to something that they do not belong to. -/
def Closed : Expr π → Prop
  | pattern _ => False
  | either _ _ => False
  | seq a b => a.Closed ∧ b.Closed
  | _ => True

/-- The text is read as the expression: what is put in a row is closed. -/
def Grouped : Expr π → Prop
  | seq a b => a.Closed ∧ b.Closed ∧ a.Grouped ∧ b.Grouped
  | never e => e.Grouped
  | group e => e.Grouped
  | either a b => a.Grouped ∧ b.Grouped
  | _ => True

def newlines : List Char := ['\n', '\r', Char.ofNat 0x2028, Char.ofNat 0x2029]

variable (patterns : Patterns π) (text : List Char)

/-- The places where an expression matches. -/
def Spans : Expr π → Nat → Nat → Prop
  | empty, i, j => i = j
  | pattern p, i, j => patterns.spans p text i j = true
  | start, i, j => i = 0 ∧ i = j
  | run, i, j => i ≤ j ∧ j ≤ text.length ∧ ∀ c ∈ (text.take j).drop i, c ∉ newlines
  | never e, i, j => i = j ∧ ¬ ∃ k, e.Spans i k
  | group e, i, j => e.Spans i j
  | either a b, i, j => a.Spans i j ∨ b.Spans i j
  | seq a b, i, j => ∃ k, a.Spans i k ∧ b.Spans k j

/-- The expression is found somewhere in the text. -/
def Found (e : Expr π) : Prop := ∃ i j, i ≤ text.length ∧ e.Spans patterns text i j

variable {patterns text} {e a b : Expr π} {i j : Nat}

theorem oneOf_cons_cons (e next : Expr π) (rest : List (Expr π)) : oneOf (e :: next :: rest) = either e (oneOf (next :: rest)) := rfl

theorem spans_oneOf {es : List (Expr π)} (some : es ≠ []) :
    (oneOf es).Spans patterns text i j ↔ ∃ e ∈ es, e.Spans patterns text i j := by
  induction es with
  | nil => exact absurd rfl some
  | cons e rest ih =>
    cases rest with
    | nil => exact ⟨fun spans => ⟨e, List.mem_singleton_self e, spans⟩, fun ⟨_, member, spans⟩ => List.mem_singleton.mp member ▸ spans⟩
    | cons next rest =>
      rw [oneOf_cons_cons, List.exists_mem_cons_iff _ e, ← ih (List.cons_ne_nil _ _)]
      exact Iff.rfl

theorem print_oneOf (es : List (Expr π)) : (oneOf es).print patterns = ['|'].intercalate (es.map (print patterns)) := by
  induction es with
  | nil => rfl
  | cons e rest ih =>
    cases rest with
    | nil => exact (List.append_nil _).symm
    | cons next rest =>
      rw [oneOf_cons_cons, List.map_cons, List.map_cons, List.intercalate_cons_cons, ← List.map_cons, ← ih,
        List.append_assoc, List.singleton_append]
      rfl

theorem grouped_oneOf {es : List (Expr π)} (each : ∀ e ∈ es, e.Grouped) : (oneOf es).Grouped := by
  induction es with
  | nil => trivial
  | cons e rest ih =>
    obtain ⟨first, later⟩ := List.forall_mem_cons.mp each
    cases rest with
    | nil => exact first
    | cons next rest => exact ⟨first, ih later⟩

/-- In a text of one line a run reaches from any place to any later one. -/
theorem spans_run (oneLine : ∀ c ∈ text, c ∉ newlines) : (run : Expr π).Spans patterns text i j ↔ i ≤ j ∧ j ≤ text.length :=
  ⟨fun spans => ⟨spans.1, spans.2.1⟩,
    fun bounds => ⟨bounds.1, bounds.2, fun c member => oneLine c (List.mem_of_mem_take (List.mem_of_mem_drop member))⟩⟩

/-- An expression after any run from the start is found wherever it matches. -/
theorem spans_after_run (oneLine : ∀ c ∈ text, c ∉ newlines) :
    (∃ j, (seq run e).Spans patterns text 0 j) ↔ e.Found patterns text := by
  constructor
  · rintro ⟨j, k, before, spans⟩
    exact ⟨k, j, ((spans_run oneLine).mp before).2, spans⟩
  · rintro ⟨k, j, inside, spans⟩
    exact ⟨j, k, (spans_run oneLine).mpr ⟨Nat.zero_le k, inside⟩, spans⟩

/-- An expression at the start of the text is found where it matches there. -/
theorem found_start : (seq start e).Found patterns text ↔ ∃ j, e.Spans patterns text 0 j := by
  constructor
  · rintro ⟨_, j, -, _, ⟨rfl, rfl⟩, spans⟩
    exact ⟨j, spans⟩
  · rintro ⟨j, spans⟩
    exact ⟨0, j, Nat.zero_le _, 0, ⟨rfl, rfl⟩, spans⟩

theorem spans_never : (∃ j, (seq (never a) b).Spans patterns text i j) ↔
    (¬ ∃ k, a.Spans patterns text i k) ∧ ∃ j, b.Spans patterns text i j := by
  constructor
  · rintro ⟨j, _, ⟨rfl, none⟩, spans⟩
    exact ⟨none, j, spans⟩
  · rintro ⟨none, j, spans⟩
    exact ⟨j, i, ⟨rfl, none⟩, spans⟩

end Expr

end NixHomeServer.Library
