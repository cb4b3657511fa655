import NixHomeServer.Library.Numerals
import NixHomeServer.Library.Text

/-! A single byte range as it is written, with a given way to write numbers, and the positions
that it selects of a representation. -/
namespace NixHomeServer.Library

inductive ByteRange where
  | int (first : Nat) (last : Option Nat)
  | suffix (length : Nat)
  deriving DecidableEq, Repr

namespace ByteRange

/-- The last position or the length of the suffix, where one is written. -/
def limit : ByteRange → Option Nat
  | .int _ last => last
  | .suffix length => some length

/-- The first and the last position selected, where the range can be satisfied and is not inverted. -/
def selects (size : Nat) : ByteRange → Option (Nat × Nat)
  | .int first none => if first < size then some (first, size - 1) else none
  | .int first (some last) => if first < size ∧ first ≤ last then some (first, min last (size - 1)) else none
  | .suffix length => if 0 < length ∧ 0 < size then some (size - length, size - 1) else none

/-- `number` reads a number. -/
inductive Written (number : List Char → Option Nat) : List Char → ByteRange → Prop
  | open' {a : List Char} {first : Nat} (begins : number a = some first) : Written number (a ++ ['-']) (.int first none)
  | closed {a b : List Char} {first last : Nat} (begins : number a = some first) (ends : number b = some last) :
    Written number (a ++ '-' :: b) (.int first (some last))
  | suffix {b : List Char} {length : Nat} (counts : number b = some length) : Written number ('-' :: b) (.suffix length)

variable {size start stop : Nat} {range range' : ByteRange} {text a b : List Char} {number : List Char → Option Nat}

theorem selects_within (selected : range.selects size = some (start, stop)) : start ≤ stop ∧ stop < size := by
  cases range with
  | int first last =>
    cases last <;> simp [selects] at selected <;> omega
  | suffix length =>
    simp [selects] at selected
    omega

/-- The parts of a written range, before and after its first dash. -/
def parts (number : List Char → Option Nat) (a b : List Char) : Option ByteRange :=
  if a = [] then (number b).map .suffix
  else if b = [] then (number a).map fun first => .int first none
  else (number a).bind fun first => (number b).map fun last => .int first (some last)

theorem written_iff (undashed : ∀ text n, number text = some n → text ≠ [] ∧ '-' ∉ text) :
    Written number text range ↔ ∃ a b, cutAt '-' text = some (a, b) ∧ parts number a b = some range := by
  constructor
  · intro written
    cases written with
    | open' begins =>
      obtain ⟨filled, absent⟩ := undashed _ _ begins
      exact ⟨_, [], cutAt_append '-' [] absent, by simp [parts, filled, begins]⟩
    | closed begins ends =>
      obtain ⟨filled, absent⟩ := undashed _ _ begins
      exact ⟨_, _, cutAt_append '-' _ absent, by simp [parts, filled, (undashed _ _ ends).1, begins, ends]⟩
    | suffix counts => exact ⟨[], _, cutAt_append '-' _ List.not_mem_nil, by simp [parts, counts]⟩
  · rintro ⟨a, b, cut, read⟩
    obtain ⟨rfl, -⟩ := cutAt_eq_some cut
    unfold parts at read
    split at read
    · rename_i empty
      obtain ⟨length, counts, rfl⟩ := Option.map_eq_some_iff.mp read
      rw [empty]
      exact .suffix counts
    · split at read
      · rename_i empty
        obtain ⟨first, begins, rfl⟩ := Option.map_eq_some_iff.mp read
        rw [empty]
        exact .open' begins
      · obtain ⟨first, begins, rest⟩ := Option.bind_eq_some_iff.mp read
        obtain ⟨last, ends, rfl⟩ := Option.map_eq_some_iff.mp rest
        exact .closed begins ends

/-- Every number written in the range is below a bound. -/
def Below (bound : Nat) : ByteRange → Prop
  | .int first last => first < bound ∧ ∀ n ∈ last, n < bound
  | .suffix length => length < bound

theorem below_iff {bound : Nat} (selected : (range.selects size).isSome) (small : size ≤ bound) :
    range.Below bound ↔ ∀ n ∈ range.limit, n < bound := by
  cases range with
  | suffix length => simp [Below, limit]
  | int first last =>
    have begins : first < size := by
      by_contra beyond
      cases last <;> simp [selects, beyond] at selected
    simp [Below, limit, begins.trans_le small]

theorem Written.mono {number' : List Char → Option Nat} (written : Written number text range)
    (more : ∀ part n, (∀ c ∈ part, c ∈ text) → number part = some n → number' part = some n) :
    Written number' text range := by
  cases written with
  | open' begins =>
    exact .open' (more _ _ (fun c member => List.mem_append_left _ member) begins)
  | closed begins ends =>
    refine .closed (more _ _ (fun c member => List.mem_append_left _ member) begins) (more _ _ ?_ ends)
    exact fun c member => List.mem_append_right _ (List.mem_cons_of_mem _ member)
  | suffix counts =>
    exact .suffix (more _ _ (fun c member => List.mem_cons_of_mem _ member) counts)

theorem Written.chars {P : Char → Prop} (written : Written number text range) (dash : P '-')
    (numbers : ∀ part n, number part = some n → ∀ c ∈ part, P c) : ∀ c ∈ text, P c := by
  cases written with
  | open' begins =>
    intro c member
    rcases List.mem_append.mp member with member | member
    · exact numbers _ _ begins c member
    · exact List.mem_singleton.mp member ▸ dash
  | closed begins ends =>
    intro c member
    rcases List.mem_append.mp member with member | member
    · exact numbers _ _ begins c member
    · rcases List.mem_cons.mp member with rfl | member
      · exact dash
      · exact numbers _ _ ends c member
  | suffix counts =>
    simpa using ⟨dash, numbers _ _ counts⟩

/-- Numbers of a bounded type are the numbers below the bound. -/
theorem written_bounded {bound : Nat} {bounded : List Char → Option Nat}
    (bounds : ∀ part, bounded part = (number part).filter (· < bound)) :
    Written bounded text range ↔ Written number text range ∧ range.Below bound := by
  have apart : ∀ part n, bounded part = some n ↔ number part = some n ∧ n < bound := by
    simp [bounds, Option.filter_eq_some_iff]
  constructor
  · intro written
    refine ⟨written.mono fun part n _ read => ((apart part n).mp read).1, ?_⟩
    cases written with
    | open' begins => simpa [Below] using ((apart _ _).mp begins).2
    | closed begins ends => simpa [Below] using ⟨((apart _ _).mp begins).2, ((apart _ _).mp ends).2⟩
    | suffix counts => exact ((apart _ _).mp counts).2
  · rintro ⟨written, below⟩
    cases written with
    | open' begins => exact .open' ((apart _ _).mpr ⟨begins, below.1⟩)
    | closed begins ends => exact .closed ((apart _ _).mpr ⟨begins, below.1⟩) ((apart _ _).mpr ⟨ends, below.2 _ rfl⟩)
    | suffix counts => exact .suffix ((apart _ _).mpr ⟨counts, below⟩)

end ByteRange

end NixHomeServer.Library
