import Mathlib.Algebra.Group.Nat.Defs
import NixHomeServer.Library.Utf8

/-! Segments of byte strings, little-endian words in them, and decoding as UTF-8. -/
namespace NixHomeServer.Library

variable {α : Type}

def segment (items : List α) (start length : Nat) : Option (List α) :=
  if start + length ≤ items.length then some ((items.drop start).take length) else none

variable {items part : List α} {start length : Nat}

theorem segment_eq_some : segment items start length = some part ↔
    start + length ≤ items.length ∧ (items.drop start).take length = part := by
  unfold segment
  split
  · rename_i inside
    rw [Option.some.injEq, and_iff_right inside]
  · rename_i outside
    exact ⟨nofun, fun both => absurd both.1 outside⟩

theorem segment_of_le (inside : start + length ≤ items.length) :
    segment items start length = some ((items.drop start).take length) := by
  rw [segment, if_pos inside]

theorem length_segment (cut : segment items start length = some part) : part.length = length := by
  obtain ⟨inside, rfl⟩ := segment_eq_some.mp cut
  rw [List.length_take, List.length_drop]
  omega

theorem inside_of_segment (cut : segment items start length = some part) : start + length ≤ items.length :=
  (segment_eq_some.mp cut).1

/-- A segment of a segment is one of the whole. -/
theorem segment_segment (cut : segment items start length = some part) {offset width : Nat} (inside : offset + width ≤ length) :
    segment part offset width = segment items (start + offset) width := by
  have long := length_segment cut
  obtain ⟨fits, rfl⟩ := segment_eq_some.mp cut
  rw [segment_of_le (by omega), segment_of_le (by omega), List.drop_take, List.take_take, List.drop_drop]
  rw [Nat.min_eq_left (by omega)]

theorem segment_of_mark [BEq α] [LawfulBEq α] {mark : List α} (reach : start ≤ items.length)
    (starts : mark.isPrefixOf (items.drop start) = true) : segment items start mark.length = some mark := by
  obtain ⟨rest, split⟩ := List.isPrefixOf_iff_prefix.mp starts
  have long := congrArg List.length split
  rw [List.length_append, List.length_drop] at long
  rw [segment_of_le (by omega), ← split, List.take_left']
  rfl

def littleEndian : List UInt8 → Nat
  | [] => 0
  | b :: rest => b.toNat + 256 * littleEndian rest

theorem littleEndian_lt (bytes : List UInt8) : littleEndian bytes < 256 ^ bytes.length := by
  induction bytes with
  | nil => exact Nat.one_pos
  | cons b rest ih =>
    have byte : b.toNat < 256 := b.toNat_lt
    rw [littleEndian, List.length_cons, Nat.pow_succ]
    omega

/-- The word of so many bytes at a position, where the bytes reach that far. -/
def word (width : Nat) (bytes : List UInt8) (position : Nat) : Option Nat :=
  (segment bytes position width).map littleEndian

variable {bytes h : List UInt8} {width position n : Nat}

theorem word_of_le (inside : position + width ≤ bytes.length) : ∃ n, word width bytes position = some n :=
  ⟨_, by rw [word, segment_of_le inside, Option.map_some]⟩

theorem word_lt (read : word width bytes position = some n) : n < 256 ^ width := by
  obtain ⟨part, cut, rfl⟩ := Option.map_eq_some_iff.mp read
  have bound := littleEndian_lt part
  rwa [length_segment cut] at bound

theorem word_segment (cut : segment bytes start length = some h) (inside : position + width ≤ length) :
    word width h position = word width bytes (start + position) := by
  rw [word, segment_segment cut inside, word]

end NixHomeServer.Library
