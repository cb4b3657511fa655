import Mathlib.Data.List.Basic

/-! Records written one field at a time, against records written as a whole.
A record is its value at each field. A writer that replaces the whole record by
its writes over an old copy leaves what the writes alone would leave exactly if
the copy is up to date at the fields it does not write. -/
namespace NixHomeServer.Library.Writes

variable {φ υ : Type} [DecidableEq φ]

/-- The last value written to a field, or the one at the start. -/
def lastWritten (start : φ → υ) (writes : List (φ × υ)) (field : φ) : υ :=
  ((writes.reverse.find? fun w => w.1 == field).map Prod.snd).getD (start field)

@[simp] theorem lastWritten_nil (start : φ → υ) : lastWritten start [] = start := rfl

theorem lastWritten_append (start : φ → υ) (early late : List (φ × υ)) :
    lastWritten start (early ++ late) = lastWritten (lastWritten start early) late := by
  funext field
  simp only [lastWritten, List.reverse_append, List.find?_append]
  cases late.reverse.find? fun w => w.1 == field <;> rfl

theorem lastWritten_single (start : φ → υ) (w : φ × υ) (field : φ) :
    lastWritten start [w] field = if w.1 = field then w.2 else start field := by
  simp only [lastWritten, List.reverse_singleton, List.find?_singleton, beq_iff_eq]
  split <;> rfl

theorem lastWritten_of_not_mem (start : φ → υ) {writes : List (φ × υ)} {field : φ}
    (unwritten : field ∉ writes.map Prod.fst) : lastWritten start writes field = start field := by
  have nowhere : writes.reverse.find? (fun w => w.1 == field) = none := by
    refine List.find?_eq_none.mpr fun w member equal => unwritten ?_
    exact List.mem_map.mpr ⟨w, List.mem_reverse.mp member, beq_iff_eq.mp equal⟩
  simp only [lastWritten, nowhere, Option.map_none, Option.getD_none]

/-- A written field does not depend on the record it was written over. -/
theorem lastWritten_of_mem (start other : φ → υ) {writes : List (φ × υ)} {field : φ}
    (written : field ∈ writes.map Prod.fst) : lastWritten start writes field = lastWritten other writes field := by
  obtain ⟨w, member, rfl⟩ := List.mem_map.mp written
  cases found : writes.reverse.find? fun v => v.1 == w.1 with
  | some v => simp only [lastWritten, found, Option.map_some, Option.getD_some]
  | none => exact absurd (beq_self_eq_true w.1) (List.find?_eq_none.mp found w (List.mem_reverse.mpr member))

/-- Writes over an old copy have the effect of the writes exactly if the copy is up to date elsewhere. -/
theorem lastWritten_copy (copy current : φ → υ) (writes : List (φ × υ)) :
    lastWritten copy writes = lastWritten current writes ↔
      ∀ field, field ∉ writes.map Prod.fst → copy field = current field := by
  constructor
  · intro same field unwritten
    have here := congrFun same field
    rwa [lastWritten_of_not_mem copy unwritten, lastWritten_of_not_mem current unwritten] at here
  · intro fresh
    funext field
    by_cases written : field ∈ writes.map Prod.fst
    · exact lastWritten_of_mem copy current written
    · rw [lastWritten_of_not_mem copy written, lastWritten_of_not_mem current written]
      exact fresh field written

end NixHomeServer.Library.Writes
