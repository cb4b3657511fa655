/-! A transaction as its caller sees it: it commits, it is refused, or it commits
while the answer is lost. A result of `none` rolls back. -/
namespace NixHomeServer.Library

inductive Outcome
  | done | lost | refused
  deriving DecidableEq, Repr

variable {σ β : Type}

/-- One transaction under an outcome: the store it leaves and the answer the caller sees. -/
def commit (o : Outcome) (s : σ) (result : Option (σ × β)) : σ × Option β :=
  match result with
  | none => (s, none)
  | some (s', answer) =>
    match o with
    | .done => (s', some answer)
    | .lost => (s', none)
    | .refused => (s, none)

theorem commit_cases (o : Outcome) (s : σ) (result : Option (σ × β)) :
    ((commit o s result).1 = s ∧ (commit o s result).2 = none) ∨
      ∃ s' answer, result = some (s', answer) ∧ (commit o s result).1 = s' ∧
        ((commit o s result).2 = some answer ∨ (commit o s result).2 = none) := by
  cases result with
  | none => exact Or.inl ⟨rfl, rfl⟩
  | some pair =>
    obtain ⟨s', answer⟩ := pair
    cases o with
    | done => exact Or.inr ⟨s', answer, rfl, rfl, Or.inl rfl⟩
    | lost => exact Or.inr ⟨s', answer, rfl, rfl, Or.inr rfl⟩
    | refused => exact Or.inl ⟨rfl, rfl⟩

end NixHomeServer.Library
