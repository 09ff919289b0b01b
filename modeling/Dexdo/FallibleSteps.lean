import Mathlib.Logic.Basic

/-! What the success of a fallible computation says about its steps. -/
namespace FallibleSteps

variable {ε α β : Type} {err : ε} {x : Except ε α} {f : α → Except ε β} {y : β} {z : α}

theorem bind_ok : x >>= f = .ok y ↔ ∃ a, x = .ok a ∧ f a = .ok y := by
  cases x with
  | error err => exact ⟨nofun, nofun⟩
  | ok a => exact ⟨fun h => ⟨a, rfl, h⟩, fun ⟨_, h, hf⟩ => Except.ok.inj h ▸ hf⟩

theorem refuse_ok {p : Prop} [Decidable p] :
    (if p then .error err else x) = .ok z ↔ ¬ p ∧ x = .ok z := by
  by_cases hp : p
  · rw [if_pos hp]
    exact ⟨nofun, fun h => absurd hp h.1⟩
  · rw [if_neg hp]
    exact ⟨fun h => ⟨hp, h⟩, And.right⟩

end FallibleSteps
