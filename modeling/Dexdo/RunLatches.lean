import Mathlib.Data.List.Induction
import Dexdo.TransactionSystem

/-! # Latches along a run

A condition that one transaction sets and that only certain transactions clear. -/
namespace TransactionSystem

variable {σ α ε : Type} {exec : α → σ → Except ε σ} {Φ : σ → α → Prop}
  {s₀ s : σ} {l l₁ l₂ l₃ : List (Record σ α)} {r r₁ r₂ : Record σ α}

theorem Run.last (h : Run exec Φ s₀ (l ++ [r]) s) :
    Run exec Φ s₀ l r.pre ∧ exec r.act r.pre = .ok r.post ∧ s = r.post := by
  generalize hl : l ++ [r] = k at h
  cases h with
  | nil => simp at hl
  | @snoc k a b t hrun _ he =>
    obtain ⟨rfl, hr⟩ := List.append_inj' hl rfl
    cases hr
    exact ⟨hrun, he, rfl⟩

def history (next : α → σ → σ) : List α → σ → List (Record σ α)
  | [], _ => []
  | a :: as, s => ⟨s, a, next a s⟩ :: history next as (next a s)

theorem Run.history {next : α → σ → σ} (hnext : ∀ a s, exec a s = .ok (next a s))
    (hΦ : ∀ s a, Φ s a) (as : List α) : ∀ {l : List (Record σ α)} {s : σ}, Run exec Φ s₀ l s →
      ∃ t, Run exec Φ s₀ (l ++ TransactionSystem.history next as s) t := by
  induction as with
  | nil =>
    intro l s h
    exact ⟨s, by simpa [TransactionSystem.history] using h⟩
  | cons a as ih =>
    intro l s h
    obtain ⟨t, ht⟩ := ih (h.snoc (hΦ s a) (hnext a s))
    exact ⟨t, by simpa [TransactionSystem.history] using ht⟩

theorem Run.latch {I : σ → Prop} {Clears : Record σ α → Prop}
    (hkeep : ∀ r : Record σ α, exec r.act r.pre = .ok r.post → I r.pre → ¬ Clears r → I r.post)
    (h : Run exec Φ s₀ (l₁ ++ r₁ :: l₂) s) (hset : I r₁.post) :
    (∃ r ∈ l₂, Clears r) ∨ I s := by
  induction l₂ using List.reverseRecOn generalizing s with
  | nil =>
    obtain ⟨_, _, rfl⟩ := h.last
    exact .inr hset
  | append_singleton l₂ r ih =>
    have hassoc : l₁ ++ r₁ :: (l₂ ++ [r]) = (l₁ ++ r₁ :: l₂) ++ [r] := by simp
    rw [hassoc] at h
    obtain ⟨hrun, he, rfl⟩ := h.last
    by_cases hc : Clears r
    · exact .inl ⟨r, by simp, hc⟩
    · rcases ih hrun with ⟨q, hq, hc'⟩ | hI
      · exact .inl ⟨q, by simp [hq], hc'⟩
      · exact .inr (hkeep r he hI hc)

theorem Run.cleared_between {I : σ → Prop} {Clears : Record σ α → Prop}
    (hkeep : ∀ r : Record σ α, exec r.act r.pre = .ok r.post → I r.pre → ¬ Clears r → I r.post)
    (h : Run exec Φ s₀ (l₁ ++ r₁ :: l₂ ++ r₂ :: l₃) s) (hset : I r₁.post)
    (habsent : ¬ I r₂.pre) : ∃ r ∈ l₂, Clears r := by
  obtain ⟨hrun, _, _⟩ := h.split rfl
  rcases hrun.latch hkeep hset with hc | hI
  · exact hc
  · exact absurd hI habsent

end TransactionSystem
