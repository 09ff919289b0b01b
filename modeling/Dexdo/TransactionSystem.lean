import Mathlib.Data.List.Basic

/-! Accounts that execute one transaction at a time. A transaction is either refused, leaving the
account as it was, or accepted with one new state. -/
namespace TransactionSystem

variable {σ α ε : Type}

/-- States reached from an initial one by accepted transactions that all meet `Φ`. -/
inductive Reachable (init : σ → Prop) (exec : α → σ → Except ε σ) (Φ : σ → α → Prop) :
    σ → Prop where
  | start {s} : init s → Reachable init exec Φ s
  | step {s a t} : Reachable init exec Φ s → Φ s a → exec a s = .ok t →
      Reachable init exec Φ t

variable {init : σ → Prop} {exec : α → σ → Except ε σ} {Φ Ψ : σ → α → Prop}

theorem Reachable.mono (hΦ : ∀ s a, Φ s a → Ψ s a) {s : σ}
    (h : Reachable init exec Φ s) : Reachable init exec Ψ s := by
  induction h with
  | start h => exact .start h
  | step _ ha he ih => exact .step ih (hΦ _ _ ha) he

theorem Reachable.invariant {I : σ → Prop} (h0 : ∀ s, init s → I s)
    (hs : ∀ s a t, I s → Φ s a → exec a s = .ok t → I t) {s : σ}
    (h : Reachable init exec Φ s) : I s := by
  induction h with
  | start h => exact h0 _ h
  | step _ ha he ih => exact hs _ _ _ ih ha he

structure Record (σ α : Type) where
  pre : σ
  act : α
  post : σ

/-- A run with its history, oldest transaction first. -/
inductive Run (exec : α → σ → Except ε σ) (Φ : σ → α → Prop) (s₀ : σ) :
    List (Record σ α) → σ → Prop where
  | nil : Run exec Φ s₀ [] s₀
  | snoc {l s a t} : Run exec Φ s₀ l s → Φ s a → exec a s = .ok t →
      Run exec Φ s₀ (l ++ [⟨s, a, t⟩]) t

theorem Run.reachable {s₀ s : σ} {l : List (Record σ α)}
    (h : Run exec Φ s₀ l s) (h0 : Reachable init exec Φ s₀) : Reachable init exec Φ s := by
  induction h with
  | nil => exact h0
  | snoc _ ha he ih => exact .step ih ha he

theorem Run.mono (hΦ : ∀ s a, Φ s a → Ψ s a) {s₀ s : σ} {l : List (Record σ α)}
    (h : Run exec Φ s₀ l s) : Run exec Ψ s₀ l s := by
  induction h with
  | nil => exact .nil
  | snoc _ ha he ih => exact .snoc ih (hΦ _ _ ha) he

theorem Run.invariant {I : List (Record σ α) → σ → Prop} {s₀ s : σ}
    {l : List (Record σ α)} (h0 : I [] s₀)
    (hs : ∀ l s a t, I l s → Φ s a → exec a s = .ok t → I (l ++ [⟨s, a, t⟩]) t)
    (h : Run exec Φ s₀ l s) : I l s := by
  induction h with
  | nil => exact h0
  | snoc _ ha he ih => exact hs _ _ _ _ ih ha he

theorem Run.split {s₀ s : σ} {l : List (Record σ α)} (h : Run exec Φ s₀ l s) :
    ∀ {l₁ l₂ : List (Record σ α)} {r : Record σ α}, l = l₁ ++ r :: l₂ →
      Run exec Φ s₀ l₁ r.pre ∧ Φ r.pre r.act ∧ exec r.act r.pre = .ok r.post := by
  induction h with
  | nil =>
    intro l₁ l₂ r hl
    simp at hl
  | @snoc l s a t hrun ha he ih =>
    intro l₁ l₂ r hl
    rcases List.eq_nil_or_concat l₂ with rfl | ⟨l₃, x, rfl⟩
    · obtain ⟨rfl, hr⟩ := List.append_inj' hl rfl
      cases hr
      exact ⟨hrun, ha, he⟩
    · have hassoc : l ++ [⟨s, a, t⟩] = (l₁ ++ r :: l₃) ++ [x] := by simpa using hl
      exact ih (List.append_inj' hassoc rfl).1

def attempt (exec : α → σ → Except ε σ) (s : σ) (a : α) : σ :=
  match exec a s with
  | .ok t => t
  | .error _ => s

theorem attempt_ok {s t : σ} {a : α} (h : exec a s = .ok t) : attempt exec s a = t := by
  simp [attempt, h]

theorem attempt_refused {s : σ} {a : α} (h : ∀ t, exec a s ≠ .ok t) : attempt exec s a = s := by
  unfold attempt
  split
  · rename_i t ht
    exact absurd ht (h t)
  · rfl

def accepts (exec : α → σ → Except ε σ) (s : σ) (a : α) : Bool := (exec a s).toOption.isSome

theorem accepts_ok {s t : σ} {a : α} (h : exec a s = .ok t) : accepts exec s a = true := by
  simp [accepts, h, Except.toOption]

theorem accepts_refused {s : σ} {a : α} (h : ∀ t, exec a s ≠ .ok t) : accepts exec s a = false := by
  unfold accepts
  cases he : exec a s with
  | error e => rfl
  | ok t => exact absurd he (h t)

def after (exec : α → σ → Except ε σ) (l : List α) (s : σ) : σ := l.foldl (attempt exec) s

def verdicts (exec : α → σ → Except ε σ) : List α → σ → List (α × Bool)
  | [], _ => []
  | a :: l, s => (a, accepts exec s a) :: verdicts exec l (attempt exec s a)

/-- The same, without the transactions that `skip` marks where they are met. -/
def outcomes (exec : α → σ → Except ε σ) (skip : σ → α → Bool) : List α → σ → List (α × Bool)
  | [], _ => []
  | a :: l, s =>
    if skip s a then outcomes exec skip l (attempt exec s a)
    else (a, accepts exec s a) :: outcomes exec skip l (attempt exec s a)

/-- The stuttering rule: where a relation indexed by the schedule ahead survives a skipped
transaction on one side and a kept one on both, with the same verdict, the schedule fares as its
kept part does alone. -/
theorem outcomes_of_simulation {skip : σ → α → Bool} {Sim : List α → σ → σ → Prop}
    (hskip : ∀ a l z e, Sim (a :: l) z e → skip e a = true → Sim l z (attempt exec e a))
    (hkeep : ∀ a l z e, Sim (a :: l) z e → skip e a = false →
      accepts exec z a = accepts exec e a ∧ Sim l (attempt exec z a) (attempt exec e a)) :
    ∀ (l : List α) {z e : σ}, Sim l z e →
      outcomes exec skip l e = verdicts exec ((outcomes exec skip l e).map Prod.fst) z ∧
      Sim [] (after exec ((outcomes exec skip l e).map Prod.fst) z) (after exec l e) := by
  intro l
  induction l with
  | nil =>
    intro z e h
    exact ⟨rfl, h⟩
  | cons a l ih =>
    intro z e h
    simp only [outcomes]
    cases hs : skip e a with
    | true =>
      rw [if_pos rfl]
      exact ih (hskip a l z e h hs)
    | false =>
      obtain ⟨hacc, hnext⟩ := hkeep a l z e h hs
      obtain ⟨hout, hsim⟩ := ih hnext
      rw [if_neg (by simp)]
      refine ⟨?_, hsim⟩
      simp only [List.map_cons, verdicts, hacc]
      rw [← hout]

/-- A fixed schedule in which every transaction meets `Φ` and is accepted. -/
def play (exec : α → σ → Except ε σ) (Φ : σ → α → Prop) [∀ s a, Decidable (Φ s a)] :
    List α → σ → Option σ
  | [], s => some s
  | a :: l, s =>
    if Φ s a then
      match exec a s with
      | .ok t => play exec Φ l t
      | .error _ => none
    else none

attribute [grind =] attempt verdicts play

theorem Reachable.play [∀ s a, Decidable (Φ s a)] {l : List α} :
    ∀ {s t : σ}, Reachable init exec Φ s → play exec Φ l s = some t →
      Reachable init exec Φ t := by
  induction l with
  | nil =>
    intro s t h hp
    cases hp
    exact h
  | cons a l ih =>
    intro s t h hp
    simp only [TransactionSystem.play] at hp
    split at hp
    · rename_i hΦ
      split at hp
      · rename_i u hu
        exact ih (.step h hΦ hu) hp
      · cases hp
    · cases hp

theorem play_cons [∀ s a, Decidable (Φ s a)] {a : α} {l : List α} {s u t : σ} (ha : Φ s a)
    (he : exec a s = .ok u) (h : play exec Φ l u = some t) : play exec Φ (a :: l) s = some t := by
  simp only [play, ha, if_true, he, h]

theorem play_append [∀ s a, Decidable (Φ s a)] {l k : List α} :
    ∀ {s u t : σ}, play exec Φ l s = some u → play exec Φ k u = some t →
      play exec Φ (l ++ k) s = some t := by
  induction l with
  | nil =>
    intro s u t hl hk
    cases hl
    exact hk
  | cons a l ih =>
    intro s u t hl hk
    simp only [play] at hl
    split at hl
    · rename_i ha
      split at hl
      · rename_i v hv
        exact play_cons ha hv (ih hl hk)
      · cases hl
    · cases hl

theorem Run.play [∀ s a, Decidable (Φ s a)] {s₀ : σ} {l : List α} :
    ∀ {s t : σ} {h : List (Record σ α)}, Run exec Φ s₀ h s → play exec Φ l s = some t →
      ∃ h', Run exec Φ s₀ (h ++ h') t ∧ h'.map (·.act) = l := by
  induction l with
  | nil =>
    intro s t h hr hp
    cases hp
    exact ⟨[], by simpa using hr, rfl⟩
  | cons a l ih =>
    intro s t h hr hp
    simp only [TransactionSystem.play] at hp
    split at hp
    · rename_i hΦ
      split at hp
      · rename_i u hu
        obtain ⟨h', hrun, hacts⟩ := ih (.snoc hr hΦ hu) hp
        exact ⟨⟨s, a, u⟩ :: h', by simpa using hrun, by simp [hacts]⟩
      · cases hp
    · cases hp

end TransactionSystem
