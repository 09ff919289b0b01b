import Mathlib

/-! # The longest prefix a grant pays for

A list of items with costs, and the longest prefix of it whose costs a budget covers. -/
namespace GrantedPrefix

variable {α : Type} (cost : α → ℕ)

def total (l : List α) : ℕ := (l.map cost).sum

def fitting : ℕ → List α → List α
  | _, [] => []
  | budget, a :: l => if cost a ≤ budget then a :: fitting (budget - cost a) l else []

variable {cost} {a : α} {l p : List α} {budget : ℕ}

@[simp] theorem total_nil : total cost [] = 0 := rfl

@[simp] theorem total_cons : total cost (a :: l) = cost a + total cost l := rfl

@[simp] theorem total_append : total cost (p ++ l) = total cost p + total cost l := by
  simp [total]

theorem total_eq_zero (h : ∀ a, 0 < cost a) : total cost l = 0 ↔ l = [] := by
  cases l with
  | nil => simp
  | cons a l =>
    have ha := h a
    simp only [total_cons, List.cons_ne_nil, iff_false]
    omega

theorem fitting_initial : ∀ (l : List α) (budget : ℕ), fitting cost budget l <+: l
  | [], _ => List.prefix_rfl
  | a :: l, budget => by
    unfold fitting
    split
    · exact (List.prefix_cons_inj a).mpr (fitting_initial l _)
    · exact List.nil_prefix

theorem fitting_append (h : total cost p ≤ budget) :
    fitting cost budget (p ++ l) = p ++ fitting cost (budget - total cost p) l := by
  induction p generalizing budget with
  | nil => simp
  | cons b p ih =>
    rw [total_cons] at h
    have hb : cost b ≤ budget := by omega
    have hp : total cost p ≤ budget - cost b := by omega
    simp only [List.cons_append, fitting, if_pos hb, ih hp, total_cons]
    rw [Nat.sub_sub]

theorem fitting_longest (hp : p <+: l) (h : total cost p ≤ budget) :
    p <+: fitting cost budget l := by
  obtain ⟨rest, rfl⟩ := hp
  rw [fitting_append h]
  exact List.prefix_append p _

theorem fitting_cons_over (h : budget < cost a) : fitting cost budget (a :: l) = [] := by
  unfold fitting
  rw [if_neg (Nat.not_le.mpr h)]

theorem prefix_unique (h : ∀ a, 0 < cost a) {q : List α} (hp : p <+: l) (hq : q <+: l)
    (htotal : total cost p = total cost q) : p = q := by
  have grows {p q : List α} (hpq : p <+: q) (htotal : total cost p = total cost q) : p = q := by
    obtain ⟨more, rfl⟩ := hpq
    cases more with
    | nil => exact (List.append_nil p).symm
    | cons a more =>
      have ha := h a
      rw [total_append, total_cons] at htotal
      omega
  rcases List.prefix_or_prefix_of_prefix hp hq with hpq | hqp
  · exact grows hpq htotal
  · exact (grows hqp htotal.symm).symm

end GrantedPrefix
