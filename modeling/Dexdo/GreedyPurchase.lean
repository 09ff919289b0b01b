import Mathlib

/-! # Buying from the cheapest offers first

Offers of a number of units at a price each. What the cheapest offers come to is the least any
choice of as many units can cost. -/
namespace GreedyPurchase

abbrev Offer := ℕ × ℕ

def Selection (l : List Offer) (x : List ℕ) : Prop := List.Forall₂ (fun o k => k ≤ o.1) l x

def cost (l : List Offer) (x : List ℕ) : ℕ := (List.zipWith (fun o k => k * o.2) l x).sum

def capacity (l : List Offer) : ℕ := (l.map Prod.fst).sum

def take : List Offer → ℕ → List ℕ
  | [], _ => []
  | o :: l, n => min o.1 n :: take l (n - min o.1 n)

def least (l : List Offer) (n : ℕ) : ℕ := cost l (take l n)

def Sorted (l : List Offer) : Prop := l.Pairwise fun o p => o.2 ≤ p.2

variable {l : List Offer} {o : Offer} {x : List ℕ} {n s d u : ℕ}

@[simp] theorem least_nil : least [] n = 0 := rfl

@[simp] theorem least_cons : least (o :: l) n = min o.1 n * o.2 + least l (n - min o.1 n) := by
  simp [least, cost, take]

@[simp] theorem capacity_cons : capacity (o :: l) = o.1 + capacity l := by simp [capacity]

theorem take_selection : ∀ (l : List Offer) (n : ℕ), Selection l (take l n)
  | [], _ => .nil
  | _ :: l, _ => .cons (min_le_left _ _) (take_selection l _)

theorem take_sum : ∀ (l : List Offer) (n : ℕ), (take l n).sum = min n (capacity l)
  | [], n => by simp [take, capacity]
  | o :: l, n => by
    rw [take, List.sum_cons, take_sum l, capacity_cons]
    omega

theorem Selection.sum_le (h : Selection l x) : x.sum ≤ capacity l := by
  induction h with
  | nil => exact Nat.zero_le _
  | cons hk _ ih =>
    rw [List.sum_cons, capacity_cons]
    omega

theorem sum_le_cost (hpos : ∀ o ∈ l, 0 < o.2) (h : Selection l x) : x.sum ≤ cost l x := by
  induction h with
  | nil => exact Nat.zero_le _
  | @cons o k l x _ _ ih =>
    obtain ⟨ho, hl⟩ := List.forall_mem_cons.mp hpos
    have hk : k ≤ k * o.2 := Nat.le_mul_of_pos_right k ho
    have hx := ih hl
    simp only [cost, List.zipWith_cons_cons, List.sum_cons] at hx ⊢
    omega

theorem least_zero : least l 0 = 0 := by
  induction l with
  | nil => rfl
  | cons o l ih => simp [ih]

theorem least_add (hu : ∀ o ∈ l, u ≤ o.2) (h : s + d ≤ capacity l) :
    least l s + d * u ≤ least l (s + d) := by
  induction l generalizing s d with
  | nil =>
    have hd : d = 0 := by
      simp only [capacity, List.map_nil, List.sum_nil] at h
      omega
    simp [hd]
  | cons o l ih =>
    obtain ⟨ho, hl⟩ := List.forall_mem_cons.mp hu
    rw [capacity_cons] at h
    -- of the further units `e` come from this offer and `f` from those behind it
    obtain ⟨e, he⟩ : ∃ e, min o.1 (s + d) = min o.1 s + e := ⟨min o.1 (s + d) - min o.1 s, by omega⟩
    obtain ⟨f, hf⟩ : ∃ f, d = e + f := ⟨d - e, by omega⟩
    have hrest : s + d - min o.1 (s + d) = (s - min o.1 s) + f := by omega
    have htail := ih (s := s - min o.1 s) (d := f) hl (by omega)
    have hhead : e * u ≤ e * o.2 := Nat.mul_le_mul_left e ho
    rw [least_cons, least_cons, hrest, he, hf, Nat.add_mul, Nat.add_mul]
    omega

/-- No choice of as many units is cheaper. -/
theorem least_le (hsorted : Sorted l) (hx : Selection l x) (h : n ≤ x.sum) :
    least l n ≤ cost l x := by
  induction l generalizing x n with
  | nil => exact Nat.zero_le _
  | cons o l ih =>
    cases hx with
    | @cons _ k _ x hk hx =>
      obtain ⟨hfirst, hsorted⟩ := List.pairwise_cons.mp hsorted
      rw [List.sum_cons] at h
      have hcost : cost (o :: l) (k :: x) = k * o.2 + cost l x := by simp [cost]
      rw [hcost, least_cons]
      by_cases hle : k ≤ min o.1 n
      · -- the units of `k` that are short are the dearer ones further on
        obtain ⟨e, he⟩ : ∃ e, min o.1 n = k + e := ⟨min o.1 n - k, by omega⟩
        have hcap := Selection.sum_le hx
        have hshort := ih hsorted hx (n := n - k) (by omega)
        have hgap := least_add (s := n - min o.1 n) (d := e) hfirst (by omega)
        rw [show n - min o.1 n + e = n - k by omega] at hgap
        rw [he, Nat.add_mul]
        rw [he] at hgap
        omega
      · have hall : n - min o.1 n = 0 := by omega
        rw [hall, least_zero]
        exact (Nat.mul_le_mul_right _ (by omega)).trans (Nat.le_add_right _ _)

end GreedyPurchase
