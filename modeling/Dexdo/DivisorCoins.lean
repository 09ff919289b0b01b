import Mathlib.Algebra.BigOperators.Group.List.Basic
import Mathlib.Algebra.Ring.Nat
import Mathlib.Data.Nat.ModEq

/-! # Change in coins that divide each other

Coins are listed from the largest, each a divisor of the one before it. -/
namespace DivisorCoins

structure Coins (ds : List ℕ) : Prop where
  divides : ds.Pairwise fun a b => b ∣ a
  pos : ∀ d ∈ ds, 0 < d

def change : List ℕ → ℕ → List ℕ
  | [], _ => []
  | d :: ds, n => List.replicate (n / d) d ++ change ds (n % d)

def rest : List ℕ → ℕ → ℕ
  | [], n => n
  | d :: ds, n => rest ds (n % d)

variable {d n : ℕ} {ds l : List ℕ}

theorem Coins.tail (h : Coins (d :: ds)) : Coins ds :=
  ⟨h.divides.tail, fun e he => h.pos e (List.mem_cons_of_mem _ he)⟩

theorem Coins.dvd_head (h : Coins (d :: ds)) : ∀ e ∈ ds, e ∣ d := (List.pairwise_cons.mp h.divides).1

theorem change_length : (change (d :: ds) n).length = n / d + (change ds (n % d)).length := by
  rw [change, List.length_append, List.length_replicate]

theorem mem_change : ∀ e ∈ change ds n, e ∈ ds := by
  induction ds generalizing n with
  | nil => nofun
  | cons d ds ih =>
    intro e he
    rcases List.mem_append.mp he with he | he
    · rw [List.eq_of_mem_replicate he]
      exact List.mem_cons_self
    · exact List.mem_cons_of_mem _ (ih e he)

theorem change_sum (ds : List ℕ) (n : ℕ) : (change ds n).sum + rest ds n = n := by
  induction ds generalizing n with
  | nil => exact Nat.zero_add n
  | cons d ds ih =>
    rw [change, List.sum_append, List.sum_replicate, rest, Nat.add_assoc, ih, Nat.nsmul_eq_mul,
      Nat.div_add_mod']

theorem rest_eq_zero (h : 1 ∈ ds) (hpos : ∀ d ∈ ds, 0 < d) : rest ds n = 0 := by
  induction ds generalizing n with
  | nil => cases h
  | cons d ds ih =>
    rw [rest]
    rcases List.mem_cons.mp h with rfl | h
    · rw [Nat.mod_one]
      have hsum := change_sum ds 0
      omega
    · exact ih h fun e he => hpos e (List.mem_cons_of_mem _ he)

theorem change_sorted (h : Coins ds) : (change ds n).Pairwise (· ≥ ·) := by
  induction ds generalizing n with
  | nil => exact List.Pairwise.nil
  | cons d ds ih =>
    rw [change, List.pairwise_append]
    refine ⟨List.pairwise_replicate.mpr (.inr (Nat.le_refl d)), ih h.tail, ?_⟩
    intro a ha b hb
    rw [List.eq_of_mem_replicate ha]
    exact Nat.le_of_dvd (h.pos d List.mem_cons_self) (h.dvd_head b (mem_change b hb))

/-! ## The shortest change -/

theorem change_mod_le (h : Coins ds) (hd : d ∈ ds) :
    (change ds (n % d)).length ≤ (change ds n).length := by
  induction ds generalizing n with
  | nil => cases hd
  | cons e ds ih =>
    have hpos := h.pos
    rcases List.mem_cons.mp hd with rfl | hd
    · rw [change_length, change_length, Nat.mod_mod, Nat.div_eq_of_lt (Nat.mod_lt n (hpos d hd))]
      exact Nat.add_le_add_right (Nat.zero_le _) _
    · have hdvd := h.dvd_head d hd
      have hlt : n % d < e := (Nat.mod_lt n (hpos d (List.mem_cons_of_mem _ hd))).trans_le
        (Nat.le_of_dvd (hpos e List.mem_cons_self) hdvd)
      calc (change (e :: ds) (n % d)).length
          = (change ds (n % e % d)).length := by
            rw [change_length, Nat.div_eq_of_lt hlt, Nat.mod_eq_of_lt hlt, Nat.mod_mod_of_dvd n hdvd,
              Nat.zero_add]
        _ ≤ (change ds (n % e)).length := ih h.tail hd
        _ ≤ (change (e :: ds) n).length := by
            rw [change_length]
            exact Nat.le_add_left ..

/-- One coin more in the amount is at most one more in the change. -/
theorem change_add_le (h : Coins ds) (hd : d ∈ ds) :
    (change ds (n + d)).length ≤ (change ds n).length + 1 := by
  induction ds generalizing n with
  | nil => cases hd
  | cons e ds ih =>
    have he := h.pos e List.mem_cons_self
    have hmod := Nat.mod_lt n he
    have hsum : n + d = e * (n / e) + (n % e + d) := by
      rw [← Nat.add_assoc, Nat.div_add_mod]
    rw [hsum, change_length, change_length, Nat.mul_add_div he, Nat.mul_add_mod]
    generalize n % e = r at hmod ⊢
    generalize n / e = k
    rcases List.mem_cons.mp hd with rfl | hd
    · rw [Nat.add_div_right r he, Nat.add_mod_right, Nat.div_eq_of_lt hmod, Nat.mod_eq_of_lt hmod]
      omega
    by_cases hfits : r + d < e
    · rw [Nat.div_eq_of_lt hfits, Nat.mod_eq_of_lt hfits]
      have hrest := ih (n := r) h.tail hd
      omega
    · -- a larger coin is filled up, and what is left of its place is what it lacks of `d`
      have hdvd := h.dvd_head d hd
      have hle := Nat.le_of_dvd he hdvd
      have hover : r + d = e + (r + d - e) := by omega
      have hleft : r + d - e < d := by omega
      have hrem : r + d - e = r % d := by
        obtain ⟨c, hc⟩ := Nat.dvd_sub hdvd (Nat.dvd_refl d)
        have hr : r = (r + d - e) + d * c := by omega
        rw [hr, Nat.add_mul_mod_self_left, ← hr, Nat.mod_eq_of_lt hleft]
      have hquot : (r + d) / e = 1 := by
        rw [Nat.div_eq_of_lt_le] <;> omega
      have hmodulo : (r + d) % e = r % d := by
        rw [← hrem, hover, Nat.add_mod_left, ← hover, Nat.mod_eq_of_lt (by omega)]
      rw [hquot, hmodulo]
      have hshort := change_mod_le (n := r) h.tail hd
      omega

theorem change_shortest (h : Coins ds) (hl : ∀ d ∈ l, d ∈ ds) :
    (change ds l.sum).length ≤ l.length := by
  induction l with
  | nil =>
    have hsum := change_sum ds 0
    have hnil : change ds 0 = [] := by
      cases hc : change ds 0 with
      | nil => rfl
      | cons e l =>
        have hpos := h.pos e (mem_change e (by rw [hc]; exact List.mem_cons_self))
        rw [hc, List.sum_cons] at hsum
        omega
    rw [List.sum_nil, hnil]
  | cons d l ih =>
    have hrest := ih fun e he => hl e (List.mem_cons_of_mem _ he)
    have hstep := change_add_le (n := l.sum) h (hl d List.mem_cons_self)
    rw [List.sum_cons, Nat.add_comm, List.length_cons]
    omega

end DivisorCoins
