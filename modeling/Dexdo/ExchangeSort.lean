import Mathlib.Data.Multiset.Sort
import Mathlib.Data.List.Sort
import Mathlib.Data.List.Induction

/-! # Sorting an array in place by exchanges, and medians

Each position is compared with every later one, and the two values are exchanged where the later
one is smaller. -/
namespace ExchangeSort

section Exchanges

variable {α : Type} [LinearOrder α]

/-- The values at `a` and `b` change places if the one at `b` is smaller. -/
def exchange (v : List α) (a b : ℕ) : List α :=
  match v[a]?, v[b]? with
  | some x, some y => if y < x then (v.set a y).set b x else v
  | _, _ => v

def pass (v : List α) (a n : ℕ) : List α :=
  (List.range' (a + 1) (n - (a + 1))).foldl (fun w b => exchange w a b) v

def exchangeSort (v : List α) : List α :=
  (List.range' 0 v.length).foldl (fun w a => pass w a v.length) v

variable {p q r : List α} {x y : α}

theorem exchange_split :
    exchange (p ++ x :: (q ++ y :: r)) p.length (p.length + 1 + q.length) =
      if y < x then p ++ y :: (q ++ x :: r) else p ++ x :: (q ++ y :: r) := by
  have ha : (p ++ x :: (q ++ y :: r))[p.length]? = some x := by simp
  have hb : (p ++ x :: (q ++ y :: r))[p.length + 1 + q.length]? = some y := by
    rw [List.getElem?_append_right (by omega)]
    have hidx : p.length + 1 + q.length - p.length = q.length + 1 := by omega
    simp [hidx]
  simp only [exchange, ha, hb]
  have hset : (((p ++ x :: (q ++ y :: r)).set p.length y).set (p.length + 1 + q.length) x) =
      p ++ y :: (q ++ x :: r) := by
    simp [Nat.add_assoc, Nat.add_comm 1 q.length]
  rw [hset]

/-- What is left of a pass: `q` has been compared, `r` is still to come. -/
theorem pass_from (p : List α) : ∀ (r q : List α) (x : α), (∀ z ∈ q, x ≤ z) →
    ∃ y t, (List.range' (p.length + 1 + q.length) r.length).foldl
        (fun w b => exchange w p.length b) (p ++ x :: (q ++ r)) = p ++ y :: t ∧
      (∀ z ∈ t, y ≤ z) ∧ (y :: t).Perm (x :: (q ++ r)) := by
  intro r
  induction r with
  | nil =>
    intro q x hq
    exact ⟨x, q, by simp, hq, by simp⟩
  | cons y r ih =>
    intro q x hq
    simp only [List.length_cons, List.range'_succ, List.foldl_cons, exchange_split]
    by_cases hlt : y < x
    · rw [if_pos hlt]
      obtain ⟨m, t, hrun, hmin, hperm⟩ := ih (q ++ [x]) y (by
        intro z hz
        rcases List.mem_append.mp hz with hz | hz
        · exact hlt.le.trans (hq z hz)
        · rw [List.mem_singleton.mp hz]
          exact hlt.le)
      refine ⟨m, t, ?_, hmin, hperm.trans ?_⟩
      · simpa [Nat.add_assoc] using hrun
      · rw [List.append_assoc]
        have hxy : (y :: (q ++ x :: r)).Perm (y :: x :: (q ++ r)) :=
          List.perm_middle.cons y
        exact hxy.trans ((List.Perm.swap x y _).trans (List.perm_middle.symm.cons x))
    · rw [if_neg hlt]
      obtain ⟨m, t, hrun, hmin, hperm⟩ := ih (q ++ [y]) x (by
        intro z hz
        rcases List.mem_append.mp hz with hz | hz
        · exact hq z hz
        · rw [List.mem_singleton.mp hz]
          exact not_lt.mp hlt)
      refine ⟨m, t, ?_, hmin, hperm.trans ?_⟩
      · simpa [Nat.add_assoc] using hrun
      · simp

theorem pass_spec (p : List α) (x : α) (r : List α) :
    ∃ y t, pass (p ++ x :: r) p.length (p.length + (r.length + 1)) = p ++ y :: t ∧
      (∀ z ∈ t, y ≤ z) ∧ (y :: t).Perm (x :: r) := by
  obtain ⟨y, t, hrun, hmin, hperm⟩ := pass_from p r [] x (by simp)
  refine ⟨y, t, ?_, hmin, hperm⟩
  have hlen : p.length + (r.length + 1) - (p.length + 1) = r.length := by omega
  simpa [pass, hlen] using hrun

theorem passes_from (n : ℕ) : ∀ (k : ℕ) (p r : List α), r.length = k →
    n = p.length + r.length → p.Pairwise (· ≤ ·) → (∀ a ∈ p, ∀ b ∈ r, a ≤ b) →
    ((List.range' p.length k).foldl (fun w a => pass w a n) (p ++ r)).Pairwise (· ≤ ·) ∧
      ((List.range' p.length k).foldl (fun w a => pass w a n) (p ++ r)).Perm (p ++ r) := by
  intro k
  induction k with
  | zero =>
    intro p r hr _ hp _
    obtain rfl := List.length_eq_zero_iff.mp hr
    simpa using hp
  | succ k ih =>
    intro p r hr hn hp hle
    obtain ⟨x, r, rfl⟩ : ∃ x s, r = x :: s := List.exists_cons_of_length_eq_add_one hr
    obtain ⟨y, t, hrun, hmin, hperm⟩ := pass_spec p x r
    have hlen : t.length = k := by
      have hsame := hperm.length_eq
      simp only [List.length_cons] at hsame hr
      omega
    simp only [List.length_cons] at hn hr
    rw [List.range'_succ, List.foldl_cons, hn, hrun]
    have hmem : ∀ z ∈ y :: t, ∀ a ∈ p, a ≤ z := by
      intro z hz a ha
      exact hle a ha z (hperm.subset hz)
    have hnext := ih (p ++ [y]) t hlen (by rw [List.length_append, List.length_singleton]; omega)
      (by
        rw [List.pairwise_append]
        refine ⟨hp, List.pairwise_singleton _ _, fun a ha b hb => ?_⟩
        rw [List.mem_singleton.mp hb]
        exact hmem y List.mem_cons_self a ha)
      (by
        intro a ha b hb
        rcases List.mem_append.mp ha with ha | ha
        · exact hmem b (List.mem_cons_of_mem y hb) a ha
        · rw [List.mem_singleton.mp ha]
          exact hmin b hb)
    rw [hn] at hnext
    simp only [List.length_append, List.length_cons, List.length_nil, List.append_assoc,
      List.cons_append, List.nil_append] at hnext
    exact ⟨hnext.1, hnext.2.trans (hperm.append_left p)⟩

theorem exchangeSort_pairwise (v : List α) : (exchangeSort v).Pairwise (· ≤ ·) :=
  (passes_from v.length v.length [] v rfl (by simp) .nil (by simp)).1

theorem exchangeSort_perm (v : List α) : (exchangeSort v).Perm v :=
  (passes_from v.length v.length [] v rfl (by simp) .nil (by simp)).2

theorem exchangeSort_eq (v : List α) : exchangeSort v = (v : Multiset α).sort (· ≤ ·) :=
  ((exchangeSort_perm v).trans (Multiset.coe_eq_coe.mp (Multiset.sort_eq _ _)).symm).eq_of_pairwise'
    (exchangeSort_pairwise v) (Multiset.pairwise_sort _ _)

end Exchanges

def middle (v : List ℕ) : ℕ :=
  if v.length % 2 = 1 then v.getD (v.length / 2) 0
  else (v.getD (v.length / 2 - 1) 0 + v.getD (v.length / 2) 0) / 2

def median (m : Multiset ℕ) : Option ℕ := if m = 0 then none else some (middle (m.sort (· ≤ ·)))

theorem median_zero : median 0 = none := if_pos rfl

theorem middle_exchangeSort {v : List ℕ} (h : v ≠ []) :
    median v = some (middle (exchangeSort v)) := by
  rw [median, if_neg (by simpa using h), exchangeSort_eq]

end ExchangeSort
