import Mathlib.Data.List.Sort
import Dexdo.InferenceOrderBookAccounts

/-! # Price, then time

The makers a taker may meet, in the order the book serves them, and where a walk stands in that
order: what is still ahead of a cursor. -/
namespace InferenceOrderBookPriority

open TokenContractState SolidityMapping IntrusiveList InferenceOrderBookState
open InferenceOrderBookCalls InferenceOrderBookLists InferenceOrderBookMatching
open InferenceOrderBookAccounts

variable {s t u : Book} {k : Taker} {p q : Progress} {cur lp lq i j : ℕ} {l : List ℕ}

def Prior (isBuy : Bool) (p q : ℕ) : Prop := if isBuy then p < q else q < p

instance (b : Bool) (p q : ℕ) : Decidable (Prior b p q) :=
  inferInstanceAs (Decidable (if b then p < q else q < p))

theorem prior_irrefl {b : Bool} (p : ℕ) : ¬ Prior b p p := by
  cases b <;> simp [Prior]

theorem prior_asymm {b : Bool} {p q : ℕ} (h : Prior b p q) : ¬ Prior b q p := by
  cases b <;> simp [Prior] at * <;> omega

theorem prior_trans {b : Bool} {p q r : ℕ} (h : Prior b p q) (h' : Prior b q r) : Prior b p r := by
  cases b <;> simp [Prior] at * <;> omega

theorem prior_total {b : Bool} {p q : ℕ} (h : p ≠ q) : Prior b p q ∨ Prior b q p := by
  cases b <;> simp [Prior] <;> omega

def Before (k : Taker) (s : Book) (i j : ℕ) : Prop :=
  Prior k.isBuy (s.orders.get i).price (s.orders.get j).price ∨
    (s.orders.get i).price = (s.orders.get j).price ∧ i < j

def Resting (k : Taker) (s : Book) (i : ℕ) : Prop :=
  i ∈ s.orders.keys ∧ (s.orders.get i).isBuy = !k.isBuy ∧
    crosses k.isBuy k.price k.isMarket (s.orders.get i).price = true

/-- The orders with `P` that `k` accepts, in the order they are served. -/
structure Ahead (k : Taker) (s : Book) (P : ℕ → Prop) (l : List ℕ) : Prop where
  sorted : l.Pairwise (Before k s)
  mem : ∀ i, i ∈ l ↔ Resting k s i ∧ P i

def PriceTime (k : Taker) (s : Book) (l : List ℕ) : Prop := Ahead k s (fun _ => True) l

/-- What a walk that stands at `cur` on the level `lp` has not met; with `cur = 0` the level is
done. -/
def Beyond (k : Taker) (lp cur : ℕ) (s : Book) (i : ℕ) : Prop :=
  Prior k.isBuy lp (s.orders.get i).price ∨ (s.orders.get i).price = lp ∧ cur ≠ 0 ∧ cur ≤ i

theorem before_irrefl (i : ℕ) : ¬ Before k s i i := by
  rintro (h | ⟨-, h⟩)
  · exact prior_irrefl _ h
  · exact lt_irrefl _ h

theorem Ahead.congr {P Q : ℕ → Prop} (h : Ahead k s P l) (hPQ : ∀ i, Resting k s i → (P i ↔ Q i)) :
    Ahead k s Q l := by
  refine ⟨h.sorted, fun i => ?_⟩
  rw [h.mem i]
  exact and_congr_right (hPQ i)

theorem Ahead.eq_nil {P : ℕ → Prop} (h : Ahead k s P l) (hnone : ∀ i, Resting k s i → ¬ P i) :
    l = [] := by
  rw [List.eq_nil_iff_forall_not_mem]
  intro i hi
  obtain ⟨hr, hp⟩ := (h.mem i).mp hi
  exact hnone i hr hp

theorem before_trans {h : ℕ} (hij : Before k s h i) (hjk : Before k s i j) : Before k s h j := by
  rcases hij with hp | ⟨hp, hlt⟩ <;> rcases hjk with hq | ⟨hq, hlt'⟩
  · exact .inl (prior_trans hp hq)
  · exact .inl (hq ▸ hp)
  · exact .inl (hp ▸ hq)
  · exact .inr ⟨hp.trans hq, hlt.trans hlt'⟩

theorem before_total (hij : i ≠ j) : Before k s i j ∨ Before k s j i := by
  by_cases hp : (s.orders.get i).price = (s.orders.get j).price
  · rcases Nat.lt_or_gt_of_ne hij with hlt | hlt
    · exact .inl (.inr ⟨hp, hlt⟩)
    · exact .inr (.inr ⟨hp.symm, hlt⟩)
  · rcases prior_total (b := k.isBuy) hp with hlt | hlt
    · exact .inl (.inl hlt)
    · exact .inr (.inl hlt)

theorem exists_priceTime (k : Taker) (s : Book) : ∃ l, PriceTime k s l := by
  classical
  let r : ℕ → ℕ → Prop := fun i j => Before k s i j ∨ i = j
  have htotal : Std.Total r := ⟨fun i j => by
    by_cases h : i = j
    · exact .inl (.inr h)
    · rcases before_total h with hb | hb
      · exact .inl (.inl hb)
      · exact .inr (.inl hb)⟩
  have htrans : IsTrans ℕ r := ⟨fun a b c hab hbc => by
    rcases hab with hab | rfl
    · rcases hbc with hbc | rfl
      · exact .inl (before_trans hab hbc)
      · exact .inl hab
    · exact hbc⟩
  let l := (s.orders.keys.filter (Resting k s)).toList
  have hperm : (l.insertionSort r).Perm l := List.perm_insertionSort r l
  refine ⟨l.insertionSort r, ?_, fun i => ?_⟩
  · have hsorted := List.pairwise_insertionSort r l
    have hnodup : (l.insertionSort r).Nodup := hperm.nodup_iff.mpr (Finset.nodup_toList _)
    exact (hsorted.and hnodup).imp fun h => h.1.resolve_right h.2
  · rw [hperm.mem_iff, Finset.mem_toList, Finset.mem_filter]
    exact ⟨fun h => ⟨h.2, trivial⟩, fun h => ⟨h.1.1, h.1⟩⟩

theorem crosses_prior (hlp : crosses k.isBuy k.price k.isMarket lp = false)
    (hq : lp = lq ∨ Prior k.isBuy lp lq) : crosses k.isBuy k.price k.isMarket lq = false := by
  unfold crosses Prior at *
  cases hm : k.isMarket <;> cases hb : k.isBuy <;> simp [hm, hb] at * <;> omega

theorem at_resting (h : At k lp cur s) (hc : crosses k.isBuy k.price k.isMarket lp = true) :
    Resting k s cur := by
  obtain ⟨hmem, hside, hprice⟩ := h
  exact ⟨hmem, hside, hprice ▸ hc⟩

theorem Ahead.head (h : Ahead k s (Beyond k lp cur s) l) (hat : At k lp cur s) (hcur : cur ≠ 0)
    (hc : crosses k.isBuy k.price k.isMarket lp = true) : ∃ l', l = cur :: l' := by
  have hprice := hat.2.2
  have hmem : cur ∈ l := (h.mem cur).mpr ⟨at_resting hat hc, .inr ⟨hprice, hcur, le_rfl⟩⟩
  cases l with
  | nil => exact absurd hmem List.not_mem_nil
  | cons x l =>
    rcases List.mem_cons.mp hmem with rfl | hin
    · exact ⟨l, rfl⟩
    have hbefore := (List.pairwise_cons.mp h.sorted).1 cur hin
    have hbeyond := ((h.mem x).mp List.mem_cons_self).2
    exfalso
    rcases hbefore with hb | ⟨hb, hlt⟩ <;> rw [hprice] at hb
    · rcases hbeyond with hy | ⟨hy, -, -⟩
      · exact prior_asymm hy hb
      · rw [hy] at hb
        exact prior_irrefl _ hb
    · rcases hbeyond with hy | ⟨-, -, hle⟩
      · rw [hb] at hy
        exact prior_irrefl _ hy
      · omega

def Passed (cur : ℕ) (s t : Book) : Prop := cur ∉ t.orders.keys ∨ t.orders = s.orders

theorem resting_iff (h : OneMaker cur s t) (hi : i ≠ cur) :
    Resting k t i ↔ Resting k s i := by
  constructor
  · rintro ⟨hmem, hside, hc⟩
    have hs := h.keys hmem
    obtain ⟨-, hterms⟩ := h.others i hs hi
    have hb := congrArg Terms.isBuy hterms
    have hp := congrArg Terms.price hterms
    exact ⟨hs, hb ▸ hside, hp ▸ hc⟩
  · rintro ⟨hmem, hside, hc⟩
    obtain ⟨ht, hterms⟩ := h.others i hmem hi
    have hb := congrArg Terms.isBuy hterms
    have hp := congrArg Terms.price hterms
    exact ⟨ht, hb ▸ hside, hp ▸ hc⟩

/-- One maker passed: the walk stands at the next one of the level. -/
theorem Ahead.pass (hl : Linked s) (h : Ahead k s (Beyond k lp cur s) (cur :: l))
    (hat : At k lp cur s) (hone : OneMaker cur s t) (hpass : Passed cur s t) :
    Ahead k t (Beyond k lp (s.orders.get cur).nextAtPrice t) l := by
  obtain ⟨hfirst, hsorted⟩ := List.pairwise_cons.mp h.sorted
  have hprice := hat.2.2
  have hne : ∀ i ∈ l, i ≠ cur := by
    rintro i hi rfl
    exact before_irrefl i (hfirst i hi)
  have hkeep : ∀ i ∈ s.orders.keys, i ≠ cur →
      (t.orders.get i).price = (s.orders.get i).price := by
    intro i hi hic
    exact congrArg Terms.price (hone.others i hi hic).2
  have hin : ∀ i ∈ l, i ∈ s.orders.keys := fun i hi =>
    ((h.mem i).mp (List.mem_cons_of_mem _ hi)).1.1
  constructor
  · refine hsorted.imp_of_mem fun {i j} hi hj hij => ?_
    unfold Before
    rw [hkeep i (hin i hi) (hne i hi), hkeep j (hin j hj) (hne j hj)]
    exact hij
  · intro i
    constructor
    · intro hi
      obtain ⟨hr, hb⟩ := (h.mem i).mp (List.mem_cons_of_mem _ hi)
      have hic := hne i hi
      refine ⟨(resting_iff hone hic).mpr hr, ?_⟩
      unfold Beyond
      rw [hkeep i (hin i hi) hic]
      rcases hb with hb | ⟨hp, -, hle⟩
      · exact .inl hb
      · have hcls : ((s.orders.get i).isBuy, (s.orders.get i).price) =
            ((s.orders.get cur).isBuy, (s.orders.get cur).price) := by
          rw [hr.2.1, hat.2.1, hp, hprice]
        exact .inr ⟨hp, hl.prices.next_le hat.1 hr.1 hcls (by omega)⟩
    · rintro ⟨hr, hb⟩
      have hic : i ≠ cur := by
        rintro rfl
        rcases hpass with hgone | hsame
        · exact hgone hr.1
        · unfold Beyond at hb
          rw [hsame, hprice] at hb
          rcases hb with hb | ⟨-, hn, hle⟩
          · exact prior_irrefl _ hb
          · have hlt := (hl.prices.next_mem hat.1 hn).2.2
            omega
      have hr' := (resting_iff hone hic).mp hr
      unfold Beyond at hb
      rw [hkeep i hr'.1 hic] at hb
      have hmem : i ∈ cur :: l := by
        refine (h.mem i).mpr ⟨hr', ?_⟩
        rcases hb with hb | ⟨hp, hn, hle⟩
        · exact .inl hb
        · have hlt := (hl.prices.next_mem hat.1 hn).2.2
          exact .inr ⟨hp, hl.prices.ne_zero hat.1, hlt.le.trans hle⟩
      exact (List.mem_cons.mp hmem).resolve_left hic

/-! ## From level to level -/

theorem level_mem (hl : Linked s) (hr : Resting k s i) :
    (s.orders.get i).price ∈ (s.levels (!k.isBuy)).keys ∧
      (s.level (!k.isBuy) (s.orders.get i).price).firstOrderId ≤ i := by
  have hcls : ((s.orders.get i).isBuy, (s.orders.get i).price) =
      (!k.isBuy, (s.orders.get i).price) := by rw [hr.2.1]
  have hne := hl.prices.first_ne_zero hr.1
  have hle := hl.prices.first_le hr.1
  rw [hcls] at hne hle
  exact ⟨(hl.level_iff _ _).mpr hne, hle⟩

theorem bestOpposite_some (h : bestOpposite k.isBuy s = some lp) :
    lp ∈ (s.levels (!k.isBuy)).keys ∧
      ∀ q ∈ (s.levels (!k.isBuy)).keys, q = lp ∨ Prior k.isBuy lp q := by
  unfold bestOpposite at h
  unfold Prior
  cases hb : k.isBuy <;> simp only [hb] at h ⊢
  · refine ⟨Mapping.greatest_mem h, fun q hq => ?_⟩
    have hle := Mapping.le_greatest h hq
    simp only [Bool.false_eq_true, if_false]
    omega
  · refine ⟨Mapping.least_mem h, fun q hq => ?_⟩
    have hle := Mapping.least_le h hq
    simp only [if_true]
    omega

theorem bestOpposite_none (h : bestOpposite k.isBuy s = none) (q : ℕ) :
    q ∉ (s.levels (!k.isBuy)).keys := by
  unfold bestOpposite at h
  cases hb : k.isBuy <;> simp only [hb] at h ⊢
  · exact Mapping.greatest_none h q
  · exact Mapping.least_none h q

theorem nextOpposite_some (h : nextOpposite k.isBuy lp s = some lq) :
    lq ∈ (s.levels (!k.isBuy)).keys ∧ Prior k.isBuy lp lq ∧
      ∀ q ∈ (s.levels (!k.isBuy)).keys, Prior k.isBuy lp q → q = lq ∨ Prior k.isBuy lq q := by
  unfold nextOpposite at h
  unfold Prior
  cases hb : k.isBuy <;> simp only [hb] at h ⊢
  · obtain ⟨hmem, hlt⟩ := Mapping.prev_spec h
    refine ⟨hmem, hlt, fun q hq hp => ?_⟩
    have hle := Mapping.le_greatest h (Finset.mem_filter.mpr ⟨hq, hp⟩)
    simp only [Bool.false_eq_true, if_false]
    omega
  · obtain ⟨hmem, hlt⟩ := Mapping.next_spec h
    refine ⟨hmem, hlt, fun q hq hp => ?_⟩
    have hle := Mapping.least_le h (Finset.mem_filter.mpr ⟨hq, hp⟩)
    simp only [if_true]
    omega

theorem nextOpposite_none (h : nextOpposite k.isBuy lp s = none) {q : ℕ}
    (hq : q ∈ (s.levels (!k.isBuy)).keys) : ¬ Prior k.isBuy lp q := by
  unfold nextOpposite at h
  unfold Prior
  cases hb : k.isBuy <;> simp only [hb] at h hq ⊢
  · intro hp
    exact Mapping.greatest_none h q (Finset.mem_filter.mpr ⟨hq, hp⟩)
  · intro hp
    exact Mapping.least_none h q (Finset.mem_filter.mpr ⟨hq, hp⟩)

theorem PriceTime.best (hl : Linked s) (h : PriceTime k s l)
    (hb : bestOpposite k.isBuy s = some lp) :
    Ahead k s (Beyond k lp (s.level (!k.isBuy) lp).firstOrderId s) l := by
  obtain ⟨hmem, hbest⟩ := bestOpposite_some hb
  have hfirst := (hl.level_iff _ _).mp hmem
  refine h.congr fun i hr => iff_of_true trivial ?_
  obtain ⟨hlevel, hle⟩ := level_mem hl hr
  rcases hbest _ hlevel with heq | hp
  · rw [heq] at hle
    exact .inr ⟨heq, hfirst, hle⟩
  · exact .inl hp

theorem PriceTime.empty (hl : Linked s) (h : PriceTime k s l)
    (hb : bestOpposite k.isBuy s = none) : l = [] :=
  h.eq_nil fun _ hr _ => bestOpposite_none hb _ (level_mem hl hr).1

theorem Ahead.next (hl : Linked s) (h : Ahead k s (Beyond k lp 0 s) l)
    (hn : nextOpposite k.isBuy lp s = some lq) :
    Ahead k s (Beyond k lq (s.level (!k.isBuy) lq).firstOrderId s) l := by
  obtain ⟨hmem, hlt, hnext⟩ := nextOpposite_some hn
  have hfirst := (hl.level_iff _ _).mp hmem
  refine h.congr fun i hr => ?_
  obtain ⟨hlevel, hle⟩ := level_mem hl hr
  constructor
  · rintro (hp | ⟨-, hz, -⟩)
    · rcases hnext _ hlevel hp with heq | hq
      · rw [heq] at hle
        exact .inr ⟨heq, hfirst, hle⟩
      · exact .inl hq
    · exact absurd rfl hz
  · rintro (hq | ⟨heq, -, -⟩)
    · exact .inl (prior_trans hlt hq)
    · rw [← heq] at hlt
      exact .inl hlt

theorem Ahead.last (hl : Linked s) (h : Ahead k s (Beyond k lp 0 s) l)
    (hn : nextOpposite k.isBuy lp s = none) : l = [] := by
  refine h.eq_nil fun i hr => ?_
  rintro (hp | ⟨-, hz, -⟩)
  · exact nextOpposite_none hn (level_mem hl hr).1 hp
  · exact hz rfl

theorem Ahead.uncrossed (h : Ahead k s (Beyond k lp cur s) l)
    (hc : crosses k.isBuy k.price k.isMarket lp = false) : l = [] := by
  refine h.eq_nil fun i hr hb => ?_
  have hprice : lp = (s.orders.get i).price ∨ Prior k.isBuy lp (s.orders.get i).price := by
    rcases hb with hp | ⟨heq, -, -⟩
    · exact .inr hp
    · exact .inl heq.symm
  have hno := crosses_prior hc hprice
  rw [hr.2.2] at hno
  cases hno

end InferenceOrderBookPriority
