import Dexdo.BuyTarget
import Dexdo.GreedyPurchase

/-! # What a quote takes, against every other choice

The walk of `executable_quote` over the coalesced asks that have a price, compared with any other way
of taking ticks from them. -/
namespace ExecutableQuote

open TokenContractState (u128 unit)
open DealConservation (saturatingAdd saturatingAdd_of_lt)
open GreedyPurchase (Selection cost capacity least)
open BuyTarget (coalesce_groups coalesce_ok coalesceGroup_ok)

def Priced (o : OrderBookOrder) : Prop := 0 < o.pricePerTick ∧ FeeFits o

instance (o : OrderBookOrder) : Decidable (Priced o) :=
  inferInstanceAs (Decidable (0 < o.pricePerTick ∧ FeeFits o))

def pricedAsks (l : List OrderBookOrder) : List OrderBookOrder := l.filter fun o => decide (Priced o)

def offer (o : OrderBookOrder) : GreedyPurchase.Offer := (o.ticks, unit o.pricePerTick)

def offers (l : List OrderBookOrder) : List GreedyPurchase.Offer := l.map offer

variable {display : String → String} {l : List OrderBookOrder} {o : OrderBookOrder}
  {w : QuoteWalk} {n : ℕ}

/-! ## The walk passes unpriced asks over -/

theorem quoteAsks_done (h : w.remainingTicks = 0 ∨ w.remainingBudget = 0) : quoteAsks l w = w := by
  cases l with
  | nil => rfl
  | cons o l => rw [quoteAsks, if_pos h]

theorem quoteAsks_unpriced (h : ¬ Priced o) : quoteAsks (o :: l) w = quoteAsks l w := by
  by_cases hdone : w.remainingTicks = 0 ∨ w.remainingBudget = 0
  · rw [quoteAsks_done hdone, quoteAsks_done hdone]
  rw [quoteAsks, if_neg hdone]
  dsimp only
  by_cases hfit : FeeFits o
  · have hfree : o.pricePerTick = 0 := by
      by_contra hne
      exact h ⟨Nat.pos_of_ne_zero hne, hfit⟩
    have hunit : requiredEscrowForBuy 1 o.pricePerTick = 0 := by
      rw [requiredEscrow_one hfit, hfree]
      rfl
    rw [if_pos (.inl hunit)]
  · rw [if_pos (.inr (requiredEscrow_unfit hfit))]

theorem quoteAsks_priced (l : List OrderBookOrder) (w : QuoteWalk) :
    quoteAsks l w = quoteAsks (pricedAsks l) w := by
  induction l generalizing w with
  | nil => rfl
  | cons o l ih =>
    by_cases h : Priced o
    · have hkeep : pricedAsks (o :: l) = o :: pricedAsks l := by simp [pricedAsks, h]
      rw [hkeep]
      simp only [quoteAsks, ih]
    · have hskip : pricedAsks (o :: l) = pricedAsks l := by simp [pricedAsks, h]
      rw [hskip, quoteAsks_unpriced h, ih]

/-! ## The walk is a split -/

theorem outlay_split (l : List OrderBookOrder) (n : ℕ) :
    outlay unit (split l n) = least (offers l) n := by
  induction l generalizing n with
  | nil => rfl
  | cons o l ih =>
    by_cases hn : n = 0
    · rw [hn, split_zero, GreedyPurchase.least_zero]
      rfl
    · rw [split_cons hn, outlay_cons, ih]
      simp only [offers, List.map_cons, GreedyPurchase.least_cons, offer]

theorem capacity_offers (l : List OrderBookOrder) : capacity (offers l) = totalTicks l := by
  simp only [capacity, offers, totalTicks, List.map_map]
  rfl

/-- What a walk has taken: the first `m` ticks, and no further tick could be wanted, had or paid. -/
structure Takes (l : List OrderBookOrder) (w r : QuoteWalk) (m : ℕ) : Prop where
  wanted : m ≤ w.remainingTicks
  had : m ≤ totalTicks l
  paid : outlay unit (split l m) ≤ w.remainingBudget
  filled : r.filledTicks = w.filledTicks + m
  total : r.totalWithFee = w.totalWithFee + outlay unit (split l m)
  fills : r.fills = w.fills ++ (split l m).map quoteFill
  stops : m < w.remainingTicks → m < totalTicks l →
    w.remainingBudget < outlay unit (split l (m + 1))

theorem takes_none (h : 0 < w.remainingTicks → 0 < totalTicks l →
    w.remainingBudget < outlay unit (split l 1)) : Takes l w w 0 := by
  refine ⟨Nat.zero_le _, Nat.zero_le _, ?_, rfl, ?_, ?_, h⟩
  · rw [split_zero]
    exact Nat.zero_le _
  · rw [split_zero]
    rfl
  · rw [split_zero, List.map_nil, List.append_nil]

/-- On priced asks in price order the walk takes a split of as many ticks as it can. -/
theorem quoteAsks_takes : ∀ {l : List OrderBookOrder} {w : QuoteWalk}, (∀ a ∈ l, Listed a) →
    (∀ a ∈ l, FeeFits a) → l.Pairwise (fun a b => a.pricePerTick ≤ b.pricePerTick) →
    w.filledTicks + w.remainingTicks < u128 → w.totalWithFee + w.remainingBudget < u128 →
    ∃ m, Takes l w (quoteAsks l w) m
  | [], w, _, _, _, _, _ => ⟨0, takes_none fun _ h => absurd h (lt_irrefl 0)⟩
  | a :: l, w, hlisted, hfits, hsorted, hfilled, hbudget => by
    obtain ⟨ha, hl⟩ := List.forall_mem_cons.mp hlisted
    obtain ⟨hfit, hlfit⟩ := List.forall_mem_cons.mp hfits
    obtain ⟨hfirst, hsorted⟩ := List.pairwise_cons.mp hsorted
    have hpos := ha.unit_pos
    have hticks := ha.ticks_pos
    have htotal : totalTicks (a :: l) = a.ticks + totalTicks l := by
      unfold totalTicks
      rw [List.map_cons, List.sum_cons]
    have hsplit : ∀ k, k ≤ a.ticks → k ≠ 0 → ∀ m, (k < a.ticks → m = 0) →
        split (a :: l) (k + m) = (a, k) :: split l m := by
      intro k hk hne m hm
      rw [split_cons (by omega)]
      rcases Nat.lt_or_ge k a.ticks with hlt | hge
      · rw [hm hlt, Nat.add_zero, min_eq_right hk, Nat.sub_self]
      · rw [min_eq_left (by omega)]
        obtain rfl : k = a.ticks := by omega
        rw [Nat.add_sub_cancel_left]
    by_cases hzero : share a w = 0
    · -- nothing is wanted, or the first tick is too dear
      rw [quoteAsks_halt ha hfit hzero]
      refine ⟨0, takes_none fun hwant _ => ?_⟩
      have hone := hsplit 1 (by omega) (by omega) 0 fun _ => rfl
      rw [Nat.add_zero] at hone
      rw [hone, outlay_cons, split_zero]
      have hdiv : w.remainingBudget / unit a.pricePerTick = 0 := by
        unfold share at hzero
        omega
      have := (Nat.div_eq_zero_iff_lt hpos).mp hdiv
      simpa [outlay] using this
    have hcost := share_cost (o := a) (w := w)
    have hk : share a w ≤ a.ticks := (min_le_left _ _).trans (min_le_left _ _)
    have hkw : share a w ≤ w.remainingTicks := (min_le_left _ _).trans (min_le_right _ _)
    generalize hshare : share a w = k at hzero hcost hk hkw
    rw [quoteAsks_fill ha hfit (by omega) (by rw [hshare]; exact hzero), hshare,
      saturatingAdd_of_lt (by omega), saturatingAdd_of_lt (by omega)]
    by_cases hwhole : k = min a.ticks w.remainingTicks
    · -- the ask goes whole, or all that is wanted comes from it
      obtain ⟨m, hm⟩ := quoteAsks_takes (l := l) (w := {
        remainingTicks := w.remainingTicks - k
        remainingBudget := w.remainingBudget - k * unit a.pricePerTick
        filledTicks := w.filledTicks + k
        totalWithFee := w.totalWithFee + k * unit a.pricePerTick
        fills := w.fills ++ [quoteFill (a, k)] }) hl hlfit hsorted
        (by dsimp only; omega) (by dsimp only; omega)
      have hwant := hm.wanted
      have hpaid := hm.paid
      have hstops := hm.stops
      dsimp only at hwant hpaid hstops
      have hnext := hsplit k hk hzero m fun hlt => by omega
      have hhad := hm.had
      refine ⟨k + m, by omega, by omega, ?_, ?_, ?_, ?_, fun hlt hmore => ?_⟩
      · rw [hnext, outlay_cons]
        dsimp only
        omega
      · rw [hm.filled, Nat.add_assoc]
      · rw [hm.total, hnext, outlay_cons, Nat.add_assoc]
      · rw [hm.fills, hnext, List.map_cons, List.append_assoc]
        rfl
      · have hfull : k = a.ticks := by omega
        have hafter := hsplit k hk hzero (m + 1) fun hlt' => by omega
        have := hstops (by omega) (by omega)
        rw [Nat.add_assoc, hafter, outlay_cons]
        dsimp only
        omega
    · -- the budget ends inside the ask, and later ones are no cheaper
      have hk' : k = w.remainingBudget / unit a.pricePerTick := by
        have := hshare
        unfold share at this
        omega
      have hover : w.remainingBudget < (k + 1) * unit a.pricePerTick := by
        rw [hk', Nat.add_mul, Nat.one_mul]
        exact Nat.lt_div_mul_add hpos
      rw [Nat.add_mul, Nat.one_mul] at hover
      have hmin : k < min a.ticks w.remainingTicks := by
        have := hshare
        unfold share at this
        omega
      rw [quoteAsks_stuck hl fun b hb => ?_]
      · have hnext := hsplit k hk hzero 0 fun _ => rfl
        rw [Nat.add_zero] at hnext
        have hafter := hsplit (k + 1) (by omega) (by omega) 0 fun _ => rfl
        rw [Nat.add_zero] at hafter
        refine ⟨k, hkw, by omega, ?_, rfl, ?_, ?_, fun _ _ => ?_⟩
        · rw [hnext, outlay_cons, split_zero]
          simpa [outlay] using hcost
        · rw [hnext, outlay_cons, split_zero]
          simp [outlay]
        · rw [hnext, split_zero]
          rfl
        · rw [hafter, outlay_cons, split_zero]
          have : w.remainingBudget < (k + 1) * unit a.pricePerTick := by
            rw [Nat.add_mul, Nat.one_mul]
            exact hover
          simpa [outlay] using this
      · right
        have hmono := TokenContractState.unit_mono (hfirst b hb)
        dsimp only
        omega

/-! ## What comes back coalesced -/

theorem mapM_keys {groups : List (String × List OrderBookOrder)} : ∀ {c : List OrderBookOrder},
    groups.mapM (coalesceGroup display) = .ok c →
    (∀ g ∈ groups, ∀ o, coalesceGroup display g = .ok o → tcKey o = g.1) →
    c.map tcKey = groups.map Prod.fst := by
  induction groups with
  | nil =>
    intro c h _
    obtain rfl := Except.ok.inj h
    rfl
  | cons g groups ih =>
    intro c h hkeys
    rw [List.mapM_cons] at h
    cases hg : coalesceGroup display g with
    | error e =>
      rw [hg] at h
      cases h
    | ok o =>
      rw [hg] at h
      cases hrest : groups.mapM (coalesceGroup display) with
      | error e =>
        rw [hrest] at h
        cases h
      | ok c' =>
        rw [hrest] at h
        obtain rfl := Except.ok.inj h
        rw [List.map_cons, List.map_cons, hkeys g List.mem_cons_self o hg,
          ih hrest fun g' hg' => hkeys g' (List.mem_cons_of_mem g hg')]

structure Distinct (asks : List OrderBookOrder) : Prop where
  resting : ∀ o ∈ asks, o.isRestingAsk = true
  sorted : asks.Pairwise fun a b => a.pricePerTick ≤ b.pricePerTick
  keys : (asks.map tcKey).Nodup

theorem coalesce_resting (display : String → String) (orders : List OrderBookOrder) :
    coalesceEquivalentRestingAsks display (orders.filter OrderBookOrder.isRestingAsk) =
      coalesceEquivalentRestingAsks display orders := by
  unfold coalesceEquivalentRestingAsks
  rw [List.filter_filter]
  simp only [Bool.and_self]

theorem coalesce_distinctly {orders asks : List OrderBookOrder}
    (h : coalesceEquivalentRestingAsks display orders = .ok asks) : Distinct asks := by
  have hall : ∀ o ∈ orders.filter OrderBookOrder.isRestingAsk, o.isRestingAsk = true :=
    fun o ho => (List.mem_filter.mp ho).2
  have hgroups := coalesce_groups hall
  rw [← coalesce_resting] at h
  obtain ⟨hcoalesced, -⟩ := coalesce_ok hall h
  refine ⟨fun o ho => hall o (hcoalesced.sound o ho).1, ?_, ?_⟩
  · unfold coalesceEquivalentRestingAsks at h
    dsimp only at h
    generalize ((orders.filter OrderBookOrder.isRestingAsk).filter
      OrderBookOrder.isRestingAsk).foldl pushAsk [] = groups at h
    cases hmap : groups.mapM (coalesceGroup display) with
    | error e =>
      rw [hmap] at h
      cases h
    | ok c =>
      rw [hmap] at h
      obtain rfl : byPriceTime c = asks := Except.ok.inj h
      exact byPriceTime_sorted.imp fun h => by unfold PriceTimeLe at h; omega
  · unfold coalesceEquivalentRestingAsks at h
    dsimp only at h
    generalize ((orders.filter OrderBookOrder.isRestingAsk).filter
      OrderBookOrder.isRestingAsk).foldl pushAsk [] = groups at h hgroups
    cases hmap : groups.mapM (coalesceGroup display) with
    | error e =>
      rw [hmap] at h
      cases h
    | ok c =>
      rw [hmap] at h
      obtain rfl : byPriceTime c = asks := Except.ok.inj h
      have hkeys := mapM_keys hmap fun g hg o ho => by
        obtain ⟨hmem, -⟩ := coalesceGroup_ok ho
        rw [hgroups.group g hg] at hmem
        exact of_decide_eq_true (List.mem_filter.mp hmem).2
      have hnodup : (c.map tcKey).Nodup := by
        rw [hkeys]
        exact hgroups.sorted.imp fun h => ne_of_lt h
      exact ((byPriceTime_perm.map tcKey).nodup_iff).mpr hnodup

theorem Distinct.priced {asks : List OrderBookOrder} (h : Distinct asks) :
    Distinct (pricedAsks asks) ∧ (∀ a ∈ pricedAsks asks, Listed a) ∧
      ∀ a ∈ pricedAsks asks, FeeFits a := by
  have hsub : (pricedAsks asks).Sublist asks := List.filter_sublist
  have hmem : ∀ a ∈ pricedAsks asks, a ∈ asks ∧ Priced a := fun a ha => by
    obtain ⟨hin, hp⟩ := List.mem_filter.mp ha
    exact ⟨hin, of_decide_eq_true hp⟩
  refine ⟨⟨fun o ho => h.resting o (hmem o ho).1, h.sorted.sublist hsub,
    h.keys.sublist (hsub.map _)⟩, fun a ha => ?_, fun a ha => (hmem a ha).2.2⟩
  exact ⟨h.resting a (hmem a ha).1, (hmem a ha).2.1⟩

/-! ## Optimality -/

/-- The figures of a quote are the sums over its fills, each within an ask it names, no TokenContract
in two of them. -/
structure Sums (asks : List OrderBookOrder) (q : Quote) : Prop where
  filled : q.filledTicks = (q.fills.map QuoteFill.ticks).sum
  total : q.totalWithFee = (q.fills.map QuoteFill.costWithFee).sum
  within : ∀ f ∈ q.fills, ∃ a ∈ asks, f.orderId = a.orderId ∧ some f.tokenContract = a.tokenContract ∧
    f.pricePerTick = a.pricePerTick ∧ 0 < f.ticks ∧ f.ticks ≤ a.ticks ∧
    f.costWithFee = f.ticks * unit a.pricePerTick
  apart : (q.fills.map fun f => f.tokenContract.toLower).Nodup

/-- The quote is a choice of ticks; within the ticks wanted and the money there is no choice of more,
and there is none of as many for less. -/
structure Optimal (asks : List OrderBookOrder) (wanted budget : ℕ) (q : Quote) : Prop where
  chosen : ∃ x, Selection (offers asks) x ∧ x.sum = q.filledTicks ∧
    cost (offers asks) x = q.totalWithFee
  asked : q.filledTicks ≤ wanted
  affordable : q.totalWithFee ≤ budget
  most : ∀ x, Selection (offers asks) x → x.sum ≤ wanted → cost (offers asks) x ≤ budget →
    x.sum ≤ q.filledTicks
  cheapest : ∀ x, Selection (offers asks) x → x.sum = q.filledTicks →
    q.totalWithFee ≤ cost (offers asks) x

theorem split_sublist : ∀ (l : List OrderBookOrder) (n : ℕ), ((split l n).map Prod.fst).Sublist l
  | [], _ => .refl _
  | a :: l, n => by
    by_cases hn : n = 0
    · rw [hn, split_zero]
      exact List.nil_sublist _
    · rw [split_cons hn, List.map_cons]
      exact (split_sublist l _).cons_cons a

theorem split_share : ∀ {l : List OrderBookOrder} {n : ℕ}, (∀ a ∈ l, 0 < a.ticks) →
    ∀ y ∈ split l n, 0 < y.2 ∧ y.2 ≤ y.1.ticks
  | [], _, _, y, hy => absurd hy List.not_mem_nil
  | a :: l, n, hpos, y, hy => by
    obtain ⟨ha, hl⟩ := List.forall_mem_cons.mp hpos
    by_cases hn : n = 0
    · rw [hn, split_zero] at hy
      exact absurd hy List.not_mem_nil
    rw [split_cons hn] at hy
    rcases List.mem_cons.mp hy with rfl | hy
    · exact ⟨by dsimp only; omega, min_le_left _ _⟩
    · exact split_share hl y hy

theorem Takes.sums {asks : List OrderBookOrder} (hd : Distinct asks) {r : QuoteWalk} {m : ℕ}
    (hw : w.filledTicks = 0 ∧ w.totalWithFee = 0 ∧ w.fills = []) (h : Takes asks w r m)
    (complete : Bool) : Sums asks ⟨r.filledTicks, r.totalWithFee, complete, r.fills⟩ := by
  obtain ⟨hfilled, htotal, hfills⟩ := hw
  have hrfills : r.fills = (split asks m).map quoteFill := by
    rw [h.fills, hfills, List.nil_append]
  have hticks : ∀ a ∈ asks, 0 < a.ticks := fun a ha => by
    have hrest := hd.resting a ha
    unfold OrderBookOrder.isRestingAsk at hrest
    simp only [Bool.and_eq_true, decide_eq_true_eq] at hrest
    exact hrest.2
  refine ⟨?_, ?_, fun f hf => ?_, ?_⟩
  · have hsum := split_ticks h.had
    dsimp only
    rw [h.filled, hfilled, Nat.zero_add, hrfills, List.map_map]
    unfold outlay at hsum
    simp only [Nat.mul_one] at hsum
    exact hsum.symm
  · dsimp only
    rw [h.total, htotal, Nat.zero_add, hrfills, List.map_map]
    rfl
  · dsimp only at hf
    rw [hrfills] at hf
    obtain ⟨y, hy, rfl⟩ := List.mem_map.mp hf
    obtain ⟨hpos, hle⟩ := split_share hticks y hy
    have hin := split_mem y hy
    have hrest := hd.resting y.1 hin
    unfold OrderBookOrder.isRestingAsk at hrest
    simp only [Bool.and_eq_true, Option.isSome_iff_exists] at hrest
    obtain ⟨tc, htc⟩ := hrest.1.2
    refine ⟨y.1, hin, rfl, ?_, rfl, hpos, hle, rfl⟩
    simp only [quoteFill, htc, Option.getD_some]
  · dsimp only
    rw [hrfills, List.map_map]
    have hkeys := hd.keys.sublist ((split_sublist asks m).map tcKey)
    rw [List.map_map] at hkeys
    exact hkeys

theorem Takes.optimal {asks : List OrderBookOrder} (hd : Distinct asks) {r : QuoteWalk} {m : ℕ}
    (hw : w.filledTicks = 0 ∧ w.totalWithFee = 0 ∧ w.fills = []) (h : Takes asks w r m)
    (complete : Bool) : Optimal asks w.remainingTicks w.remainingBudget
      ⟨r.filledTicks, r.totalWithFee, complete, r.fills⟩ := by
  obtain ⟨hfilled, htotal, -⟩ := hw
  have hm : r.filledTicks = m := by rw [h.filled, hfilled, Nat.zero_add]
  have hcost : r.totalWithFee = least (offers asks) m := by
    rw [h.total, htotal, Nat.zero_add, outlay_split]
  have hsorted : GreedyPurchase.Sorted (offers asks) := by
    unfold GreedyPurchase.Sorted offers
    rw [List.pairwise_map]
    exact hd.sorted.imp fun hle => TokenContractState.unit_mono hle
  have hhad := h.had
  have hpaid := h.paid
  rw [outlay_split] at hpaid
  refine ⟨⟨GreedyPurchase.take (offers asks) m, GreedyPurchase.take_selection _ _, ?_, hcost.symm⟩,
    ?_, ?_, fun x hx hwant hbudget => ?_, fun x hx hsum => ?_⟩
  · rw [GreedyPurchase.take_sum, capacity_offers, hm, min_eq_left hhad]
  · exact hm.le.trans h.wanted
  · exact hcost.le.trans hpaid
  · dsimp only
    rw [hm]
    by_contra hmore
    have hcap := hx.sum_le
    rw [capacity_offers] at hcap
    have hstop := h.stops (by omega) (by omega)
    rw [outlay_split] at hstop
    have := GreedyPurchase.least_le hsorted hx (n := m + 1) (by omega)
    omega
  · dsimp only at hsum ⊢
    rw [hcost]
    exact GreedyPurchase.least_le hsorted hx (by omega)

/-- With ticks wanted the quote has as many of the priced ticks as a `u128` pays for, all that are
wanted and there where it does; with a budget it has the most the budget pays for. -/
theorem executableQuote_optimal (display : String → String) (orders asks : List OrderBookOrder)
    (h : coalesceEquivalentRestingAsks display orders = .ok asks) :
    (∀ n < u128, ∃ q, executableQuote display orders (some n) none = .ok q ∧
      Sums (pricedAsks asks) q ∧ Optimal (pricedAsks asks) n (u128 - 1) q ∧
      ((∃ x, Selection (offers (pricedAsks asks)) x ∧
          x.sum = min n (totalTicks (pricedAsks asks)) ∧
          cost (offers (pricedAsks asks)) x < u128) →
        q.filledTicks = min n (totalTicks (pricedAsks asks)))) ∧
    ∀ b < u128, ∃ q, executableQuote display orders none (some b) = .ok q ∧
      Sums (pricedAsks asks) q ∧ Optimal (pricedAsks asks) (u128 - 1) b q ∧
      ∀ x, Selection (offers (pricedAsks asks)) x → cost (offers (pricedAsks asks)) x ≤ b →
        x.sum ≤ q.filledTicks := by
  obtain ⟨hd, hlisted, hfits⟩ := (coalesce_distinctly h).priced
  have hpos : 0 < u128 := by decide
  refine ⟨fun n hn => ?_, fun b hb => ?_⟩
  · obtain ⟨m, hm⟩ := quoteAsks_takes (w := { remainingTicks := n, remainingBudget := u128 - 1 })
      hlisted hfits hd.sorted (by dsimp only; omega) (by dsimp only; omega)
    rw [← quoteAsks_priced] at hm
    refine ⟨_, by unfold executableQuote; rw [h]; rfl, hm.sums hd ⟨rfl, rfl, rfl⟩ _,
      hm.optimal hd ⟨rfl, rfl, rfl⟩ _, ?_⟩
    rintro ⟨x, hx, hsum, hcost⟩
    have hopt := hm.optimal hd ⟨rfl, rfl, rfl⟩ true
    have hmost := hopt.most x hx (by dsimp only; omega) (by dsimp only; omega)
    have hwant := hm.wanted
    have hhad := hm.had
    have hfilled := hm.filled
    dsimp only at hmost hwant hfilled
    dsimp only [Option.getD]
    omega
  · obtain ⟨m, hm⟩ := quoteAsks_takes (w := { remainingTicks := u128 - 1, remainingBudget := b })
      hlisted hfits hd.sorted (by dsimp only; omega) (by dsimp only; omega)
    rw [← quoteAsks_priced] at hm
    refine ⟨_, by unfold executableQuote; rw [h]; rfl, hm.sums hd ⟨rfl, rfl, rfl⟩ _,
      hm.optimal hd ⟨rfl, rfl, rfl⟩ _, fun x hx hcost => ?_⟩
    have hopt := hm.optimal hd ⟨rfl, rfl, rfl⟩ true
    -- a tick costs at least one, so the width of the counter is no limit
    have hsum : x.sum ≤ cost (offers (pricedAsks asks)) x := by
      refine GreedyPurchase.sum_le_cost (fun o ho => ?_) hx
      obtain ⟨a, ha, rfl⟩ := List.mem_map.mp ho
      exact (hlisted a ha).unit_pos
    exact hopt.most x hx (by dsimp only; omega) hcost

def lonelyAsk (price ticks : ℕ) : OrderBookOrder :=
  { orderId := 1, ownerNote := "0:a", tokenContract := some "0:b", isBuy := false
    pricePerTick := price, ticks := ticks, escrow := 0, deadline := 0, flags := 0, timestamp := 0 }

def threeRows : List OrderBookOrder :=
  [lonelyAsk 2000000000 2, { lonelyAsk 2000000000 2 with orderId := 3 },
    { lonelyAsk 1000000000 2 with orderId := 2, tokenContract := some "0:c" }]

theorem three_rows_quoted : ∃ asks q,
    coalesceEquivalentRestingAsks id threeRows = .ok asks ∧
    executableQuote id threeRows (some 3) none = .ok q ∧
    Sums (pricedAsks asks) q ∧ Optimal (pricedAsks asks) 3 (u128 - 1) q := by
  obtain ⟨q, hq, hsums, hoptimal, -⟩ := (executableQuote_optimal id threeRows
    [{ lonelyAsk 1000000000 2 with orderId := 2, tokenContract := some "0:c" },
      lonelyAsk 2000000000 2] (by decide +kernel)).1 3 (by decide)
  exact ⟨_, q, by decide +kernel, hq, hsums, hoptimal⟩

/-- A free ask is passed over, and an ask that would cost more than a `u128` is cut short. -/
theorem free_and_dear_asks_missed :
    (∃ q, coalesceEquivalentRestingAsks id [lonelyAsk 0 2] = .ok [lonelyAsk 0 2] ∧
      FeeFits (lonelyAsk 0 2) ∧ executableQuote id [lonelyAsk 0 2] (some 2) none = .ok q ∧
      q.filledTicks ≠ min 2 (totalTicks [lonelyAsk 0 2])) ∧
    ∃ q, coalesceEquivalentRestingAsks id [lonelyAsk 1000000000 (2 ^ 127)] =
        .ok [lonelyAsk 1000000000 (2 ^ 127)] ∧
      FeeFits (lonelyAsk 1000000000 (2 ^ 127)) ∧
      executableQuote id [lonelyAsk 1000000000 (2 ^ 127)] (some (2 ^ 127)) none = .ok q ∧
      q.filledTicks ≠ min (2 ^ 127) (totalTicks [lonelyAsk 1000000000 (2 ^ 127)]) := by
  refine ⟨⟨⟨0, 0, false, []⟩, by decide, by decide, by decide,
    by decide⟩, ⟨(u128 - 1) / 1025000000, (u128 - 1) / 1025000000 * 1025000000, false,
    [⟨1, "0:b", (u128 - 1) / 1025000000, 1000000000, (u128 - 1) / 1025000000 * 1025000000⟩]⟩,
    by decide, by decide, by decide +kernel, by decide⟩

end ExecutableQuote
