import Dexdo.DealConservation
import Mathlib.Data.List.Sort

/-! # Quotes

`crates/core/src/market/accounting.rs`: what a buyer's client computes from the resting asks before
it submits a BUY. Amounts are `u128` figures. -/
namespace ExecutableQuote

open TokenContractState (u128 unit fee platformFeeBps bpsDenominator)
open DealConservation (checkedAdd saturatingAdd checkedAdd_of_lt saturatingAdd_of_lt)

structure OrderBookOrder where
  orderId : ℕ
  ownerNote : String
  tokenContract : Option String
  isBuy : Bool
  pricePerTick : ℕ
  ticks : ℕ
  escrow : ℕ
  deadline : ℕ
  flags : ℕ
  timestamp : ℕ
  deriving DecidableEq, Repr

def OrderBookOrder.isRestingAsk (o : OrderBookOrder) : Bool :=
  !o.isBuy && o.tokenContract.isSome && decide (o.ticks > 0)

structure QuoteFill where
  orderId : ℕ
  tokenContract : String
  ticks : ℕ
  pricePerTick : ℕ
  costWithFee : ℕ
  deriving DecidableEq, Repr

structure Quote where
  filledTicks : ℕ
  totalWithFee : ℕ
  complete : Bool
  fills : List QuoteFill
  deriving DecidableEq, Repr

def checkedMul (a b : ℕ) : Option ℕ := if a * b < u128 then some (a * b) else none

def checkedRequiredEscrowForBuy (ticks maxPricePerTick : ℕ) : Option ℕ := do
  let fee := (← checkedMul maxPricePerTick platformFeeBps) / bpsDenominator
  let unit ← checkedAdd maxPricePerTick fee
  checkedMul ticks unit

def requiredEscrowForBuy (ticks maxPricePerTick : ℕ) : ℕ :=
  (checkedRequiredEscrowForBuy ticks maxPricePerTick).getD (u128 - 1)

/-! ## One candidate for each TokenContract -/

def equivalentRestingAsk (a b : OrderBookOrder) : Bool :=
  a.ownerNote == b.ownerNote && a.pricePerTick == b.pricePerTick && a.ticks == b.ticks &&
    a.escrow == b.escrow && a.deadline == b.deadline && a.flags == b.flags

/-- `entry(key).or_default().push(order)` on a map kept in the order of its keys. -/
def entryPush (key : String) (o : OrderBookOrder) :
    List (String × List OrderBookOrder) → List (String × List OrderBookOrder)
  | [] => [(key, [o])]
  | (k, group) :: m =>
    if key = k then (k, group ++ [o]) :: m
    else if key < k then (key, [o]) :: (k, group) :: m
    else (k, group) :: entryPush key o m

def pushAsk (m : List (String × List OrderBookOrder)) (o : OrderBookOrder) :
    List (String × List OrderBookOrder) :=
  match o.tokenContract with
  | some tc => entryPush tc.toLower o m
  | none => m

/-- The loop body over one group; `display` is `display_self_dapp`. -/
def coalesceGroup (display : String → String) (g : String × List OrderBookOrder) :
    Except String OrderBookOrder :=
  let group := g.2.insertionSort fun a b => a.orderId ≤ b.orderId
  match group with
  -- a key has an order
  | [] => .error "index out of bounds"
  | representative :: others =>
    if others.all (equivalentRestingAsk representative) then .ok representative
    else
      let ids := ",".intercalate (group.map fun o => toString o.orderId)
      .error ("duplicate active sell orders for one TokenContract have conflicting terms/state: " ++
        display g.1 ++ " at order_ids [" ++ ids ++ "]. Refusing to coalesce ambiguous liquidity.")

def PriceTimeLe (a b : OrderBookOrder) : Prop :=
  a.pricePerTick < b.pricePerTick ∨ a.pricePerTick = b.pricePerTick ∧ a.orderId ≤ b.orderId

instance : DecidableRel PriceTimeLe := fun a b =>
  inferInstanceAs (Decidable (a.pricePerTick < b.pricePerTick ∨
    a.pricePerTick = b.pricePerTick ∧ a.orderId ≤ b.orderId))

def coalesceEquivalentRestingAsks (display : String → String) (orders : List OrderBookOrder) :
    Except String (List OrderBookOrder) := do
  let byTc := (orders.filter OrderBookOrder.isRestingAsk).foldl pushAsk []
  let coalesced ← byTc.mapM (coalesceGroup display)
  return coalesced.insertionSort PriceTimeLe

/-! ## The quote -/

structure QuoteWalk where
  remainingTicks : ℕ
  remainingBudget : ℕ
  filledTicks : ℕ := 0
  totalWithFee : ℕ := 0
  fills : List QuoteFill := []

def quoteAsks : List OrderBookOrder → QuoteWalk → QuoteWalk
  | [], w => w
  | ask :: asks, w =>
    if w.remainingTicks = 0 ∨ w.remainingBudget = 0 then w
    else
      let unit := requiredEscrowForBuy 1 ask.pricePerTick
      if unit = 0 ∨ unit = u128 - 1 then quoteAsks asks w
      else
        let byBudget := w.remainingBudget / unit
        let fillTicks := min (min ask.ticks w.remainingTicks) byBudget
        if fillTicks = 0 then w
        else
          let cost := requiredEscrowForBuy fillTicks ask.pricePerTick
          match ask.tokenContract with
          | none => quoteAsks asks w
          | some tokenContract => quoteAsks asks
            { remainingTicks := w.remainingTicks - fillTicks
              remainingBudget := w.remainingBudget - cost
              filledTicks := saturatingAdd w.filledTicks fillTicks
              totalWithFee := saturatingAdd w.totalWithFee cost
              fills := w.fills ++ [
                { orderId := ask.orderId, tokenContract := tokenContract, ticks := fillTicks
                  pricePerTick := ask.pricePerTick, costWithFee := cost }] }

attribute [grind =] quoteAsks

def executableQuote (display : String → String) (asks : List OrderBookOrder)
    (wantedTicks budget : Option ℕ) : Except String Quote := do
  if wantedTicks.isSome = budget.isSome then throw "set exactly one of ticks or budget"
  let asks ← coalesceEquivalentRestingAsks display asks
  let w := quoteAsks asks
    { remainingTicks := wantedTicks.getD (u128 - 1), remainingBudget := budget.getD (u128 - 1) }
  return {
    filledTicks := w.filledTicks
    totalWithFee := w.totalWithFee
    complete := match wantedTicks with
      | some want => decide (w.filledTicks ≥ want)
      | none => decide (w.filledTicks > 0)
    fills := w.fills }

def submitSafeSingleAskQuote (display : String → String) (asks : List OrderBookOrder)
    (wantedTicks budget : Option ℕ) : Except String Quote :=
  executableQuote display asks wantedTicks budget

/-! ## Asks of distinct TokenContracts -/

variable {display : String → String} {l m : List OrderBookOrder} {o : OrderBookOrder}

def tcKey (o : OrderBookOrder) : String := (o.tokenContract.getD "").toLower

theorem entryPush_perm (key : String) (o : OrderBookOrder) :
    ∀ {m : List (String × List OrderBookOrder)}, key ∉ m.map Prod.fst →
      (entryPush key o m).Perm ((key, [o]) :: m)
  | [], _ => .refl _
  | (k, group) :: m, h => by
    rw [List.map_cons, List.mem_cons, not_or] at h
    unfold entryPush
    rw [if_neg h.1]
    split
    · exact .refl _
    · exact ((entryPush_perm key o h.2).cons _).trans (.swap _ _ _)

theorem pushAsk_perm {m : List (String × List OrderBookOrder)} (ho : o.isRestingAsk = true)
    (h : tcKey o ∉ m.map Prod.fst) : (pushAsk m o).Perm ((tcKey o, [o]) :: m) := by
  unfold pushAsk tcKey at *
  cases htc : o.tokenContract with
  | none =>
    simp only [OrderBookOrder.isRestingAsk, htc] at ho
    simp at ho
  | some tc =>
    rw [htc] at h
    exact entryPush_perm _ o h

theorem foldl_pushAsk_perm : ∀ {l : List OrderBookOrder} {m : List (String × List OrderBookOrder)},
    (∀ o ∈ l, o.isRestingAsk = true) → (l.map tcKey ++ m.map Prod.fst).Nodup →
    (l.foldl pushAsk m).Perm (l.map (fun o => (tcKey o, [o])) ++ m)
  | [], m, _, _ => .refl _
  | o :: l, m, hrest, hnodup => by
    have hperm : (pushAsk m o).Perm ((tcKey o, [o]) :: m) := by
      refine pushAsk_perm (hrest o List.mem_cons_self) fun hmem => ?_
      rw [List.map_cons, List.cons_append, List.nodup_cons] at hnodup
      exact hnodup.1 (List.mem_append_right _ hmem)
    have hkeys : ((pushAsk m o).map Prod.fst).Perm (tcKey o :: m.map Prod.fst) := hperm.map _
    have hnodup' : (l.map tcKey ++ (pushAsk m o).map Prod.fst).Nodup := by
      refine ((hkeys.append_left _).trans List.perm_middle).nodup_iff.mpr ?_
      exact hnodup
    refine (foldl_pushAsk_perm (fun a ha => hrest a (List.mem_cons_of_mem o ha)) hnodup').trans ?_
    exact (hperm.append_left _).trans List.perm_middle

theorem mapM_coalesceGroup : ∀ {m : List (String × List OrderBookOrder)},
    (∀ g ∈ m, ∃ o, g.2 = [o]) →
    m.mapM (coalesceGroup display) = .ok (m.flatMap Prod.snd)
  | [], _ => rfl
  | g :: m, h => by
    obtain ⟨o, ho⟩ := h g List.mem_cons_self
    have hhead : coalesceGroup display g = .ok o := by
      unfold coalesceGroup
      rw [ho]
      rfl
    rw [List.mapM_cons, hhead, mapM_coalesceGroup fun g' hg' => h g' (List.mem_cons_of_mem g hg'),
      List.flatMap_cons, ho]
    rfl

theorem flatMap_singletons : ∀ l : List OrderBookOrder,
    (l.map fun o => (tcKey o, [o])).flatMap Prod.snd = l
  | [] => rfl
  | o :: l => by
    rw [List.map_cons, List.flatMap_cons, flatMap_singletons l]
    rfl

def byPriceTime (l : List OrderBookOrder) : List OrderBookOrder := l.insertionSort PriceTimeLe

theorem byPriceTime_perm : (byPriceTime l).Perm l := List.perm_insertionSort _ _

theorem byPriceTime_sorted : (byPriceTime l).Pairwise PriceTimeLe := by
  have htotal : Std.Total PriceTimeLe := ⟨fun a b => by unfold PriceTimeLe; omega⟩
  have htrans : IsTrans OrderBookOrder PriceTimeLe := ⟨fun a b c => by unfold PriceTimeLe; omega⟩
  exact List.pairwise_insertionSort _ _

theorem byPriceTime_eq (hids : (l.map OrderBookOrder.orderId).Nodup) (h : m.Perm l) :
    byPriceTime m = byPriceTime l := by
  refine List.Perm.eq_of_pairwise (fun a b ha hb hab hba => ?_) byPriceTime_sorted
    byPriceTime_sorted ((byPriceTime_perm.trans h).trans byPriceTime_perm.symm)
  have ha' := h.mem_iff.mp (byPriceTime_perm.mem_iff.mp ha)
  have hb' := byPriceTime_perm.mem_iff.mp hb
  refine List.inj_on_of_nodup_map hids ha' hb' ?_
  unfold PriceTimeLe at hab hba
  omega

theorem coalesce_distinct (hrest : ∀ o ∈ l, o.isRestingAsk = true) (hdistinct : (l.map tcKey).Nodup)
    (hids : (l.map OrderBookOrder.orderId).Nodup) :
    coalesceEquivalentRestingAsks display l = .ok (byPriceTime l) := by
  have hperm : (l.foldl pushAsk []).Perm (l.map fun o => (tcKey o, [o])) := by
    have h := foldl_pushAsk_perm (m := []) hrest (by rwa [List.map_nil, List.append_nil])
    rwa [List.append_nil] at h
  have hgroups : ∀ g ∈ l.foldl pushAsk [], ∃ o, g.2 = [o] := by
    intro g hg
    obtain ⟨o, -, rfl⟩ := List.mem_map.mp (hperm.mem_iff.mp hg)
    exact ⟨o, rfl⟩
  have hall : ((l.foldl pushAsk []).flatMap Prod.snd).Perm l := by
    have h := hperm.flatMap_right Prod.snd
    rwa [flatMap_singletons] at h
  unfold coalesceEquivalentRestingAsks
  rw [List.filter_eq_self.mpr hrest]
  dsimp only
  rw [mapM_coalesceGroup hgroups]
  exact congrArg Except.ok (byPriceTime_eq hids hall)

/-! ## The walk of a quote -/

/-- `n` ticks taken from the asks of a list one after the other: each ask with its share. -/
def split : List OrderBookOrder → ℕ → List (OrderBookOrder × ℕ)
  | [], _ => []
  | a :: l, n => if n = 0 then [] else (a, min a.ticks n) :: split l (n - min a.ticks n)

def totalTicks (l : List OrderBookOrder) : ℕ := (l.map OrderBookOrder.ticks).sum

def outlay (f : ℕ → ℕ) (x : List (OrderBookOrder × ℕ)) : ℕ :=
  (x.map fun y => y.2 * f y.1.pricePerTick).sum

def FeeFits (o : OrderBookOrder) : Prop := o.pricePerTick * platformFeeBps < u128

instance (o : OrderBookOrder) : Decidable (FeeFits o) :=
  inferInstanceAs (Decidable (o.pricePerTick * platformFeeBps < u128))

def quoteFill (y : OrderBookOrder × ℕ) : QuoteFill :=
  { orderId := y.1.orderId, tokenContract := y.1.tokenContract.getD "", ticks := y.2
    pricePerTick := y.1.pricePerTick, costWithFee := y.2 * unit y.1.pricePerTick }

theorem split_zero : split l 0 = [] := by cases l <;> rfl

theorem split_cons {n : ℕ} (hn : n ≠ 0) :
    split (o :: l) n = (o, min o.ticks n) :: split l (n - min o.ticks n) := if_neg hn

theorem outlay_cons (f : ℕ → ℕ) (y : OrderBookOrder × ℕ) (x : List (OrderBookOrder × ℕ)) :
    outlay f (y :: x) = y.2 * f y.1.pricePerTick + outlay f x := by
  unfold outlay
  rw [List.map_cons, List.sum_cons]

theorem split_mem : ∀ {l : List OrderBookOrder} {n : ℕ}, ∀ y ∈ split l n, y.1 ∈ l
  | [], _, y, hy => absurd hy List.not_mem_nil
  | a :: l, n, y, hy => by
    by_cases hn : n = 0
    · rw [hn, split_zero] at hy
      exact absurd hy List.not_mem_nil
    rw [split_cons hn] at hy
    rcases List.mem_cons.mp hy with rfl | hy
    · exact List.mem_cons_self
    · exact List.mem_cons_of_mem a (split_mem y hy)

theorem split_ticks : ∀ {l : List OrderBookOrder} {n : ℕ}, n ≤ totalTicks l →
    outlay (fun _ => 1) (split l n) = n
  | [], n, h => (Nat.le_zero.mp h).symm
  | a :: l, n, h => by
    by_cases hn : n = 0
    · rw [hn, split_zero]
      rfl
    unfold totalTicks at h
    rw [List.map_cons, List.sum_cons] at h
    have hrest : n - min a.ticks n ≤ totalTicks l := by
      unfold totalTicks
      omega
    rw [split_cons hn, outlay_cons, split_ticks hrest]
    dsimp only
    omega

theorem outlay_le {f : ℕ → ℕ} {c : ℕ} : ∀ {x : List (OrderBookOrder × ℕ)},
    (∀ y ∈ x, f y.1.pricePerTick ≤ c) → outlay f x ≤ outlay (fun _ => 1) x * c
  | [], _ => Nat.zero_le _
  | y :: x, h => by
    obtain ⟨hy, hx⟩ := List.forall_mem_cons.mp h
    rw [outlay_cons, outlay_cons, Nat.mul_one, Nat.add_mul]
    exact Nat.add_le_add (Nat.mul_le_mul_left _ hy) (outlay_le hx)

/-- A share is one tick exactly when the ticks before some ask fall one short of `n`. -/
theorem split_lone : ∀ {l : List OrderBookOrder} {n : ℕ}, (∀ a ∈ l, 2 ≤ a.ticks) →
    ((∀ y ∈ split l n, 2 ≤ y.2) ↔ ∀ l₁ a l₂, l = l₁ ++ a :: l₂ → n ≠ totalTicks l₁ + 1)
  | [], n, _ => by
    refine ⟨fun _ l₁ a l₂ h => ?_, fun _ y hy => absurd hy List.not_mem_nil⟩
    exact absurd h (List.append_ne_nil_of_right_ne_nil _ (List.cons_ne_nil _ _)).symm
  | a :: l, n, hwide => by
    have ha := hwide a List.mem_cons_self
    have hl : ∀ b ∈ l, 2 ≤ b.ticks := fun b hb => hwide b (List.mem_cons_of_mem a hb)
    by_cases hn : n = 0
    · rw [hn, split_zero]
      exact ⟨fun _ l₁ b l₂ _ h => absurd h (Nat.succ_ne_zero _).symm,
        fun _ y hy => absurd hy List.not_mem_nil⟩
    rw [split_cons hn, List.forall_mem_cons, split_lone hl]
    dsimp only
    constructor
    · rintro ⟨hmin, hrest⟩ l₁ b l₂ heq hlone
      cases l₁ with
      | nil =>
        unfold totalTicks at hlone
        rw [List.map_nil, List.sum_nil] at hlone
        omega
      | cons c l₁ =>
        obtain ⟨rfl, htail⟩ := List.cons.inj heq
        have := hrest l₁ b l₂ htail
        unfold totalTicks at hlone this
        rw [List.map_cons, List.sum_cons] at hlone
        omega
    · intro h
      have hone := h [] a l rfl
      unfold totalTicks at hone
      rw [List.map_nil, List.sum_nil] at hone
      refine ⟨by omega, fun l₁ b l₂ heq hlone => ?_⟩
      refine h (a :: l₁) b l₂ (by rw [heq]; rfl) ?_
      unfold totalTicks at hlone ⊢
      rw [List.map_cons, List.sum_cons]
      omega

theorem requiredEscrow_ge {n p : ℕ} : min (n * unit p) (u128 - 1) ≤ requiredEscrowForBuy n p := by
  unfold requiredEscrowForBuy checkedRequiredEscrowForBuy checkedMul checkedAdd
  by_cases hfee : p * platformFeeBps < u128
  swap
  · rw [if_neg hfee]
    exact min_le_right _ _
  rw [if_pos hfee]
  dsimp only [bind, Option.bind]
  by_cases hadd : p + p * platformFeeBps / bpsDenominator < u128
  swap
  · rw [if_neg hadd]
    exact min_le_right _ _
  rw [if_pos hadd]
  dsimp only
  by_cases hmul : n * (p + p * platformFeeBps / bpsDenominator) < u128
  · rw [if_pos hmul]
    exact min_le_left _ _
  · rw [if_neg hmul]
    exact min_le_right _ _

theorem requiredEscrow_fits (h : FeeFits o) {n : ℕ} (hn : n * unit o.pricePerTick < u128) :
    requiredEscrowForBuy n o.pricePerTick = n * unit o.pricePerTick := by
  have hadd : o.pricePerTick + o.pricePerTick * platformFeeBps / bpsDenominator < u128 := by
    unfold FeeFits platformFeeBps at h
    unfold platformFeeBps bpsDenominator
    omega
  have hmul : checkedMul n (o.pricePerTick + o.pricePerTick * platformFeeBps / bpsDenominator) =
      some (n * unit o.pricePerTick) := if_pos hn
  unfold requiredEscrowForBuy checkedRequiredEscrowForBuy
  rw [show checkedMul o.pricePerTick platformFeeBps = some (o.pricePerTick * platformFeeBps) from
    if_pos h]
  dsimp only [bind, Option.bind]
  rw [checkedAdd_of_lt hadd]
  dsimp only
  rw [hmul]
  rfl

theorem requiredEscrow_unfit (h : ¬ FeeFits o) {n : ℕ} :
    requiredEscrowForBuy n o.pricePerTick = u128 - 1 := by
  unfold requiredEscrowForBuy checkedRequiredEscrowForBuy
  rw [show checkedMul o.pricePerTick platformFeeBps = none from if_neg h]
  rfl

theorem unit_small (h : FeeFits o) : unit o.pricePerTick < u128 - 1 := by
  unfold FeeFits platformFeeBps u128 at h
  unfold unit fee platformFeeBps bpsDenominator u128
  omega

def Listed (o : OrderBookOrder) : Prop := o.isRestingAsk = true ∧ 0 < o.pricePerTick

theorem Listed.tokenContract (h : Listed o) : ∃ tc, o.tokenContract = some tc := by
  have hrest := h.1
  unfold OrderBookOrder.isRestingAsk at hrest
  simp only [Bool.and_eq_true, Option.isSome_iff_exists] at hrest
  exact hrest.1.2

theorem Listed.ticks_pos (h : Listed o) : 0 < o.ticks := by
  have hrest := h.1
  unfold OrderBookOrder.isRestingAsk at hrest
  simp only [Bool.and_eq_true, decide_eq_true_eq] at hrest
  exact hrest.2

theorem Listed.unit_pos (h : Listed o) : 0 < unit o.pricePerTick :=
  Nat.add_pos_left h.2 _

def share (o : OrderBookOrder) (w : QuoteWalk) : ℕ :=
  min (min o.ticks w.remainingTicks) (w.remainingBudget / unit o.pricePerTick)

variable {w : QuoteWalk}

theorem share_cost : share o w * unit o.pricePerTick ≤ w.remainingBudget :=
  (Nat.mul_le_mul_right _ (min_le_right _ _)).trans (Nat.div_mul_le_self _ _)

theorem requiredEscrow_one (hfit : FeeFits o) :
    requiredEscrowForBuy 1 o.pricePerTick = unit o.pricePerTick := by
  have hsmall := unit_small hfit
  have h := requiredEscrow_fits hfit (n := 1) (by omega)
  rwa [Nat.one_mul] at h

theorem quoteAsks_halt (ho : Listed o) (hfit : FeeFits o) (h : share o w = 0) :
    quoteAsks (o :: l) w = w := by
  have hpos := ho.unit_pos
  have hsmall := unit_small hfit
  unfold quoteAsks
  dsimp only
  rw [requiredEscrow_one hfit]
  split
  · rfl
  · rw [if_neg (by omega)]
    exact if_pos h

theorem quoteAsks_fill (ho : Listed o) (hfit : FeeFits o) (hbudget : w.remainingBudget < u128)
    (h : share o w ≠ 0) :
    quoteAsks (o :: l) w = quoteAsks l
      { remainingTicks := w.remainingTicks - share o w
        remainingBudget := w.remainingBudget - share o w * unit o.pricePerTick
        filledTicks := saturatingAdd w.filledTicks (share o w)
        totalWithFee := saturatingAdd w.totalWithFee (share o w * unit o.pricePerTick)
        fills := w.fills ++ [quoteFill (o, share o w)] } := by
  obtain ⟨tc, htc⟩ := ho.tokenContract
  have hpos := ho.unit_pos
  have hsmall := unit_small hfit
  have hgo : ¬ (w.remainingTicks = 0 ∨ w.remainingBudget = 0) := by
    rintro (hz | hz)
    · exact h (by unfold share; rw [hz, Nat.min_zero, Nat.zero_min])
    · exact h (by unfold share; rw [hz, Nat.zero_div, Nat.min_zero])
  have hcost : requiredEscrowForBuy (share o w) o.pricePerTick = share o w * unit o.pricePerTick :=
    requiredEscrow_fits hfit (share_cost.trans_lt hbudget)
  rw [quoteAsks, if_neg hgo]
  dsimp only
  rw [requiredEscrow_one hfit, if_neg (by omega)]
  change (if share o w = 0 then w else _) = _
  rw [if_neg h, htc]
  dsimp only
  change quoteAsks l { w with
    remainingTicks := w.remainingTicks - share o w
    remainingBudget := w.remainingBudget - requiredEscrowForBuy (share o w) o.pricePerTick
    filledTicks := saturatingAdd w.filledTicks (share o w)
    totalWithFee := saturatingAdd w.totalWithFee (requiredEscrowForBuy (share o w) o.pricePerTick)
    fills := w.fills ++ [
      { orderId := o.orderId, tokenContract := tc, ticks := share o w
        pricePerTick := o.pricePerTick
        costWithFee := requiredEscrowForBuy (share o w) o.pricePerTick }] } = _
  rw [hcost]
  unfold quoteFill
  rw [htc]
  rfl

theorem quoteAsks_stuck : ∀ {l : List OrderBookOrder} {w : QuoteWalk}, (∀ a ∈ l, Listed a) →
    (∀ a ∈ l, ¬ FeeFits a ∨ w.remainingBudget < unit a.pricePerTick) → quoteAsks l w = w
  | [], _, _, _ => rfl
  | a :: l, w, hlisted, h => by
    have hrest := quoteAsks_stuck (w := w) (fun b hb => hlisted b (List.mem_cons_of_mem a hb))
      fun b hb => h b (List.mem_cons_of_mem a hb)
    by_cases hfit : FeeFits a
    · have hpoor := (h a List.mem_cons_self).resolve_left (not_not.mpr hfit)
      refine quoteAsks_halt (hlisted a List.mem_cons_self) hfit ?_
      unfold share
      rw [Nat.div_eq_of_lt hpoor, Nat.min_zero]
    · rw [quoteAsks]
      split
      · rfl
      · dsimp only
        rw [requiredEscrow_unfit hfit, if_pos (.inr rfl)]
        exact hrest

/-- The asks a split of `n` ticks needs can all be priced and paid for. -/
def Affordable (l : List OrderBookOrder) (n budget : ℕ) : Prop :=
  (∀ y ∈ split l n, FeeFits y.1) ∧ outlay unit (split l n) ≤ budget

theorem affordable_cons {n budget : ℕ} (hn : n ≠ 0) : Affordable (o :: l) n budget ↔
    FeeFits o ∧ min o.ticks n * unit o.pricePerTick ≤ budget ∧
      Affordable l (n - min o.ticks n) (budget - min o.ticks n * unit o.pricePerTick) := by
  unfold Affordable
  rw [split_cons hn, outlay_cons, List.forall_mem_cons]
  dsimp only
  constructor
  · rintro ⟨⟨hfit, hfits⟩, hcost⟩
    exact ⟨hfit, by omega, hfits, by omega⟩
  · rintro ⟨hfit, hfirst, hfits, hcost⟩
    exact ⟨⟨hfit, hfits⟩, by omega⟩

/-- On asks in price order a quote fills what is wanted exactly when the split is affordable, and
then with the split. -/
theorem quoteAsks_split : ∀ {l : List OrderBookOrder} {w : QuoteWalk}, (∀ a ∈ l, Listed a) →
    l.Pairwise (fun a b => a.pricePerTick ≤ b.pricePerTick) → w.remainingBudget < u128 →
    w.filledTicks + w.remainingTicks < u128 → w.remainingTicks ≤ totalTicks l →
    (Affordable l w.remainingTicks w.remainingBudget →
      (quoteAsks l w).filledTicks = w.filledTicks + w.remainingTicks ∧
      (quoteAsks l w).fills = w.fills ++ (split l w.remainingTicks).map quoteFill) ∧
    (¬ Affordable l w.remainingTicks w.remainingBudget →
      (quoteAsks l w).filledTicks < w.filledTicks + w.remainingTicks)
  | [], w, _, _, _, _, htotal => by
    have hz : w.remainingTicks = 0 := Nat.le_zero.mp htotal
    rw [hz]
    refine ⟨fun _ => ⟨rfl, (List.append_nil _).symm⟩, fun h => absurd ?_ h⟩
    exact ⟨fun y hy => absurd hy List.not_mem_nil, Nat.zero_le _⟩
  | a :: l, w, hlisted, hsorted, hbudget, hfilled, htotal => by
    have ha := hlisted a List.mem_cons_self
    have hl : ∀ b ∈ l, Listed b := fun b hb => hlisted b (List.mem_cons_of_mem a hb)
    obtain ⟨hfirst, hsorted⟩ := List.pairwise_cons.mp hsorted
    have hpos := ha.unit_pos
    by_cases hn : w.remainingTicks = 0
    · have hstop : quoteAsks (a :: l) w = w := by
        rw [quoteAsks, if_pos (.inl hn)]
      rw [hstop, hn, split_zero]
      refine ⟨fun _ => ⟨rfl, (List.append_nil _).symm⟩, fun h => absurd ?_ h⟩
      unfold Affordable
      rw [split_zero]
      exact ⟨fun y hy => absurd hy List.not_mem_nil, Nat.zero_le _⟩
    rw [affordable_cons hn, split_cons hn]
    by_cases hfit : FeeFits a
    swap
    · -- prices only rise: no later ask can be priced either
      have hstuck : quoteAsks (a :: l) w = w := by
        refine quoteAsks_stuck hlisted fun b hb => .inl fun hb' => hfit ?_
        rcases List.mem_cons.mp hb with rfl | hb
        · exact hb'
        · exact (Nat.mul_le_mul_right _ (hfirst b hb)).trans_lt hb'
      rw [hstuck]
      refine ⟨fun h => absurd h.1 hfit, fun _ => by omega⟩
    by_cases hwhole : min a.ticks w.remainingTicks * unit a.pricePerTick ≤ w.remainingBudget
    · have hshare : share a w = min a.ticks w.remainingTicks :=
        min_eq_left ((Nat.le_div_iff_mul_le hpos).mpr hwhole)
      have hticks := ha.ticks_pos
      have hle : min a.ticks w.remainingTicks ≤ w.remainingTicks := min_le_right _ _
      rw [quoteAsks_fill ha hfit hbudget (by omega), hshare,
        saturatingAdd_of_lt (by omega)]
      have htotal' : w.remainingTicks - min a.ticks w.remainingTicks ≤ totalTicks l := by
        unfold totalTicks at htotal ⊢
        rw [List.map_cons, List.sum_cons] at htotal
        omega
      have ih := quoteAsks_split (l := l) (w := {
        remainingTicks := w.remainingTicks - min a.ticks w.remainingTicks
        remainingBudget :=
          w.remainingBudget - min a.ticks w.remainingTicks * unit a.pricePerTick
        filledTicks := w.filledTicks + min a.ticks w.remainingTicks
        totalWithFee := saturatingAdd w.totalWithFee
          (min a.ticks w.remainingTicks * unit a.pricePerTick)
        fills := w.fills ++ [quoteFill (a, min a.ticks w.remainingTicks)] }) hl hsorted
        ((Nat.sub_le _ _).trans_lt hbudget) (by dsimp only; omega) htotal'
      dsimp only at ih
      constructor
      · rintro ⟨-, -, hrest⟩
        obtain ⟨hf, hfills⟩ := ih.1 hrest
        refine ⟨hf.trans (by omega), ?_⟩
        rw [hfills, List.append_assoc, List.map_cons]
        rfl
      · intro hnot
        have := ih.2 fun hrest => hnot ⟨hfit, hwhole, hrest⟩
        omega
    · refine ⟨fun h => absurd h.2.1 hwhole, fun _ => ?_⟩
      have hcut : w.remainingBudget / unit a.pricePerTick < min a.ticks w.remainingTicks :=
        (Nat.div_lt_iff_lt_mul hpos).mpr (not_le.mp hwhole)
      have hle : min a.ticks w.remainingTicks ≤ w.remainingTicks := min_le_right _ _
      have hshare : share a w = w.remainingBudget / unit a.pricePerTick := min_eq_right hcut.le
      by_cases hzero : share a w = 0
      · rw [quoteAsks_halt ha hfit hzero]
        omega
      -- what is left does not pay for one more tick, here or further on
      rw [quoteAsks_fill ha hfit hbudget hzero, quoteAsks_stuck hl fun b hb => ?_]
      · dsimp only
        rw [saturatingAdd_of_lt (by omega)]
        omega
      · right
        have hmono : unit a.pricePerTick ≤ unit b.pricePerTick :=
          Nat.add_le_add (hfirst b hb) (TokenContractState.fee_mono (hfirst b hb))
        have hrest := Nat.lt_div_mul_add (a := w.remainingBudget) hpos
        dsimp only
        rw [hshare]
        omega

/-- A quote for `n` ticks. -/
theorem executableQuote_wanted (display : String → String) {n : ℕ} (hlisted : ∀ o ∈ l, Listed o)
    (hdistinct : (l.map tcKey).Nodup) (hids : (l.map OrderBookOrder.orderId).Nodup)
    (hn : n < u128) (htotal : n ≤ totalTicks l) :
    ∃ q, executableQuote display l (some n) none = .ok q ∧
      (q.complete = true ↔ Affordable (byPriceTime l) n (u128 - 1)) ∧
      (Affordable (byPriceTime l) n (u128 - 1) →
        q.fills = (split (byPriceTime l) n).map quoteFill) := by
  have hpos : 0 < u128 := by decide
  have hticks : totalTicks (byPriceTime l) = totalTicks l := (byPriceTime_perm.map _).sum_nat
  have hwalk := quoteAsks_split (l := byPriceTime l)
    (w := { remainingTicks := n, remainingBudget := u128 - 1 })
    (fun a ha => hlisted a (byPriceTime_perm.mem_iff.mp ha))
    (byPriceTime_sorted.imp fun h => by unfold PriceTimeLe at h; omega)
    (by dsimp only; omega) (by dsimp only; omega) (by dsimp only; omega)
  dsimp only at hwalk
  rw [Nat.zero_add] at hwalk
  unfold executableQuote
  rw [coalesce_distinct (fun o ho => (hlisted o ho).1) hdistinct hids]
  refine ⟨_, rfl, ?_, fun h => (hwalk.1 h).2⟩
  dsimp only [Option.getD]
  rw [decide_eq_true_eq]
  constructor
  · intro hfull
    by_contra hnot
    exact absurd hfull (not_le.mpr (hwalk.2 hnot))
  · intro h
    exact (hwalk.1 h).1.ge

def worstPrice (fills : List QuoteFill) : ℕ := (fills.map QuoteFill.pricePerTick).foldr max 0

theorem le_worstPrice : ∀ {x : List (OrderBookOrder × ℕ)}, ∀ y ∈ x,
    y.1.pricePerTick ≤ worstPrice (x.map quoteFill)
  | [], y, hy => absurd hy List.not_mem_nil
  | z :: x, y, hy => by
    rcases List.mem_cons.mp hy with rfl | hy
    · exact le_max_left _ _
    · exact (le_worstPrice y hy).trans (le_max_right _ _)

end ExecutableQuote
