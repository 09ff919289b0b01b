import Dexdo.DexOrderBookLists

/-! # The matching walk of a dex OrderBook

What one fill can do to the book, and the rule that carries an invariant from there through the
walk along a level and the walk over levels. -/
namespace DexOrderBookMatching

open TokenContractState (Address u64 u128)
open SolidityMapping IntrusiveList DexOrderBookState DexOrderBookCalls DexOrderBookLists

variable {s t u : Book} {k : Taker} {w : Progress} {id cur lp j : ℕ}

/-! ## What a walk leaves alone -/

/-- Nothing differs but resting orders, statistics, flags and messages. -/
def Frame (s t : Book) : Prop :=
  t = { s with
    orders := t.orders, levels := t.levels, ownerHead := t.ownerHead, ownerTail := t.ownerTail
    orderCount := t.orderCount, totalMakerRebatesPaid := t.totalMakerRebatesPaid
    totalProtocolFees := t.totalProtocolFees, matchSeq := t.matchSeq, fault := t.fault
    lossy := t.lossy, out := t.out }

theorem Frame.trans (h : Frame s t) (h' : Frame t u) : Frame s u := by
  unfold Frame at h h' ⊢
  calc u = _ := h'
    _ = _ := congrArg (fun b : Book => { b with
      orders := u.orders, levels := u.levels, ownerHead := u.ownerHead, ownerTail := u.ownerTail
      orderCount := u.orderCount, totalMakerRebatesPaid := u.totalMakerRebatesPaid
      totalProtocolFees := u.totalProtocolFees, matchSeq := u.matchSeq, fault := u.fault
      lossy := u.lossy, out := u.out }) h

def Quiet (s t : Book) : Prop :=
  t = { s with
    totalMakerRebatesPaid := t.totalMakerRebatesPaid, totalProtocolFees := t.totalProtocolFees
    matchSeq := t.matchSeq, fault := t.fault, lossy := t.lossy, out := t.out }

theorem Quiet.trans (h : Quiet s t) (h' : Quiet t u) : Quiet s u := by
  unfold Quiet at h h' ⊢
  calc u = _ := h'
    _ = _ := congrArg (fun b : Book => { b with
      totalMakerRebatesPaid := u.totalMakerRebatesPaid, totalProtocolFees := u.totalProtocolFees
      matchSeq := u.matchSeq, fault := u.fault, lossy := u.lossy, out := u.out }) h

theorem Quiet.frame (h : Quiet s t) : Frame s t := by
  unfold Frame
  rw [h]

theorem Quiet.orders (h : Quiet s t) : t.orders = s.orders := by rw [h]

theorem Quiet.levels (h : Quiet s t) : t.levels = s.levels := by rw [h]

theorem Quiet.linked (h : Quiet s t) (hs : Linked s) : Linked t := by
  rw [h]
  exact { hs with }

theorem answer_quiet {c i : ℕ} {o : Out} : Quiet s (s.answer c i o) := rfl

theorem send_quiet {o : Out} : Quiet s (s.send o) := rfl

theorem check_quiet {c : Prop} [Decidable c] : Quiet s (s.check c) := rfl

theorem cast_quiet {x : ℕ} : Quiet s (s.cast x) := rfl

theorem priced_quiet {b : Bool} {p a : ℕ} : Quiet s (Book.priced s b p a) := by
  unfold Book.priced
  split <;> rfl

theorem weighed_quiet {p r : ℕ} : Quiet s (weighed k p r s) := by
  unfold weighed
  split <;> rfl

theorem bookFee_quiet {b : Bool} {a p : ℕ} : Quiet s (bookFee b a p s) := by
  unfold bookFee
  dsimp only
  split <;> rfl

theorem processFill_quiet {n i o a p : ℕ} {b : Bool} {r : ℕ} {x y : Bool} {c m : ℕ} :
    Quiet s (processFill n i o a p b r x y c m s) := by
  unfold processFill
  dsimp only
  refine .trans (.trans ?_ send_quiet) send_quiet
  exact .trans (.trans check_quiet cast_quiet) bookFee_quiet

theorem counted_quiet {c : Prop} [Decidable c] {n : ℕ} :
    Quiet s { s.check c with matchSeq := n } := rfl

theorem announceMatch_quiet {p c a r : ℕ} : Quiet s (announceMatch k p c a r s) := by
  unfold announceMatch
  dsimp only
  have hspent : Quiet s (if k.countsQuote = true then
      (s.check (a * p < u256)).cast (a * p / fullPercent) else s) := by
    split <;> rfl
  generalize (if k.countsQuote = true then
    (s.check (a * p < u256)).cast (a * p / fullPercent) else s) = u at hspent ⊢
  split
  · refine .trans (.trans (.trans ?_ processFill_quiet) processFill_quiet) send_quiet
    refine .trans (.trans ?_ cast_quiet) counted_quiet
    exact hspent.trans check_quiet
  · refine .trans (.trans (.trans ?_ processFill_quiet) processFill_quiet) send_quiet
    refine .trans (.trans ?_ cast_quiet) counted_quiet
    exact hspent.trans check_quiet

theorem sayCancelled_quiet {n i o : ℕ} {b : Bool} {r c m : ℕ} :
    Quiet s (sayCancelled n i o b r c m s) := rfl

/-! ## Books that only lose orders -/

structure Trimmed (s t : Book) : Prop where
  linked : Linked t
  frame : Frame s t
  keys : t.orders.keys ⊆ s.orders.keys
  levels : ∀ side, (t.levels side).keys ⊆ (s.levels side).keys

theorem Trimmed.refl (h : Linked s) : Trimmed s s :=
  ⟨h, rfl, subset_rfl, fun _ => subset_rfl⟩

theorem Trimmed.trans (h : Trimmed s t) (h' : Trimmed t u) : Trimmed s u :=
  ⟨h'.linked, h.frame.trans h'.frame, h'.keys.trans h.keys,
    fun side => (h'.levels side).trans (h.levels side)⟩

theorem Trimmed.of_quiet (h : Linked s) (hq : Quiet s t) : Trimmed s t := by
  refine ⟨hq.linked h, hq.frame, ?_, fun side => ?_⟩
  · rw [hq.orders]
  · rw [hq.levels]

/-- At most the order `cur` was touched, and if it is still there only its amounts. -/
structure OneMaker (cur : ℕ) (s t : Book) : Prop extends Trimmed s t where
  others : ∀ j ∈ s.orders.keys, j ≠ cur →
    j ∈ t.orders.keys ∧ (t.orders.get j).toTerms = (s.orders.get j).toTerms
  own : cur ∈ t.orders.keys → ∃ a f, (t.orders.get cur).toTerms =
    { (s.orders.get cur).toTerms with amount := a, filledAccum := f }

theorem OneMaker.refl (h : Linked s) : OneMaker cur s s :=
  ⟨.refl h, fun _ hj _ => ⟨hj, rfl⟩, fun _ => ⟨_, _, rfl⟩⟩

theorem OneMaker.trans (h : OneMaker cur s t) (h' : OneMaker cur t u) : OneMaker cur s u := by
  refine ⟨h.toTrimmed.trans h'.toTrimmed, fun j hj hne => ?_, fun hc => ?_⟩
  · obtain ⟨h1, h2⟩ := h.others j hj hne
    obtain ⟨h3, h4⟩ := h'.others j h1 hne
    exact ⟨h3, h4.trans h2⟩
  · obtain ⟨a, f, hown⟩ := h'.own hc
    obtain ⟨a', f', hown'⟩ := h.own (h'.keys hc)
    rw [hown'] at hown
    exact ⟨a, f, hown⟩

theorem OneMaker.of_removal (h : Removal cur s t) : OneMaker cur s t := by
  refine ⟨⟨h.linked, ?_, ?_, h.levels⟩, fun j hj hne => ?_, fun hc => ?_⟩
  · unfold Frame
    rw [h.frame]
  · rw [h.keys]
    exact Finset.erase_subset _ _
  · have hmem : j ∈ t.orders.keys := by
      rw [h.keys]
      exact Finset.mem_erase.mpr ⟨hne, hj⟩
    exact ⟨hmem, h.terms j hmem⟩
  · rw [h.keys] at hc
    exact absurd rfl (Finset.mem_erase.mp hc).1

theorem OneMaker.quiet (h : OneMaker cur s t) (h' : Quiet t u) : OneMaker cur s u := by
  have hu := Trimmed.of_quiet h.linked h'
  refine ⟨h.toTrimmed.trans hu, ?_, ?_⟩
  · rw [h'.orders]
    exact h.others
  · rw [h'.orders]
    exact h.own

theorem OneMaker.of_quiet (h : Linked s) (hq : Quiet s t) : OneMaker cur s t :=
  (OneMaker.refl h).quiet hq

theorem OneMaker.filled (n : ℕ) (h : OneMaker cur s t) (hc : cur ∈ t.orders.keys) :
    OneMaker cur s (t.editOrder cur (withFilled n)) := by
  have hkeys : (t.editOrder cur (withFilled n)).orders.keys = t.orders.keys :=
    Mapping.keys_modify hc
  refine h.trans ⟨⟨editFilled_linked n h.linked hc, rfl, hkeys.subset, fun _ => subset_rfl⟩,
    fun j hj hne => ⟨hkeys ▸ hj, ?_⟩, fun _ => ⟨(t.orders.get cur).amount, n, ?_⟩⟩
  · exact congrArg Order.toTerms (Mapping.get_modify_ne hne)
  · exact congrArg Order.toTerms Mapping.get_modify

theorem OneMaker.part {trade : ℕ} (h : OneMaker cur s t) (hc : cur ∈ t.orders.keys)
    (htrade : trade < (t.orders.get cur).amount) : OneMaker cur s (trimmedMaker cur trade t) := by
  have hkeys : (trimmedMaker cur trade t).orders.keys = t.orders.keys := Mapping.keys_modify hc
  refine h.trans ⟨⟨trimmedMaker_linked h.linked hc htrade, rfl, hkeys.subset, fun c q hq => ?_⟩,
    fun j hj hne => ⟨hkeys ▸ hj, ?_⟩, fun _ => ⟨(t.orders.get cur).amount - trade, (t.orders.get cur).filledAccum, ?_⟩⟩
  · rcases setLevel_keys.mp hq with hk | hq
    · obtain ⟨rfl, rfl⟩ := Prod.mk.inj hk
      exact (h.linked.level_iff _ _).mpr (h.linked.prices.first_ne_zero hc)
    · exact hq
  · exact congrArg Order.toTerms (Mapping.get_modify_ne hne)
  · exact congrArg Order.toTerms Mapping.get_modify

theorem cancelResting_one {note nonce : ℕ} (h : Linked s) (hcur : cur ∈ s.orders.keys) :
    OneMaker cur s (cancelResting note cur nonce s) := by
  unfold cancelResting
  dsimp only
  have hq : Quiet s (Book.priced s (s.orders.get cur).isBuy (s.orders.get cur).price
    (s.orders.get cur).amount) := priced_quiet
  generalize Book.priced s _ _ _ = u at hq ⊢
  have hone : OneMaker cur s u := .of_quiet h hq
  have hmem : cur ∈ u.orders.keys := hq.orders ▸ hcur
  exact (hone.trans (.of_removal (removeFromBook_removal hone.linked hmem))).quiet
    sayCancelled_quiet

/-! ## One fill -/

def At (k : Taker) (lp cur : ℕ) (s : Book) : Prop :=
  cur ∈ s.orders.keys ∧ (s.orders.get cur).place = (k.opposite, lp)

theorem tradeOf_le {p a r : ℕ} : tradeOf k p a r ≤ a := by
  unfold tradeOf
  split_ifs <;> omega

theorem tradeOf_base {p a r : ℕ} (hk : k.countsQuote = false) : tradeOf k p a r = min r a := by
  unfold tradeOf
  rw [hk, if_neg Bool.false_ne_true]
  split <;> omega

theorem tradeOf_ne_zero {p a r : ℕ} (hr : r ≠ 0) (ha : a ≠ 0)
    (h : ¬ (k.countsQuote = true ∧ tradeOf k p a r = 0)) : tradeOf k p a r ≠ 0 := by
  cases hk : k.countsQuote with
  | true => exact fun hz => h ⟨hk, hz⟩
  | false =>
    rw [tradeOf_base hk]
    omega

def counted (cur trade : ℕ) (s : Book) : Book :=
  (s.check ((s.orders.get cur).filledAccum + trade < u128)).editOrder cur
    (withFilled ((s.orders.get cur).filledAccum + trade))

theorem counted_get {trade : ℕ} : (counted cur trade s).orders.get cur =
    withFilled ((s.orders.get cur).filledAccum + trade) (s.orders.get cur) := Mapping.get_modify

theorem consumeMaker_full {trade : ℕ} (ha : (s.orders.get cur).amount = trade) :
    consumeMaker k cur trade s = removeFromBook cur (counted cur trade s) := by
  unfold consumeMaker
  dsimp only
  rw [if_pos ha]
  rfl

theorem consumeMaker_part {trade : ℕ} (hat : At k lp cur s)
    (ha : (s.orders.get cur).amount ≠ trade) :
    consumeMaker k cur trade s = trimmedMaker cur trade ((counted cur trade s).check
      (trade ≤ (s.level (s.orders.get cur).side (s.orders.get cur).price).totalAmount)) := by
  have hout : (s.orders.get cur).outcomeId = k.outcomeId :=
    congrArg (fun q : Side × ℕ => q.1.outcomeId) hat.2
  have hget : ((counted cur trade s).check (trade ≤
      (s.level (s.orders.get cur).side (s.orders.get cur).price).totalAmount)).orders.get cur =
      withFilled ((s.orders.get cur).filledAccum + trade) (s.orders.get cur) := counted_get
  unfold consumeMaker trimmedMaker
  dsimp only
  rw [if_neg ha, ← hout, hget]
  rfl

theorem consumeMaker_one {trade : ℕ} (h : Linked s) (hat : At k lp cur s)
    (htrade : trade ≤ (s.orders.get cur).amount) :
    OneMaker cur s (consumeMaker k cur trade s) := by
  have hcheck : OneMaker cur s (s.check ((s.orders.get cur).filledAccum + trade < u128)) :=
    .of_quiet h check_quiet
  have hone : OneMaker cur s (counted cur trade s) := hcheck.filled _ hat.1
  have hmem : cur ∈ (counted cur trade s).orders.keys := Finset.mem_insert_self ..
  by_cases ha : (s.orders.get cur).amount = trade
  · rw [consumeMaker_full ha]
    exact hone.trans (.of_removal (removeFromBook_removal hone.linked hmem))
  · rw [consumeMaker_part hat ha]
    refine (hone.quiet check_quiet).part hmem ?_
    have hamount : ((counted cur trade s).orders.get cur).amount = (s.orders.get cur).amount := by
      rw [counted_get]
      rfl
    change trade < ((counted cur trade s).orders.get cur).amount
    omega

/-- The book a fill writes the maker's record on. -/
def announced (k : Taker) (lp cur : ℕ) (w : Progress) : Book :=
  (announceMatch k lp cur (tradeOf k lp (w.book.orders.get cur).amount w.remaining) w.remaining
    (weighed k lp w.remaining w.book)).check
    (w.filledAccum + tradeOf k lp (w.book.orders.get cur).amount w.remaining < u128)

theorem announced_quiet : Quiet w.book (announced k lp cur w) :=
  (weighed_quiet.trans announceMatch_quiet).trans check_quiet

theorem fillMaker_book : (fillMaker k lp cur w).book = consumeMaker k cur
    (tradeOf k lp (w.book.orders.get cur).amount w.remaining) (announced k lp cur w) := rfl

theorem At.quiet (h : At k lp cur s) (hq : Quiet s t) : At k lp cur t := by
  unfold At
  rw [hq.orders]
  exact h

theorem fillMaker_one (h : Linked w.book) (hat : At k lp cur w.book) :
    OneMaker cur w.book (fillMaker k lp cur w).book := by
  have hq : Quiet w.book (announced k lp cur w) := announced_quiet
  rw [fillMaker_book]
  refine (OneMaker.of_quiet h hq).trans (consumeMaker_one (hq.linked h) (hat.quiet hq) ?_)
  rw [hq.orders]
  exact tradeOf_le

/-- What becomes of the maker: gone if the fill took it whole, else its amount is smaller. -/
theorem fillMaker_own (h : Linked w.book) (hat : At k lp cur w.book) :
    (tradeOf k lp (w.book.orders.get cur).amount w.remaining = (w.book.orders.get cur).amount →
      (fillMaker k lp cur w).book.orders.keys = w.book.orders.keys.erase cur) ∧
    (tradeOf k lp (w.book.orders.get cur).amount w.remaining ≠ (w.book.orders.get cur).amount →
      cur ∈ (fillMaker k lp cur w).book.orders.keys ∧
      ((fillMaker k lp cur w).book.orders.get cur).amount = (w.book.orders.get cur).amount -
        tradeOf k lp (w.book.orders.get cur).amount w.remaining) := by
  have hq : Quiet w.book (announced k lp cur w) := announced_quiet
  have hlinked := hq.linked h
  have hat' := hat.quiet hq
  rw [fillMaker_book]
  generalize htrade : tradeOf k lp (w.book.orders.get cur).amount w.remaining = trade
  have hcounted : Linked (counted cur trade (announced k lp cur w)) :=
    editFilled_linked _ { hlinked with } hat'.1
  have hkeys : (counted cur trade (announced k lp cur w)).orders.keys = w.book.orders.keys := by
    have hk : (counted cur trade (announced k lp cur w)).orders.keys =
        (announced k lp cur w).orders.keys := Mapping.keys_modify hat'.1
    rw [hk, hq.orders]
  constructor
  · intro hw
    rw [consumeMaker_full (by rw [hq.orders]; exact hw.symm),
      (removeFromBook_removal hcounted (hkeys ▸ hat.1)).keys, hkeys]
  · intro hw
    rw [consumeMaker_part hat' (by rw [hq.orders]; exact hw.symm)]
    refine ⟨Finset.mem_insert_self .., ?_⟩
    have hget : (counted cur trade (announced k lp cur w)).orders.get cur =
        withFilled ((w.book.orders.get cur).filledAccum + trade) (w.book.orders.get cur) := by
      rw [counted_get, hq.orders]
    have hown : ∀ v : Book, ((trimmedMaker cur trade v).orders.get cur).amount =
        (v.orders.get cur).amount - trade := by
      intro v
      change ((v.orders.modify cur _).get cur).amount = _
      rw [Mapping.get_modify]
      rfl
    rw [hown]
    change ((counted cur trade (announced k lp cur w)).orders.get cur).amount - trade = _
    rw [hget]
    rfl

/-! ## The messages of a fill -/

theorem processFill_out {n i o a p : ℕ} {b : Bool} {r : ℕ} {x y : Bool} {c i' : ℕ} :
    (processFill n i o a p b r x y c i' s).out = s.out ++
      [⟨0, 0, .orderFilled i a p (if x then takerFeeOf a p else makerRebateOf a p) x i' n⟩,
        ⟨0, 0, .onOrderFilled n o a p b r (if x then takerFeeOf a p else makerRebateOf a p) (!x) i y
          s.numOutcomes c⟩] := by
  cases x <;> simp [processFill, bookFee, Book.send, Book.answer, Book.check, Book.cast]

/-- What a match sends: event and callback of the maker, then of the taker, then the aggregated
event of the maker. -/
def matchMessages (k : Taker) (price cur trade remaining : ℕ) (s : Book) : List Sent :=
  let cp := s.orders.get cur
  let refund := refundOf (if k.isBuy then if k.isMarket then 0 else k.storedPrice else cp.price)
    price trade
  [⟨0, 0, .orderFilled cur trade price (makerRebateOf trade price) false (s.matchSeq + 1)
      cp.depositHash⟩,
    ⟨0, 0, .onOrderFilled cp.depositHash k.outcomeId trade price cp.isBuy
      (if k.isBuy then 0 else refund) (makerRebateOf trade price) true cur
      (decide (cp.amount = trade)) s.numOutcomes cp.clientOrderId⟩,
    ⟨0, 0, .orderFilled k.orderId trade price (takerFeeOf trade price) true (s.matchSeq + 1)
      k.depositHash⟩,
    ⟨0, 0, .onOrderFilled k.depositHash k.outcomeId trade price k.isBuy
      (if k.isBuy then refund else 0) (takerFeeOf trade price) false k.orderId
      (decide (consumed k trade price = remaining)) s.numOutcomes k.clientOrderId⟩,
    ⟨0, 0, if cp.amount = trade then .fullyFilled cur cp.clientOrderId (cp.filledAccum + trade)
      else .partialFill cur cp.clientOrderId trade (cp.amount - trade)⟩]

theorem processFill_matchSeq {n i o a p : ℕ} {b : Bool} {r : ℕ} {x y : Bool} {c i' : ℕ} :
    (processFill n i o a p b r x y c i' s).matchSeq = s.matchSeq := by
  cases x <;> simp [processFill, bookFee, Book.send, Book.answer, Book.check, Book.cast]

theorem processFill_numOutcomes {n i o a p : ℕ} {b : Bool} {r : ℕ} {x y : Bool} {c i' : ℕ} :
    (processFill n i o a p b r x y c i' s).numOutcomes = s.numOutcomes := by
  cases x <;> simp [processFill, bookFee, Book.send, Book.answer, Book.check, Book.cast]

theorem announceMatch_out {p c a r : ℕ} :
    (announceMatch k p c a r s).out = s.out ++ matchMessages k p c a r s ∧
    (announceMatch k p c a r s).matchSeq = s.matchSeq + 1 := by
  unfold announceMatch matchMessages
  dsimp only
  have hq : Quiet s (if k.countsQuote = true then
      (s.check (a * p < u256)).cast (a * p / fullPercent) else s) ∧
      (if k.countsQuote = true then (s.check (a * p < u256)).cast (a * p / fullPercent)
        else s).out = s.out ∧
      (if k.countsQuote = true then (s.check (a * p < u256)).cast (a * p / fullPercent)
        else s).matchSeq = s.matchSeq := by
    split
    · exact ⟨rfl, rfl, rfl⟩
    · exact ⟨rfl, rfl, rfl⟩
  generalize (if k.countsQuote = true then
    (s.check (a * p < u256)).cast (a * p / fullPercent) else s) = v at hq ⊢
  obtain ⟨hv, hout, hseq⟩ := hq
  have hnum : v.numOutcomes = s.numOutcomes := by rw [hv]
  by_cases hc : (s.orders.get c).amount = a
  · rw [if_pos hc]
    simp [Book.send, Book.answer, Book.check, Book.cast, processFill_out,
      processFill_matchSeq, processFill_numOutcomes, hout, hseq, hnum, hc]
  · rw [if_neg hc]
    simp [Book.send, Book.answer, Book.check, Book.cast, processFill_out,
      processFill_matchSeq, processFill_numOutcomes, hout, hseq, hnum, hc]

theorem removeFromBook_out : (removeFromBook id s).out = s.out := by
  unfold removeFromBook
  dsimp only
  split
  · rfl
  · rw [unlinkAtPrice_eq]
    rfl

theorem consumeMaker_out {trade : ℕ} : (consumeMaker k cur trade s).out = s.out := by
  unfold consumeMaker
  dsimp only
  split
  · exact removeFromBook_out
  · rfl

theorem fillMaker_out : (fillMaker k lp cur w).book.out = w.book.out ++
    matchMessages k lp cur (tradeOf k lp (w.book.orders.get cur).amount w.remaining) w.remaining
      w.book := by
  have hq : Quiet w.book (weighed k lp w.remaining w.book) := weighed_quiet
  have hout : (weighed k lp w.remaining w.book).out = w.book.out := by
    unfold weighed
    split <;> rfl
  have hmsg : ∀ a r, matchMessages k lp cur a r (weighed k lp w.remaining w.book) =
      matchMessages k lp cur a r w.book := by
    intro a r
    unfold weighed
    split <;> rfl
  rw [fillMaker_book, consumeMaker_out]
  change (announceMatch _ _ _ _ _ _).out = _
  rw [announceMatch_out.1, hmsg, hout]

/-! ## The walk -/

theorem At.first (h : Linked s) (hf : (s.level k.opposite lp).firstOrderId ≠ 0) :
    At k lp (s.level k.opposite lp).firstOrderId s :=
  h.prices.first_mem (k := (k.opposite, lp)) hf

theorem At.next (h : Linked s) (hat : At k lp cur s) (hone : OneMaker cur s t)
    (hn : (s.orders.get cur).nextAtPrice ≠ 0) : At k lp (s.orders.get cur).nextAtPrice t := by
  obtain ⟨hcur, hplace⟩ := hat
  obtain ⟨hmem, hcls, hlt⟩ := h.prices.next_mem hcur hn
  obtain ⟨hmem', hterms⟩ := hone.others _ hmem hlt.ne'
  refine ⟨hmem', ?_⟩
  rw [congrArg Terms.place hterms]
  exact hcls.trans hplace

section Rules

variable {I : Progress → Prop}

/-- An invariant that a fill keeps is kept along a level. A walk stops at its cap only with
something left to trade. -/
theorem matchOrders_rule (hlinked : ∀ w, I w → Linked w.book)
    (hdust : ∀ w, I w → I { w with book := weighed k lp w.remaining w.book })
    (hstep : ∀ cur w, I w → At k lp cur w.book → w.remaining ≠ 0 →
      tradeOf k lp (w.book.orders.get cur).amount w.remaining ≠ 0 → I (fillMaker k lp cur w)) :
    ∀ (left cur : ℕ) (w : Progress), I w → (cur ≠ 0 → At k lp cur w.book) →
      I (matchOrders k lp left cur w).2.1 ∧
      ((matchOrders k lp left cur w).2.2 ≠ .done →
        (matchOrders k lp left cur w).2.1.remaining ≠ 0) := by
  intro left
  induction left with
  | zero =>
    intro cur w hI hat
    unfold matchOrders
    split
    · exact ⟨hI, fun hc => absurd rfl hc⟩
    · rename_i hgo
      exact ⟨hI, fun _ => (not_or.mp hgo).2⟩
  | succ left ih =>
    intro cur w hI hat
    unfold matchOrders
    split
    · exact ⟨hI, fun hc => absurd rfl hc⟩
    rename_i hgo
    obtain ⟨hcur, hrem⟩ := not_or.mp hgo
    have hmem := (hat hcur).1
    dsimp only
    split
    · exact ⟨hdust w hI, fun _ => hrem⟩
    rename_i htrade
    have hne := tradeOf_ne_zero hrem ((hlinked w hI).live cur hmem) htrade
    have hI' := hstep cur w hI (hat hcur) hrem hne
    have hone := fillMaker_one (hlinked w hI) (hat hcur)
    exact ih _ _ hI' fun hn => (hat hcur).next (hlinked w hI) hone hn

theorem matchLevels_rule (hlinked : ∀ w, I w → Linked w.book)
    (hdust : ∀ lp w, I w → I { w with book := weighed k lp w.remaining w.book })
    (hstep : ∀ lp cur w, k.crosses lp = true → I w → At k lp cur w.book → w.remaining ≠ 0 →
      tradeOf k lp (w.book.orders.get cur).amount w.remaining ≠ 0 → I (fillMaker k lp cur w)) :
    ∀ {levels left : ℕ} {o : Option ℕ} {w : Progress}, I w →
      I (matchLevels k levels left o w).1 ∧
      ((matchLevels k levels left o w).2 ≠ .done →
        (matchLevels k levels left o w).1.remaining ≠ 0) := by
  intro levels
  induction levels with
  | zero =>
    intro left o w hI
    unfold matchLevels
    exact ⟨hI, fun hc => absurd rfl hc⟩
  | succ levels ih =>
    intro left o w hI
    cases o with
    | none =>
      unfold matchLevels
      exact ⟨hI, fun hc => absurd rfl hc⟩
    | some lp =>
      unfold matchLevels
      split
      · exact ⟨hI, fun hc => absurd rfl hc⟩
      rename_i hgo
      have hcross := (Bool.not_eq_false _).mp (not_or.mp hgo).2
      have hwalk := matchOrders_rule hlinked (hdust lp) (fun cur w => hstep lp cur w hcross) left
        (w.book.level k.opposite lp).firstOrderId w hI (At.first (hlinked w hI))
      generalize matchOrders k lp left _ w = r at hwalk ⊢
      obtain ⟨left', w', e⟩ := r
      obtain ⟨hI', hcap⟩ := hwalk
      cases e with
      | done => exact ih hI'
      | capped => exact ⟨hI', fun _ => hcap (by simp)⟩
      | dust => exact ⟨hI', fun _ => hcap (by simp)⟩

end Rules

theorem matchOrders_dust : ∀ (left cur : ℕ) (w : Progress),
    (matchOrders k lp left cur w).2.2 = .dust → k.countsQuote = true := by
  intro left
  induction left with
  | zero =>
    intro cur w h
    unfold matchOrders at h
    split at h
    · cases h
    · cases h
  | succ left ih =>
    intro cur w h
    unfold matchOrders at h
    split at h
    · cases h
    dsimp only at h
    split at h
    · rename_i hdust
      exact hdust.1
    · exact ih _ _ h

theorem matchLevels_dust : ∀ (levels left : ℕ) (o : Option ℕ) (w : Progress),
    (matchLevels k levels left o w).2 = .dust → k.countsQuote = true := by
  intro levels
  induction levels with
  | zero =>
    intro left o w h
    cases h
  | succ levels ih =>
    intro left o w h
    cases o with
    | none => cases h
    | some lp =>
      unfold matchLevels at h
      split at h
      · cases h
      have hdust : (matchOrders k lp left (w.book.level k.opposite lp).firstOrderId w).2.2 =
          .dust → k.countsQuote = true := matchOrders_dust left _ w
      generalize matchOrders k lp left _ w = r at h hdust
      obtain ⟨left', v, e⟩ := r
      cases e with
      | done => exact ih _ _ _ h
      | capped => cases h
      | dust => exact hdust rfl

theorem matchTaker_trimmed (h : Linked w.book) :
    Trimmed w.book (matchTaker k w).1.book ∧
    ((matchTaker k w).2 ≠ .done → (matchTaker k w).1.remaining ≠ 0) := by
  unfold matchTaker
  refine matchLevels_rule (I := fun v => Trimmed w.book v.book) (fun _ hv => hv.linked)
    (fun _ _ hv => hv.trans (.of_quiet hv.linked weighed_quiet))
    (fun _ _ _ _ hv hat _ _ => hv.trans (fillMaker_one hv.linked hat).toTrimmed) (.refl h)

/-! ## What a finished walk leaves on the other side -/

def Taker.worse (k : Taker) (a b : ℕ) : Prop := if k.isBuy then a < b else b < a

instance (k : Taker) (a : ℕ) : DecidablePred (Taker.worse k a) := by
  intro b
  unfold Taker.worse
  infer_instance

structure Leads (k : Taker) (S : Finset ℕ) (o : Option ℕ) : Prop where
  mem : ∀ lp, o = some lp → lp ∈ S
  best : ∀ p ∈ S, ∃ lp, o = some lp ∧ (p = lp ∨ Taker.worse k lp p)

theorem least_leads {S : Finset ℕ} (hk : k.isBuy = true) : Leads k S (Mapping.least S) := by
  refine ⟨fun lp hlp => Mapping.least_mem hlp, fun p hp => ?_⟩
  cases hl : Mapping.least S with
  | none => exact absurd hp (Mapping.least_none hl p)
  | some lp =>
    refine ⟨lp, rfl, ?_⟩
    unfold Taker.worse
    rw [hk, if_pos rfl]
    exact (Mapping.least_le hl hp).eq_or_lt.imp_left Eq.symm

theorem greatest_leads {S : Finset ℕ} (hk : k.isBuy = false) :
    Leads k S (Mapping.greatest S) := by
  refine ⟨fun lp hlp => Mapping.greatest_mem hlp, fun p hp => ?_⟩
  cases hl : Mapping.greatest S with
  | none => exact absurd hp (Mapping.greatest_none hl p)
  | some lp =>
    refine ⟨lp, rfl, ?_⟩
    unfold Taker.worse
    rw [hk, if_neg Bool.false_ne_true]
    exact (Mapping.le_greatest hl hp).eq_or_lt

theorem bestOpposite_leads (k : Taker) (s : Book) :
    Leads k (s.levels k.opposite).keys (bestOpposite k s) := by
  unfold bestOpposite
  cases hk : k.isBuy with
  | true => exact least_leads hk
  | false => exact greatest_leads hk

theorem nextOpposite_leads (k : Taker) (lp : ℕ) (s : Book) :
    Leads k ((s.levels k.opposite).keys.filter (Taker.worse k lp)) (nextOpposite k lp s) := by
  unfold nextOpposite
  cases hk : k.isBuy with
  | true =>
    have hfilter : (s.levels k.opposite).keys.filter (Taker.worse k lp) =
        (s.levels k.opposite).keys.filter (lp < ·) := by
      refine Finset.filter_congr fun p _ => ?_
      simp [Taker.worse, hk]
    rw [hfilter]
    exact least_leads hk
  | false =>
    have hfilter : (s.levels k.opposite).keys.filter (Taker.worse k lp) =
        (s.levels k.opposite).keys.filter (· < lp) := by
      refine Finset.filter_congr fun p _ => ?_
      simp [Taker.worse, hk]
    rw [hfilter]
    exact greatest_leads hk

theorem crosses_worse {a b : ℕ} (h : k.crosses a = false) (hab : Taker.worse k a b) :
    k.crosses b = false := by
  unfold Taker.crosses pricesCross at h ⊢
  unfold Taker.worse at hab
  cases hm : k.isMarket with
  | true => simp [hm] at h
  | false =>
    cases hb : k.isBuy with
    | true =>
      simp [hm, hb] at h hab ⊢
      omega
    | false =>
      simp [hm, hb] at h hab ⊢
      omega

/-- A taker in base units that has something left after a fill took the maker whole: the next
order leads the level. -/
theorem fillMaker_first (hk : k.countsQuote = false) (h : Linked w.book)
    (hcur : (w.book.level k.opposite lp).firstOrderId = cur) (hne : cur ≠ 0)
    (hrem : (fillMaker k lp cur w).remaining ≠ 0) :
    ((fillMaker k lp cur w).book.level k.opposite lp).firstOrderId =
      (w.book.orders.get cur).nextAtPrice := by
  have hat : At k lp cur w.book := hcur ▸ At.first h (hcur ▸ hne)
  have hprev : (w.book.orders.get cur).prevAtPrice = 0 := by
    have hp := h.prices.prev_first (k := (k.opposite, lp)) (hcur ▸ hne)
    rw [← hcur]
    exact hp
  have hq : Quiet w.book (announced k lp cur w) := announced_quiet
  have htrade : tradeOf k lp (w.book.orders.get cur).amount w.remaining =
      (w.book.orders.get cur).amount := by
    have hr : w.remaining - consumed k (tradeOf k lp (w.book.orders.get cur).amount w.remaining)
      lp ≠ 0 := hrem
    unfold consumed at hr
    rw [hk, if_neg Bool.false_ne_true, tradeOf_base hk] at hr
    rw [tradeOf_base hk]
    omega
  have hone : OneMaker cur w.book (announced k lp cur w) := .of_quiet h hq
  have hcounted : OneMaker cur (announced k lp cur w)
      (counted cur (w.book.orders.get cur).amount (announced k lp cur w)) :=
    (OneMaker.of_quiet hone.linked check_quiet).filled _ (hat.quiet hq).1
  have hmem : cur ∈ (counted cur (w.book.orders.get cur).amount
    (announced k lp cur w)).orders.keys := Finset.mem_insert_self ..
  have hget : (counted cur (w.book.orders.get cur).amount (announced k lp cur w)).orders.get cur =
      withFilled ((w.book.orders.get cur).filledAccum + (w.book.orders.get cur).amount)
        (w.book.orders.get cur) := by
    rw [counted_get, hq.orders]
  have hends := (unlinkAtPrice_ends hcounted.linked hmem (k.opposite, lp)).1
  rw [fillMaker_book, htrade, consumeMaker_full (by rw [hq.orders]),
    removeFromBook_eq (hcounted.linked.live cur hmem)]
  refine hends.trans ?_
  rw [hget, if_pos ⟨hat.2.symm, hprev⟩]
  rfl

/-- A walk along a level that ends with something left emptied the level. -/
theorem matchOrders_clear (hk : k.countsQuote = false) : ∀ (left cur : ℕ) (w : Progress),
    Linked w.book → (w.book.level k.opposite lp).firstOrderId = cur →
    (matchOrders k lp left cur w).2.2 = .done →
    (matchOrders k lp left cur w).2.1.remaining ≠ 0 →
    ((matchOrders k lp left cur w).2.1.book.level k.opposite lp).firstOrderId = 0 := by
  intro left
  induction left with
  | zero =>
    intro cur w h hcur hdone hrem
    unfold matchOrders at hdone hrem ⊢
    split at hdone
    · rename_i hstop
      rw [if_pos hstop] at hrem ⊢
      exact hcur.trans (hstop.resolve_right hrem)
    · cases hdone
  | succ left ih =>
    intro cur w h hcur hdone hrem
    unfold matchOrders at hdone hrem ⊢
    split at hdone
    · rename_i hstop
      rw [if_pos hstop] at hrem ⊢
      exact hcur.trans (hstop.resolve_right hrem)
    rename_i hgo
    have hne := (not_or.mp hgo).1
    have hat : At k lp cur w.book := hcur ▸ At.first h (hcur ▸ hne)
    have hbase : ¬ (k.countsQuote = true ∧
        tradeOf k lp (w.book.orders.get cur).amount w.remaining = 0) := by simp [hk]
    dsimp only at hdone hrem ⊢
    rw [if_neg hbase] at hdone
    rw [if_neg hgo, if_neg hbase] at hrem ⊢
    by_cases hr : (fillMaker k lp cur w).remaining = 0
    · -- nothing left: the walk ends on the spot
      exfalso
      apply hrem
      unfold matchOrders
      rw [if_pos (.inr hr)]
      exact hr
    · exact ih _ _ (fillMaker_one h hat).linked (fillMaker_first hk h hcur hne hr) hdone hrem

theorem matchLevels_spent {levels left : ℕ} {o : Option ℕ} (h : w.remaining = 0) :
    matchLevels k levels left o w = (w, .done) := by
  cases levels with
  | zero => rfl
  | succ levels =>
    cases o with
    | none => rfl
    | some lp =>
      unfold matchLevels
      rw [if_pos (.inl h)]

theorem matchLevels_clear (hk : k.countsQuote = false) : ∀ (levels left : ℕ) (o : Option ℕ)
    (w : Progress), Linked w.book → Leads k (w.book.levels k.opposite).keys o →
    (w.book.levels k.opposite).keys.card ≤ levels →
    (matchLevels k levels left o w).2 = .done →
    (matchLevels k levels left o w).1.remaining ≠ 0 →
    ∀ p ∈ ((matchLevels k levels left o w).1.book.levels k.opposite).keys,
      k.crosses p = false := by
  intro levels
  induction levels with
  | zero =>
    intro left o w h hlead hcard hdone hrem p hp
    have hempty := Finset.card_eq_zero.mp (Nat.le_zero.mp hcard)
    unfold matchLevels at hp
    rw [hempty] at hp
    exact absurd hp (Finset.notMem_empty p)
  | succ levels ih =>
    intro left o w h hlead hcard hdone hrem p hp
    cases o with
    | none =>
      unfold matchLevels at hp
      obtain ⟨lp, hlp, -⟩ := hlead.best p hp
      cases hlp
    | some lp =>
      unfold matchLevels at hdone hrem hp
      split at hdone
      · rename_i hstop
        rw [if_pos hstop] at hrem hp
        have hcross := hstop.resolve_left hrem
        obtain ⟨q, hq, hpq⟩ := hlead.best p hp
        cases hq
        rcases hpq with rfl | hworse
        · exact hcross
        · exact crosses_worse hcross hworse
      rename_i hgo
      rw [if_neg hgo] at hrem hp
      have hclear := matchOrders_clear hk left (w.book.level k.opposite lp).firstOrderId w h rfl
      have htrim : Trimmed w.book
          (matchOrders k lp left (w.book.level k.opposite lp).firstOrderId w).2.1.book :=
        (matchOrders_rule (I := fun v => Trimmed w.book v.book) (fun _ hv => hv.linked)
          (fun _ hv => hv.trans (.of_quiet hv.linked weighed_quiet))
          (fun _ _ hv hat _ _ => hv.trans (fillMaker_one hv.linked hat).toTrimmed) left
          (w.book.level k.opposite lp).firstOrderId w (.refl h) (At.first h)).1
      generalize matchOrders k lp left _ w = r at hclear htrim hdone hrem hp
      obtain ⟨left', v, e⟩ := r
      dsimp only at hclear htrim
      cases e with
      | capped => cases hdone
      | dust => cases hdone
      | done =>
        dsimp only at hdone hrem hp
        by_cases hv : v.remaining = 0
        · rw [matchLevels_spent hv] at hrem
          exact absurd hv hrem
        · -- the level is gone, so every level left is worse than it
          have hgone : lp ∉ (v.book.levels k.opposite).keys := by
            rw [htrim.linked.level_iff]
            exact fun hne => hne (hclear rfl hv)
          have hsub := htrim.levels k.opposite
          have hall : (v.book.levels k.opposite).keys.filter (Taker.worse k lp) =
              (v.book.levels k.opposite).keys := by
            refine Finset.filter_true_of_mem fun q hq => ?_
            obtain ⟨lp', hlp', hqlp⟩ := hlead.best q (hsub hq)
            cases hlp'
            exact hqlp.resolve_left fun heq => hgone (heq ▸ hq)
          have hlead' := nextOpposite_leads k lp v.book
          rw [hall] at hlead'
          have hlt : (v.book.levels k.opposite).keys.card <
              (w.book.levels k.opposite).keys.card :=
            Finset.card_lt_card (Finset.ssubset_iff_subset_ne.mpr
              ⟨hsub, fun heq => hgone (heq ▸ hlead.mem lp rfl)⟩)
          exact ih left' _ v htrim.linked hlead' (by omega) hdone hrem p hp

theorem matchTaker_clear (hk : k.countsQuote = false) (h : Linked w.book)
    (hdone : (matchTaker k w).2 = .done) (hrem : (matchTaker k w).1.remaining ≠ 0) :
    ∀ p ∈ ((matchTaker k w).1.book.levels k.opposite).keys, k.crosses p = false :=
  matchLevels_clear hk _ _ _ w h (bestOpposite_leads k w.book) le_rfl hdone hrem

end DexOrderBookMatching
