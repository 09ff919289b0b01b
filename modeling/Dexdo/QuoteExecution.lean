import Dexdo.ExecutableQuote
import Dexdo.InferenceOrderBookGreedy
import Dexdo.InferenceOrderBookOffers
import Dexdo.InferenceOrderBookPrechecks

/-! # Executing a quote

A fill-or-kill BUY placed on the terms of a quote, on the book the quote was computed from. -/
namespace QuoteExecution

open TokenContractState hiding Out Err Sent
open SolidityMapping InferenceOrderBookState InferenceOrderBookCalls InferenceOrderBookStructure
open InferenceOrderBookLists InferenceOrderBookMatching InferenceOrderBookPriority
open InferenceOrderBookGreedy InferenceOrderBookPrechecks InferenceOrderBookMoves
open InferenceOrderBookOffers ExecutableQuote

variable {env : Env} {s t : Book} {k : Taker} {p : Progress} {cur lp n : ℕ}

/-! ## The counters of a match -/

def notional (l : List Trade) : ℕ :=
  (l.map fun
    | .fill _ ticks clearing => ticks * clearing
    | .removal _ _ => 0).sum

def tradedTicks (l : List Trade) : ℕ :=
  (l.map fun
    | .fill _ ticks _ => ticks
    | .removal _ _ => 0).sum

def fillCount (l : List Trade) : ℕ :=
  (l.map fun
    | .fill _ _ _ => 1
    | .removal _ _ => 0).sum

structure Room (s : Book) : Prop where
  notional : s.executedNotional < u128
  ticks : s.executedTicks < u128
  seq : s.matchSeq < u64

structure SameCounts (s t : Book) : Prop where
  notional : t.executedNotional = s.executedNotional
  ticks : t.executedTicks = s.executedTicks
  seq : t.matchSeq = s.matchSeq
  fault : t.fault = s.fault

theorem removeFromBook_counts (cur : ℕ) (cause : Removed) (r : ℕ) (h : 1 ≤ s.orderCount) :
    SameCounts s (removeFromBook cur cause r s) := by
  unfold removeFromBook
  dsimp only
  split
  · exact ⟨rfl, rfl, rfl, rfl⟩
  · refine ⟨rfl, rfl, rfl, ?_⟩
    have hcount : ((unlinkInOwner (s.orders.get cur) (unlinkAtPrice (s.orders.get cur) s)).send
        (.onInferenceOrderRemoved (s.orders.get cur).note s.modelHash cur cause r)).orderCount =
          s.orderCount := rfl
    exact (congrArg (s.fault || !·) (decide_eq_true h)).trans (Bool.or_false _)

theorem settleFill_counters (makerId takerId : ℕ) (bn sn : Address) (pk : ℕ) (tc : Address)
    (n lp : ℕ) (b : Bool) (f c tag : ℕ) :
    (settleFill makerId takerId bn sn pk tc n lp b f c tag s).executedNotional =
      s.executedNotional + n * lp ∧
    (settleFill makerId takerId bn sn pk tc n lp b f c tag s).executedTicks =
      s.executedTicks + n ∧
    (settleFill makerId takerId bn sn pk tc n lp b f c tag s).matchSeq = s.matchSeq + 1 := by
  simp only [settleFill, Book.send, Book.sendFor, Book.check, and_self]

theorem settleFill_fault (makerId takerId : ℕ) (bn sn : Address) (pk : ℕ) (tc : Address)
    (b : Bool) {f : ℕ} (c tag : ℕ) (hcost : fillDebit n lp f < u128)
    (hflags : f &&& flagSubscription = 0) :
    (settleFill makerId takerId bn sn pk tc n lp b f c tag s).fault =
      (s.fault || !decide (s.executedNotional + n * lp < u128) ||
        !decide (s.executedTicks + n < u128 ∧ s.matchSeq + 1 < u64)) := by
  have hpart : n * unit lp < u128 := lt_of_le_of_lt (Nat.le_add_right _ _) hcost
  simp only [settleFill, Book.send, Book.sendFor, Book.check, hpart, hcost, hflags, decide_true,
    ne_eq, not_true_eq_false, false_implies, Bool.not_true, Bool.or_false]

/-- When a fill raises no arithmetic exception. -/
theorem settleFill_room (makerId takerId : ℕ) (bn sn : Address) (pk : ℕ) (tc : Address)
    (b : Bool) {f : ℕ} (c tag : ℕ) (hcost : fillDebit n lp f < u128)
    (hflags : f &&& flagSubscription = 0) :
    (settleFill makerId takerId bn sn pk tc n lp b f c tag s).fault = false ↔ s.fault = false ∧
      Room (settleFill makerId takerId bn sn pk tc n lp b f c tag s) := by
  have hcounters := settleFill_counters (s := s) makerId takerId bn sn pk tc n lp b f c tag
  have hfault := settleFill_fault (s := s) makerId takerId bn sn pk tc b c tag hcost hflags
  generalize settleFill _ _ _ _ _ _ _ _ _ _ _ _ _ = u at hcounters hfault ⊢
  obtain ⟨h1, h2, h3⟩ := hcounters
  rw [hfault, Bool.or_eq_false_iff, Bool.or_eq_false_iff, Bool.not_eq_false', Bool.not_eq_false',
    decide_eq_true_eq, decide_eq_true_eq, ← h1, ← h2, ← h3]
  constructor
  · rintro ⟨⟨hs, hn⟩, ht, hq⟩
    exact ⟨hs, hn, ht, hq⟩
  · rintro ⟨hs, hn, ht, hq⟩
    exact ⟨⟨hs, hn⟩, ht, hq⟩

/-- What a fill of a BUY taker does to the counters, and when it raises no arithmetic exception. -/
theorem fillMaker_counts (hk : k.isBuy = true) (hflags : k.flags &&& flagSubscription = 0)
    (hl : Linked p.book) (hcur : cur ∈ p.book.orders.keys) (hcost : n * unit lp < u128)
    (hpays : n * unit lp ≤ p.leftoverEscrow) :
    (fillMaker k lp cur n p).book.executedNotional = p.book.executedNotional + n * lp ∧
    (fillMaker k lp cur n p).book.executedTicks = p.book.executedTicks + n ∧
    (fillMaker k lp cur n p).book.matchSeq = p.book.matchSeq + 1 ∧
    ((fillMaker k lp cur n p).book.fault = false ↔
      p.book.fault = false ∧ Room (fillMaker k lp cur n p).book) := by
  have hsub : k.flags &&& dealFlagsMask &&& flagSubscription = 0 := by
    rw [Nat.and_assoc, Nat.and_comm dealFlagsMask, ← Nat.and_assoc, hflags, Nat.zero_and]
  have hdebit : fillDebit n lp (k.flags &&& dealFlagsMask) = n * unit lp := by
    unfold fillDebit
    rw [if_neg (not_not.mpr hsub), Nat.add_zero]
  have hcount : 1 ≤ p.book.orderCount := by
    rw [hl.count]
    exact Finset.card_pos.mpr ⟨cur, hcur⟩
  have hcounters := settleFill_counters (s := p.book) cur k.id k.note
    (p.book.orders.get cur).note k.buyerPubkey (p.book.orders.get cur).tokenContract n lp true
    (k.flags &&& dealFlagsMask) k.clientId k.tag
  have hroom := settleFill_room (s := p.book) cur k.id k.note (p.book.orders.get cur).note
    k.buyerPubkey (p.book.orders.get cur).tokenContract true k.clientId k.tag
    (hdebit.trans_lt hcost) hsub
  have hquiet : Quiet p.book (settleFill cur k.id k.note (p.book.orders.get cur).note
    k.buyerPubkey (p.book.orders.get cur).tokenContract n lp true (k.flags &&& dealFlagsMask)
    k.clientId k.tag p.book) := settleFill_quiet
  unfold fillMaker
  simp only [hk, if_true]
  generalize settleFill _ _ _ _ _ _ _ _ _ _ _ _ _ = u at hcounters hroom hquiet ⊢
  obtain ⟨h1, h2, h3⟩ := hcounters
  have hu : u.orderCount = p.book.orderCount := by rw [hquiet]
  have hgone := removeFromBook_counts cur .filled 0
    (s := ({ u.check (fillDebit n lp (k.flags &&& dealFlagsMask) ≤ p.leftoverEscrow) with
      underflow := u.underflow || decide (p.leftoverEscrow <
        fillDebit n lp (k.flags &&& dealFlagsMask)) } : Book).editOrder cur fun o => { o with
          filledAccum := o.filledAccum + n }) (hu ▸ hcount)
  have hfault : (u.fault || !decide (fillDebit n lp (k.flags &&& dealFlagsMask) ≤
      p.leftoverEscrow)) = u.fault := by
    rw [hdebit, decide_eq_true hpays, Bool.not_true, Bool.or_false]
  refine ⟨hgone.notional.trans h1, hgone.ticks.trans h2, hgone.seq.trans h3, ?_⟩
  rw [hgone.fault.trans hfault, hroom]
  refine and_congr_right fun _ => ⟨fun h => ⟨?_, ?_, ?_⟩, fun h => ⟨?_, ?_, ?_⟩⟩
  · exact hgone.notional.trans_lt h.notional
  · exact hgone.ticks.trans_lt h.ticks
  · exact hgone.seq.trans_lt h.seq
  · exact hgone.notional.symm.trans_lt h.notional
  · exact hgone.ticks.symm.trans_lt h.ticks
  · exact hgone.seq.symm.trans_lt h.seq

/-- The trades a walk has added since `s`, the counters with them, and the arithmetic flag: it is
raised by the first fill that takes a counter out of its range. -/
structure Counted (s : Book) (p : Progress) : Prop where
  linked : Linked p.book
  bounded : ∀ id ∈ p.book.orders.keys, (p.book.orders.get id).isBuy = false →
    (p.book.orders.get id).amount * unit (p.book.orders.get id).price < u128
  added : ∃ l, trades p.book = trades s ++ l ∧
    p.book.executedNotional = s.executedNotional + notional l ∧
    p.book.executedTicks = s.executedTicks + tradedTicks l ∧
    p.book.matchSeq = s.matchSeq + fillCount l ∧
    (p.book.fault = false ↔ s.fault = false ∧ (fillCount l = 0 ∨ Room p.book))

theorem Counted.refl (hl : Linked s) {amount escrow : ℕ} (hb : ∀ id ∈ s.orders.keys,
    (s.orders.get id).isBuy = false → (s.orders.get id).amount * unit (s.orders.get id).price < u128) :
    Counted s { book := s, remaining := amount, leftoverEscrow := escrow } := by
  refine ⟨hl, hb, [], (List.append_nil _).symm, rfl, rfl, rfl, ?_⟩
  exact ⟨fun h => ⟨h, .inl rfl⟩, fun h => h.1⟩

theorem bounded_passed (hone : OneMaker cur s t) (hpass : Passed cur s t)
    (hb : ∀ id ∈ s.orders.keys, (s.orders.get id).isBuy = false →
      (s.orders.get id).amount * unit (s.orders.get id).price < u128) :
    ∀ id ∈ t.orders.keys, (t.orders.get id).isBuy = false →
      (t.orders.get id).amount * unit (t.orders.get id).price < u128 := by
  intro id hid hside
  by_cases hcur : id = cur
  · subst hcur
    rcases hpass with hgone | heq
    · exact absurd hid hgone
    · rw [heq] at hside ⊢
      exact hb id (hone.keys hid) hside
  · have hterms := (hone.others id (hone.keys hid) hcur).2
    have hp : (t.orders.get id).price = (s.orders.get id).price := congrArg Terms.price hterms
    have ha : (t.orders.get id).amount = (s.orders.get id).amount := congrArg Terms.amount hterms
    have hs : (t.orders.get id).isBuy = (s.orders.get id).isBuy := congrArg Terms.isBuy hterms
    rw [hs] at hside
    rw [hp, ha]
    exact hb id (hone.keys hid) hside

/-- A maker that is passed without a fill. -/
theorem Counted.quiet {b : Book} {x : List Trade} {m : ℕ} (h : Counted s p)
    (hone : OneMaker cur p.book b) (hpass : Passed cur p.book b) (hsame : SameCounts p.book b)
    (htrades : trades b = trades p.book ++ x) (hx : notional x = 0 ∧ tradedTicks x = 0 ∧
      fillCount x = 0) : Counted s { p with book := b, matched := m } := by
  obtain ⟨l, hl, h1, h2, h3, h4⟩ := h.added
  obtain ⟨hx1, hx2, hx3⟩ := hx
  have hn : notional (l ++ x) = notional l := by
    unfold notional at *
    rw [List.map_append, List.sum_append, hx1, Nat.add_zero]
  have ht : tradedTicks (l ++ x) = tradedTicks l := by
    unfold tradedTicks at *
    rw [List.map_append, List.sum_append, hx2, Nat.add_zero]
  have hc : fillCount (l ++ x) = fillCount l := by
    unfold fillCount at *
    rw [List.map_append, List.sum_append, hx3, Nat.add_zero]
  refine ⟨hone.linked, bounded_passed hone hpass h.bounded, l ++ x, ?_, ?_, ?_, ?_, ?_⟩
  · dsimp only
    rw [htrades, hl, List.append_assoc]
  · rw [hn, ← h1]
    exact hsame.notional
  · rw [ht, ← h2]
    exact hsame.ticks
  · rw [hc, ← h3]
    exact hsame.seq
  · rw [hc]
    dsimp only
    rw [hsame.fault, h4]
    refine and_congr_right fun _ => or_congr_right ⟨fun hr => ⟨?_, ?_, ?_⟩, fun hr => ⟨?_, ?_, ?_⟩⟩
    · exact hsame.notional.trans_lt hr.notional
    · exact hsame.ticks.trans_lt hr.ticks
    · exact hsame.seq.trans_lt hr.seq
    · exact hsame.notional.symm.trans_lt hr.notional
    · exact hsame.ticks.symm.trans_lt hr.ticks
    · exact hsame.seq.symm.trans_lt hr.seq

theorem Counted.fill (hk : k.isBuy = true) (hflags : k.flags &&& flagSubscription = 0)
    (h : Counted s p) (hcur : cur ∈ p.book.orders.keys) (hcost : n * unit lp < u128)
    (hpays : n * unit lp ≤ p.leftoverEscrow)
    (hone : OneMaker cur p.book (fillMaker k lp cur n p).book) :
    Counted s (fillMaker k lp cur n p) := by
  obtain ⟨htally, hpass⟩ := fillMaker_buys lp n hk h.linked hcur
  have htrades := congrArg Tally.trades htally
  obtain ⟨c1, c2, c3, c4⟩ := fillMaker_counts hk hflags h.linked hcur hcost hpays
  obtain ⟨l, hl, h1, h2, h3, h4⟩ := h.added
  have hn : notional (l ++ [Trade.fill cur n lp, Trade.removal cur .filled]) = notional l + n * lp := by
    unfold notional
    simp
  have ht : tradedTicks (l ++ [Trade.fill cur n lp, Trade.removal cur .filled]) = tradedTicks l + n := by
    unfold tradedTicks
    simp
  have hc : fillCount (l ++ [Trade.fill cur n lp, Trade.removal cur .filled]) = fillCount l + 1 := by
    unfold fillCount
    simp
  refine ⟨hone.linked, bounded_passed hone hpass h.bounded,
    l ++ [Trade.fill cur n lp, Trade.removal cur .filled], ?_, ?_, ?_, ?_, ?_⟩
  · exact (htrades.trans (congrArg (· ++ _) hl)).trans (List.append_assoc _ _ _)
  · rw [c1, h1, hn, Nat.add_assoc]
  · rw [c2, h2, ht, Nat.add_assoc]
  · rw [c3, h3, hc, Nat.add_assoc]
  · rw [c4, h4, hc]
    constructor
    · rintro ⟨⟨hs, -⟩, hroom⟩
      exact ⟨hs, .inr hroom⟩
    · rintro ⟨hs, hroom⟩
      have hroom := hroom.resolve_left (Nat.succ_ne_zero _)
      refine ⟨⟨hs, .inr ⟨?_, ?_, ?_⟩⟩, hroom⟩
      · exact lt_of_le_of_lt (c1 ▸ Nat.le_add_right _ _) hroom.notional
      · exact lt_of_le_of_lt (c2 ▸ Nat.le_add_right _ _) hroom.ticks
      · exact lt_of_le_of_lt (c3 ▸ Nat.le_add_right _ _) hroom.seq

theorem removeExpiredSell_counts (h : 1 ≤ s.orderCount) :
    SameCounts s (removeExpiredSell cur s) := by
  have hgone := removeFromBook_counts cur .expired 0 h
  unfold removeExpiredSell freeDeal
  dsimp only
  split
  · exact ⟨hgone.notional, hgone.ticks, hgone.seq, hgone.fault⟩
  · exact ⟨hgone.notional, hgone.ticks, hgone.seq, hgone.fault⟩

theorem tradeable_pays {r a b x : ℕ} : tradeable r a b x * x ≤ b := by
  unfold tradeable
  dsimp only
  by_cases hx : x > 0
  · rw [if_pos hx]
    have hfloor := Nat.div_mul_le_self b x
    split_ifs with h1 h2
    · exact hfloor
    · exact le_trans (Nat.mul_le_mul_right x (not_lt.mp h2)) hfloor
    · exact hfloor
    · rename_i h2
      exact le_trans (Nat.mul_le_mul_right x (not_lt.mp h2)) hfloor
  · rw [Nat.eq_zero_of_not_pos hx, Nat.mul_zero]
    exact Nat.zero_le _

theorem Counted.step (hk : k.isBuy = true) (hflags : k.flags &&& flagSubscription = 0)
    (h : Counted s p) (hat : At k lp cur p.book) : Counted s (matchMaker k lp cur p).1 := by
  have hone := matchMaker_one k lp h.linked hat.1
  have hcount : 1 ≤ p.book.orderCount := by
    rw [h.linked.count]
    exact Finset.card_pos.mpr ⟨cur, hat.1⟩
  unfold matchMaker at hone ⊢
  simp only [hk, Bool.not_true, Bool.false_and, Bool.or_false, if_true] at hone ⊢
  split_ifs at hone ⊢ with hdeal hexp haon hmin
  · exact h
  · obtain ⟨htrades, hpass⟩ := expired_leaves true h.linked hat.1
    exact h.quiet hone hpass (removeExpiredSell_counts hcount) htrades ⟨rfl, rfl, rfl⟩
  · exact h
  · exact h
  · have hprice : (p.book.orders.get cur).price = lp := hat.2.2
    have hside : (p.book.orders.get cur).isBuy = false := by rw [hat.2.1, hk]; rfl
    refine h.fill hk hflags hat.1 ?_ tradeable_pays hone
    refine lt_of_le_of_lt (Nat.mul_le_mul_right _ tradeable_le.2) ?_
    have hbound := h.bounded cur hat.1 hside
    rwa [hprice] at hbound

theorem matchTaker_counted (hk : k.isBuy = true) (hflags : k.flags &&& flagSubscription = 0)
    (hl : Linked s) (hb : ∀ id ∈ s.orders.keys, (s.orders.get id).isBuy = false →
      (s.orders.get id).amount * unit (s.orders.get id).price < u128) (amount escrow resume : ℕ) :
    Counted s (matchTaker k amount escrow resume s).1 :=
  (matchTaker_rule (I := Counted s) (fun _ h => h.linked)
    (fun _ _ _ _ h hat _ => h.step hk hflags hat) (.refl hl hb)).1

/-! ## Both walks over the quoted asks -/

variable {asks l : List OrderBookOrder} {a : OrderBookOrder} {f : Tally}

/-- The row `a` of the client's view is the order of that number. -/
structure Shows (s : Book) (a : OrderBookOrder) : Prop where
  isBuy : (s.orders.get a.orderId).isBuy = false
  price : (s.orders.get a.orderId).price = a.pricePerTick
  amount : (s.orders.get a.orderId).amount = a.ticks
  flags : (s.orders.get a.orderId).flags = a.flags
  deadline : (s.orders.get a.orderId).deadline = a.deadline

/-- A live ordinary ask that may be taken in part. -/
structure Plain (now : ℕ) (a : OrderBookOrder) : Prop where
  ask : a.isRestingAsk = true
  price : 0 < a.pricePerTick ∧ a.pricePerTick % priceStep = 0
  ticks : 2 ≤ a.ticks
  flags : a.flags &&& flagAon = 0 ∧ a.flags &&& flagSubscription = 0
  live : isExpired a.deadline now = false

structure FokBuy (price : ℕ) (k : Taker) : Prop where
  isBuy : k.isBuy = true
  price : k.price = price
  isMarket : k.isMarket = false
  flags : k.flags = flagFok

def fokTaker (price : ℕ) : Taker :=
  { id := 0, isBuy := true, price := price, isMarket := false, note := 0, tc := 0
    buyerPubkey := 0, flags := flagFok, clientId := 0, tag := 0 }

theorem fokTaker_buys (price : ℕ) : FokBuy price (fokTaker price) := ⟨rfl, rfl, rfl, rfl⟩

def accepted (price : ℕ) (l : List OrderBookOrder) : List ℕ :=
  (l.filter fun a => decide (a.pricePerTick ≤ price)).map OrderBookOrder.orderId

theorem accepted_cons {price : ℕ} (h : a.pricePerTick ≤ price) :
    accepted price (a :: l) = a.orderId :: accepted price l := by
  unfold accepted
  rw [List.filter_cons, if_pos (decide_eq_true h), List.map_cons]

theorem tradeable_all {r a b x : ℕ} (hx : 0 < x) (h : min a r * x ≤ b) :
    tradeable r a b x = min a r := by
  have hafford : min a r ≤ b / x := (Nat.le_div_iff_mul_le hx).mpr h
  unfold tradeable
  dsimp only
  rw [if_pos hx]
  split_ifs <;> omega

section Meet

variable {price : ℕ} (hk : FokBuy price k) (ha : Plain s.now a) (hs : Shows s a)
include hk ha hs

theorem ask_compatible :
    (!dealCompatible k.isBuy k.flags (s.orders.get a.orderId).flags) = false := by
  unfold dealCompatible
  rw [hk.isBuy, hk.flags, hs.flags]
  simp only [if_true, ha.flags.2]
  rw [if_neg fun h => h.1 (by decide)]
  decide

theorem ask_fits {t r : ℕ} :
    aonMisfit k.flags (s.orders.get a.orderId).flags t r (s.orders.get a.orderId).amount =
      false := by
  unfold aonMisfit
  rw [hk.flags, hs.flags, ha.flags.1]
  rfl

omit hk in
theorem ask_tradeable {r b : ℕ} (h : min a.ticks r * unit a.pricePerTick ≤ b) :
    tradeable r (s.orders.get a.orderId).amount b (unit (s.orders.get a.orderId).price) =
      min a.ticks r := by
  rw [hs.amount, hs.price]
  exact tradeable_all (Nat.add_pos_left ha.price.1 _) h

theorem fokMeet_ask {w : FokWalk} (hw : w.matched < maxMatchesPerCall)
    (h : min a.ticks w.remaining * unit a.pricePerTick ≤ w.leftEscrow) :
    fokMeet k s a.orderId w = if min a.ticks w.remaining < 2 then .inl false
      else .inr
        { remaining := w.remaining - min a.ticks w.remaining
          leftEscrow := w.leftEscrow - min a.ticks w.remaining * unit a.pricePerTick
          matched := w.matched + 1 } := by
  have hlive : isExpired (s.orders.get a.orderId).deadline s.now = false := by
    rw [hs.deadline]
    exact ha.live
  have htrade := ask_tradeable ha hs h
  unfold fokMeet
  dsimp only
  rw [if_neg (not_le.mpr hw), ask_compatible hk ha hs, hlive, hk.isBuy]
  simp only [Bool.false_eq_true, if_false, if_true, htrade, ask_fits hk ha hs, Bool.not_true]
  rw [hs.price]

theorem verdict_ask {r b : ℕ} (h : min a.ticks r * unit a.pricePerTick ≤ b) :
    verdict k s.now (s.orders.get a.orderId).toTerms r b =
      if min a.ticks r < 2 then .stop else .fill (min a.ticks r) a.pricePerTick := by
  have hlive : isExpired (s.orders.get a.orderId).deadline s.now = false := by
    rw [hs.deadline]
    exact ha.live
  have htrade := ask_tradeable ha hs h
  unfold verdict
  dsimp only
  rw [ask_compatible hk ha hs, hlive, hk.isBuy]
  simp only [Bool.false_eq_true, if_false, if_true, htrade, ask_fits hk ha hs]
  rw [hs.price]

end Meet

/-- The precheck of an order that can pay for its split: it accepts unless a share is one tick. -/
theorem fokList_asks {price : ℕ} (hk : FokBuy price k) :
    ∀ {l : List OrderBookOrder} {w : FokWalk}, (∀ a ∈ l, Plain s.now a ∧ Shows s a) →
      (∀ y ∈ split l w.remaining, y.1.pricePerTick ≤ price) →
      outlay unit (split l w.remaining) ≤ w.leftEscrow →
      w.matched + l.length ≤ maxMatchesPerCall → w.remaining ≤ totalTicks l →
      answer (fokList k s (accepted price l) w) =
        decide (∀ y ∈ split l w.remaining, 2 ≤ y.2)
  | [], w, _, _, _, _, htotal => by
    have hz : w.remaining = 0 := Nat.le_zero.mp htotal
    rw [fokList_done hz]
    simp [answer, hz, split]
  | a :: l, w, hasks, hprices, hcost, hmatched, htotal => by
    by_cases hn : w.remaining = 0
    · rw [fokList_done hn, hn, split_zero]
      simp [answer, hn]
    obtain ⟨ha, hs⟩ := hasks a List.mem_cons_self
    rw [split_cons hn] at hprices hcost ⊢
    rw [outlay_cons] at hcost
    dsimp only at hcost
    rw [List.length_cons] at hmatched
    rw [accepted_cons (hprices _ List.mem_cons_self), fokList, if_neg hn,
      fokMeet_ask hk ha hs (by omega) (by omega)]
    by_cases hlone : min a.ticks w.remaining < 2
    · rw [if_pos hlone]
      refine (decide_eq_false fun hall => ?_).symm
      exact absurd (hall _ List.mem_cons_self) (not_le.mpr hlone)
    · rw [if_neg hlone]
      have htotal' : w.remaining - min a.ticks w.remaining ≤ totalTicks l := by
        unfold totalTicks at htotal ⊢
        rw [List.map_cons, List.sum_cons] at htotal
        omega
      have ih := fokList_asks hk (l := l) (w :=
        { remaining := w.remaining - min a.ticks w.remaining
          leftEscrow := w.leftEscrow - min a.ticks w.remaining * unit a.pricePerTick
          matched := w.matched + 1 }) (fun b hb => hasks b (List.mem_cons_of_mem a hb))
        (fun y hy => hprices y (List.mem_cons_of_mem _ hy)) (by dsimp only; omega)
        (by dsimp only; omega) htotal'
      refine ih.trans (decide_eq_decide.mpr ?_)
      rw [List.forall_mem_cons]
      exact (and_iff_right (not_lt.mp hlone)).symm

def shareTrades (y : OrderBookOrder × ℕ) : List Trade :=
  [Trade.fill y.1.orderId y.2 y.1.pricePerTick, Trade.removal y.1.orderId .filled]

/-- The match of an order that can pay for its split, without a share of one tick. -/
theorem serve_asks {price : ℕ} (hk : FokBuy price k) :
    ∀ {l : List OrderBookOrder} {f : Tally}, (∀ a ∈ l, Plain s.now a ∧ Shows s a) →
      (∀ y ∈ split l f.remaining, y.1.pricePerTick ≤ price) →
      outlay unit (split l f.remaining) ≤ f.leftover → f.halted = false →
      f.remaining ≤ totalTicks l → (∀ y ∈ split l f.remaining, 2 ≤ y.2) →
      serve k s (accepted price l) f =
        { remaining := 0, leftover := f.leftover - outlay unit (split l f.remaining), halted := false
          trades := f.trades ++ (split l f.remaining).flatMap shareTrades }
  | [], f, _, _, _, hover, htotal, _ => by
    have hz : f.remaining = 0 := Nat.le_zero.mp htotal
    obtain ⟨r, b, o, t⟩ := f
    obtain rfl : r = 0 := hz
    obtain rfl : o = false := hover
    simp [serve, accepted, split, outlay]
  | a :: l, f, hasks, hprices, hcost, hover, htotal, hwide => by
    obtain ⟨r, b, o, t⟩ := f
    obtain rfl : o = false := hover
    dsimp only at hprices hcost htotal hwide ⊢
    by_cases hn : r = 0
    · subst hn
      rw [serve_spent (.inr rfl), split_zero]
      simp [outlay]
    obtain ⟨ha, hs⟩ := hasks a List.mem_cons_self
    rw [split_cons hn] at hprices hcost hwide ⊢
    rw [outlay_cons] at hcost
    dsimp only at hcost
    have hlone : ¬ min a.ticks r < 2 := not_lt.mpr (hwide _ List.mem_cons_self)
    have htotal' : r - min a.ticks r ≤ totalTicks l := by
      unfold totalTicks at htotal ⊢
      rw [List.map_cons, List.sum_cons] at htotal
      omega
    have hdebit : fillDebit (min a.ticks r) a.pricePerTick k.flags =
        min a.ticks r * unit a.pricePerTick := by
      rw [hk.flags]
      rfl
    have hmeet : settle k s.now ⟨r, b, false, t⟩ a.orderId (s.orders.get a.orderId).toTerms =
        ⟨r - min a.ticks r, b - min a.ticks r * unit a.pricePerTick, false,
          t ++ shareTrades (a, min a.ticks r)⟩ := by
      unfold settle
      rw [if_neg (by simpa using hn)]
      dsimp only
      rw [verdict_ask hk ha hs (by omega), if_neg hlone]
      dsimp only
      rw [if_pos hk.isBuy, hdebit]
      rfl
    rw [accepted_cons (hprices _ List.mem_cons_self)]
    change serve k s (accepted price l) (settle k s.now ⟨r, b, false, t⟩ a.orderId
      (s.orders.get a.orderId).toTerms) = _
    rw [hmeet, serve_asks hk (fun c hc => hasks c (List.mem_cons_of_mem a hc))
      (fun y hy => hprices y (List.mem_cons_of_mem _ hy)) (by dsimp only; omega) rfl htotal'
      (fun y hy => hwide y (List.mem_cons_of_mem _ hy))]
    rw [outlay_cons, List.flatMap_cons]
    dsimp only
    rw [List.append_assoc, Nat.sub_sub]

theorem notional_shares : ∀ x : List (OrderBookOrder × ℕ),
    notional (x.flatMap shareTrades) = outlay id x
  | [] => rfl
  | y :: x => by
    have ih := notional_shares x
    unfold notional outlay shareTrades at *
    rw [List.flatMap_cons, List.map_append, List.sum_append, ih]
    simp

theorem tradedTicks_shares : ∀ x : List (OrderBookOrder × ℕ),
    tradedTicks (x.flatMap shareTrades) = outlay (fun _ => 1) x
  | [] => rfl
  | y :: x => by
    have ih := tradedTicks_shares x
    unfold tradedTicks outlay shareTrades at *
    rw [List.flatMap_cons, List.map_append, List.sum_append, ih]
    simp

theorem fillCount_shares : ∀ x : List (OrderBookOrder × ℕ),
    fillCount (x.flatMap shareTrades) = x.length
  | [] => rfl
  | y :: x => by
    have ih := fillCount_shares x
    unfold fillCount shareTrades at *
    rw [List.flatMap_cons, List.map_append, List.sum_append, ih]
    simp [Nat.add_comm]

/-! ## The quoted book -/

/-- The book holds the asks and nothing else. -/
structure Quoted (asks : List OrderBookOrder) (s : Book) : Prop where
  ids : (asks.map OrderBookOrder.orderId).Nodup
  keys : ∀ id, id ∈ s.orders.keys ↔ id ∈ asks.map OrderBookOrder.orderId
  shows_all : ∀ a ∈ asks, Shows s a
  plain : ∀ a ∈ asks, Plain s.now a
  distinct : (asks.map tcKey).Nodup
  few : asks.length ≤ maxMatchesPerCall

/-- The asks within the limit, in price and time order, are the makers of the BUY. -/
theorem Quoted.priceTime {price : ℕ} (h : Quoted asks s) (hk : FokBuy price k) :
    PriceTime k s (accepted price (byPriceTime asks)) := by
  have hmem : ∀ a ∈ byPriceTime asks, Shows s a := fun a ha =>
    h.shows_all a (byPriceTime_perm.mem_iff.mp ha)
  have hids : (byPriceTime asks).Pairwise fun a b => a.orderId ≠ b.orderId := by
    have hnodup := ((byPriceTime_perm (l := asks)).map OrderBookOrder.orderId).nodup_iff.mpr h.ids
    exact List.pairwise_map.mp hnodup
  constructor
  · unfold accepted
    refine List.pairwise_map.mpr (List.Pairwise.filter _ ?_)
    refine (byPriceTime_sorted.and hids).imp_of_mem ?_
    rintro a b ha hb ⟨hle, hne⟩
    unfold Before Prior
    rw [(hmem a ha).price, (hmem b hb).price, hk.isBuy, if_pos rfl]
    unfold PriceTimeLe at hle
    omega
  · intro i
    have hcross : ∀ a, crosses k.isBuy k.price k.isMarket a = true ↔ a ≤ price := by
      intro a
      unfold crosses
      simp [hk.isMarket, hk.isBuy, hk.price]
    unfold accepted Resting
    rw [List.mem_map, h.keys]
    constructor
    · rintro ⟨a, ha, rfl⟩
      obtain ⟨ha, hp⟩ := List.mem_filter.mp ha
      have hshow := hmem a ha
      refine ⟨⟨?_, ?_, ?_⟩, trivial⟩
      · exact List.mem_map_of_mem (byPriceTime_perm.mem_iff.mp ha)
      · rw [hshow.isBuy, hk.isBuy]
        rfl
      · rw [hcross, hshow.price]
        exact of_decide_eq_true hp
    · rintro ⟨⟨hid, -, hc⟩, -⟩
      obtain ⟨a, ha, rfl⟩ := List.mem_map.mp hid
      rw [hcross, (h.shows_all a ha).price] at hc
      exact ⟨a, List.mem_filter.mpr ⟨byPriceTime_perm.mem_iff.mpr ha, decide_eq_true hc⟩, rfl⟩

theorem Quoted.short (h : Quoted asks s) (price : ℕ) :
    (accepted price (byPriceTime asks)).length ≤ maxMatchesPerCall := by
  unfold accepted
  rw [List.length_map]
  refine (List.length_filter_le _ _).trans ?_
  rw [byPriceTime_perm.length_eq]
  exact h.few

/-- The quote for `n` ticks comes true: it is complete, and every FOK BUY on its terms passes the
precheck and is filled, without an arithmetic exception, with the quoted fills. -/
def Executes (display : String → String) (asks : List OrderBookOrder) (n : ℕ) (s : Book) : Prop :=
  ∃ q, executableQuote display asks (some n) none = .ok q ∧
    submitSafeSingleAskQuote display asks (some n) none = .ok q ∧ q.complete = true ∧
    ∀ k, FokBuy (worstPrice q.fills) k →
      let escrow := requiredEscrowForBuy n (worstPrice q.fills)
      fokFullyFillable k.isBuy k.price k.isMarket n escrow k.flags s = true ∧
      ∃ p, matchTaker k n escrow 0 s = (p, none) ∧ p.remaining = 0 ∧ p.book.fault = false ∧
        trades p.book = trades s ++ q.fills.flatMap fun f =>
          [Trade.fill f.orderId f.ticks f.pricePerTick, Trade.removal f.orderId .filled]

/-- The wanted ticks split over the asks in price and time order without a lone tick, every ask
used is one the client can price, and neither the cost nor a counter of the book leaves its type. -/
structure Executable (asks : List OrderBookOrder) (n : ℕ) (s : Book) : Prop where
  wide : ∀ l₁ a l₂, byPriceTime asks = l₁ ++ a :: l₂ → n ≠ totalTicks l₁ + 1
  fits : ∀ y ∈ split (byPriceTime asks) n, FeeFits y.1
  cost : outlay unit (split (byPriceTime asks) n) < u128
  notional : s.executedNotional + outlay id (split (byPriceTime asks) n) < u128
  ticks : s.executedTicks + n < u128
  seq : s.matchSeq + (split (byPriceTime asks) n).length < u64

section Deposit

variable (hq : Quoted asks s) (htotal : n ≤ totalTicks asks)
  (hpaid : Affordable (byPriceTime asks) n (u128 - 1))
include hq htotal

theorem Quoted.total : n ≤ totalTicks (byPriceTime asks) := by
  have hperm : totalTicks (byPriceTime asks) = totalTicks asks := (byPriceTime_perm.map _).sum_nat
  rwa [hperm]

include hpaid

theorem Quoted.covers : outlay unit (split (byPriceTime asks) n) ≤
    requiredEscrowForBuy n (worstPrice ((split (byPriceTime asks) n).map quoteFill)) := by
  refine le_trans (le_min ?_ hpaid.2) requiredEscrow_ge
  refine (outlay_le fun y hy => ?_).trans
    (Nat.mul_le_mul_right _ (split_ticks (hq.total htotal)).le)
  have hle := le_worstPrice y hy
  exact Nat.add_le_add hle (fee_mono hle)

theorem Quoted.precheck (hl : Linked s)
    (hk : FokBuy (worstPrice ((split (byPriceTime asks) n).map quoteFill)) k) :
    fokFullyFillable k.isBuy k.price k.isMarket n
      (requiredEscrowForBuy n (worstPrice ((split (byPriceTime asks) n).map quoteFill))) k.flags s =
        decide (∀ y ∈ split (byPriceTime asks) n, 2 ≤ y.2) := by
  have hlen : (byPriceTime asks).length ≤ maxMatchesPerCall := by
    rw [byPriceTime_perm.length_eq]
    exact hq.few
  rw [fokFullyFillable_list hl (hq.priceTime hk) (hq.short _)]
  refine fokList_asks hk (fun a ha => ?_) (fun y hy => le_worstPrice y hy)
    (hq.covers htotal hpaid) (by dsimp only; omega) (hq.total htotal)
  have ha := byPriceTime_perm.mem_iff.mp ha
  exact ⟨hq.plain a ha, hq.shows_all a ha⟩

/-- Without a lone tick the match fills the split. -/
theorem Quoted.matched (hl : Linked s) (hn : n ≠ 0) (hwide : ∀ y ∈ split (byPriceTime asks) n, 2 ≤ y.2)
    (hk : FokBuy (worstPrice ((split (byPriceTime asks) n).map quoteFill)) k)
    (hb : ∀ id ∈ s.orders.keys, (s.orders.get id).isBuy = false →
      (s.orders.get id).amount * unit (s.orders.get id).price < u128) :
    ∃ p, matchTaker k n (requiredEscrowForBuy n
        (worstPrice ((split (byPriceTime asks) n).map quoteFill))) 0 s = (p, none) ∧
      p.remaining = 0 ∧
      trades p.book = trades s ++ (split (byPriceTime asks) n).flatMap shareTrades ∧
      (p.book.fault = false ↔ s.fault = false ∧
        s.executedNotional + outlay id (split (byPriceTime asks) n) < u128 ∧
        s.executedTicks + n < u128 ∧
        s.matchSeq + (split (byPriceTime asks) n).length < u64) := by
  have hflags : k.flags &&& flagSubscription = 0 := by
    rw [hk.flags]
    decide
  generalize hE : requiredEscrowForBuy n _ = escrow
  have hcovers := hq.covers htotal hpaid
  rw [hE] at hcovers
  have hmatch := matchTaker_first hl (hq.priceTime hk) n escrow
  have hcounted := matchTaker_counted hk.isBuy hflags hl hb n escrow 0
  have hserve := serve_asks hk (s := s) (l := byPriceTime asks)
    (f := ⟨n, escrow, false, trades s⟩) (fun a ha => by
      have ha := byPriceTime_perm.mem_iff.mp ha
      exact ⟨hq.plain a ha, hq.shows_all a ha⟩)
    (fun y hy => le_worstPrice y hy) hcovers rfl (hq.total htotal) hwide
  generalize matchTaker k n escrow 0 s = r at hmatch hcounted ⊢
  obtain ⟨p, c⟩ := r
  cases c with
  | some c =>
    obtain ⟨l', -, hlong⟩ := hmatch
    have hshort := hq.short (worstPrice ((split (byPriceTime asks) n).map quoteFill))
    omega
  | none =>
    obtain ⟨b, hended⟩ := hmatch
    have htally := hended.trans hserve
    have htrades : trades p.book =
        trades s ++ (split (byPriceTime asks) n).flatMap shareTrades := congrArg Tally.trades htally
    refine ⟨p, rfl, congrArg Tally.remaining htally, htrades, ?_⟩
    obtain ⟨l, hadded, h1, h2, h3, h4⟩ := hcounted.added
    obtain rfl := List.append_cancel_left (hadded.symm.trans htrades)
    rw [notional_shares] at h1
    rw [tradedTicks_shares, split_ticks (hq.total htotal)] at h2
    rw [fillCount_shares] at h3 h4
    have hsome : (split (byPriceTime asks) n).length ≠ 0 := by
      intro hz
      have hsum := split_ticks (hq.total htotal)
      rw [List.eq_nil_of_length_eq_zero hz] at hsum
      exact hn hsum.symm
    rw [h4]
    refine and_congr_right fun _ => ⟨fun hr => ?_, fun hr => .inr ⟨?_, ?_, ?_⟩⟩
    · have hr := hr.resolve_left hsome
      exact ⟨h1 ▸ hr.notional, h2 ▸ hr.ticks, h3 ▸ hr.seq⟩
    · exact h1.trans_lt hr.1
    · exact h2.trans_lt hr.2.1
    · exact h3.trans_lt hr.2.2

end Deposit

theorem quoteFill_trades (x : List (OrderBookOrder × ℕ)) :
    (x.map quoteFill).flatMap (fun f =>
      [Trade.fill f.orderId f.ticks f.pricePerTick, .removal f.orderId .filled]) =
        x.flatMap shareTrades := by
  rw [List.flatMap_map]
  rfl

/-- A quote comes true exactly when the wanted ticks split over the asks without a lone tick and
no figure leaves its type. -/
theorem quote_executes_iff (env : Env) (display : String → String) (r : Book) (m : Msg)
    (asks : List OrderBookOrder) (n : ℕ) (hr : Reachable env r) (hq : Quoted asks (enter m r))
    (hn : 2 ≤ n) (hbound : n < u128) (htotal : n ≤ totalTicks asks) :
    Executes display asks n (enter m r) ↔ Executable asks n (enter m r) := by
  have hsound := reachable_sound hr
  have hl : Linked (enter m r) := { hsound.linked with }
  have hb := reachable_bounded hr
  have hlisted : ∀ o ∈ asks, Listed o := fun o ho => ⟨(hq.plain o ho).ask, (hq.plain o ho).price.1⟩
  have hticks : ∀ a ∈ byPriceTime asks, 2 ≤ a.ticks := fun a ha =>
    (hq.plain a (byPriceTime_perm.mem_iff.mp ha)).ticks
  have hmax : 0 < u128 := by decide
  obtain ⟨q, hquote, hcomplete, hfills⟩ :=
    executableQuote_wanted display hlisted hq.distinct hq.ids hbound htotal
  constructor
  · rintro ⟨q', hq', -, hdone, hall⟩
    obtain rfl : q = q' := Except.ok.inj (hquote.symm.trans hq')
    have hpaid := hcomplete.mp hdone
    rw [hfills hpaid] at hall
    obtain ⟨hfok, p, hp, -, hfault, -⟩ := hall _ (fokTaker_buys _)
    have hcheck := hq.precheck htotal hpaid hl (fokTaker_buys _)
    have hwide := of_decide_eq_true (hcheck.symm.trans hfok)
    obtain ⟨p', hp', -, -, hroom⟩ :=
      hq.matched htotal hpaid hl (by omega) hwide (fokTaker_buys _) hb
    obtain rfl : p = p' := congrArg Prod.fst (hp.symm.trans hp')
    obtain ⟨-, h1, h2, h3⟩ := hroom.mp hfault
    exact ⟨(split_lone hticks).mp hwide, hpaid.1, by have := hpaid.2; omega, h1, h2, h3⟩
  · intro h
    have hpaid : Affordable (byPriceTime asks) n (u128 - 1) := ⟨h.fits, by have := h.cost; omega⟩
    have hwide := (split_lone hticks).mpr h.wide
    refine ⟨q, hquote, hquote, hcomplete.mpr hpaid, ?_⟩
    rw [hfills hpaid]
    intro k hk
    obtain ⟨p, hp, hrem, htrades, hroom⟩ := hq.matched htotal hpaid hl (by omega) hwide hk hb
    refine ⟨(hq.precheck htotal hpaid hl hk).trans (decide_eq_true hwide), p, hp, hrem, ?_, ?_⟩
    · exact hroom.mpr ⟨rfl, h.notional, h.ticks, h.seq⟩
    · rw [quoteFill_trades]
      exact htrades

/-! ## Two asks of two ticks -/

/-- The client's row of an offer of two ticks at `price` steps. -/
def sampleAsk (orderId price : ℕ) (tc : String) : OrderBookOrder :=
  { orderId := orderId, ownerNote := "0:1002", tokenContract := some tc, isBuy := false
    pricePerTick := price * priceStep, ticks := 2, escrow := 0, deadline := 500, flags := 0
    timestamp := 0 }

def twoAsks : List OrderBookOrder := [sampleAsk 1 2 "0:AA", sampleAsk 2 3 "0:bb"]

def sampleClock : Msg := ⟨1003, 40⟩

/-- An order of the sample book is the client's row. -/
def matchesRow (s : Book) (a : OrderBookOrder) : Bool :=
  decide ((s.orders.get a.orderId).isBuy = false) &&
    decide ((s.orders.get a.orderId).price = a.pricePerTick) &&
    decide ((s.orders.get a.orderId).amount = a.ticks) &&
    decide ((s.orders.get a.orderId).flags = a.flags) &&
    decide ((s.orders.get a.orderId).deadline = a.deadline)

theorem matchesRow_shows (h : matchesRow s a = true) : Shows s a := by
  simp only [matchesRow, Bool.and_eq_true, decide_eq_true_eq] at h
  obtain ⟨⟨⟨⟨h1, h2⟩, h3⟩, h4⟩, h5⟩ := h
  exact ⟨h1, h2, h3, h4, h5⟩

theorem twoAsks_plain : ∀ a ∈ twoAsks, Plain 40 a := by
  intro a ha
  rcases List.mem_pair.mp ha with rfl | rfl
  · exact ⟨by decide, by decide, by decide, by decide, by decide⟩
  · exact ⟨by decide, by decide, by decide, by decide, by decide⟩

theorem twoAsks_distinct : (twoAsks.map tcKey).Nodup := by decide +kernel

/-- A book with just these two offers. -/
theorem twoAsks_book : ∃ r, Reachable sampleEnv r ∧ Quoted twoAsks (enter sampleClock r) ∧
    fokFullyFillable true (3 * priceStep) false 3
      (requiredEscrowForBuy 3 (3 * priceStep)) flagFok (enter sampleClock r) = false ∧
    r.executedNotional = 0 ∧ r.executedTicks = 0 ∧ r.matchSeq = 0 := by
  have hplay : (playedBook [sampleSell 1 2 2 0 20, sampleSell 2 3 2 0 30]).any (fun r =>
      decide (r.orders.keys = {1, 2}) && twoAsks.all (matchesRow (enter sampleClock r)) &&
        !fokFullyFillable true (3 * priceStep) false 3
          (requiredEscrowForBuy 3 (3 * priceStep)) flagFok (enter sampleClock r) &&
        decide (r.executedNotional = 0 ∧ r.executedTicks = 0 ∧ r.matchSeq = 0)) = true := by
    decide +kernel
  obtain ⟨r, hr, hp⟩ := playedBook_reachable hplay
  simp only [Bool.and_eq_true, decide_eq_true_eq, List.all_eq_true, Bool.not_eq_true'] at hp
  obtain ⟨⟨⟨hkeys, hrows⟩, hfok⟩, hcounters⟩ := hp
  refine ⟨r, hr, ⟨by decide, fun id => ?_, fun a ha => matchesRow_shows (hrows a ha),
    twoAsks_plain, twoAsks_distinct, by decide⟩, hfok, hcounters⟩
  change id ∈ r.orders.keys ↔ _
  rw [hkeys, Finset.mem_insert, Finset.mem_singleton]
  exact List.mem_pair.symm

/-- Three ticks of two asks of two: the quote is complete, and the book refuses it. -/
theorem lone_tick_refused : ∃ r, Reachable sampleEnv r ∧ Quoted twoAsks (enter sampleClock r) ∧
    2 ≤ 3 ∧ 3 < u128 ∧ 3 ≤ totalTicks twoAsks ∧
    (∃ q, executableQuote id twoAsks (some 3) none = .ok q ∧ q.complete = true) ∧
    ¬ Executes id twoAsks 3 (enter sampleClock r) := by
  obtain ⟨r, hr, hq, hfok, -⟩ := twoAsks_book
  have hlisted : ∀ o ∈ twoAsks, Listed o := fun o ho =>
    ⟨(twoAsks_plain o ho).ask, (twoAsks_plain o ho).price.1⟩
  obtain ⟨q, hquote, hcomplete, hfills⟩ := executableQuote_wanted id (n := 3) hlisted
    twoAsks_distinct hq.ids (by decide) (by decide)
  have hpaid : Affordable (byPriceTime twoAsks) 3 (u128 - 1) := ⟨by decide, by decide⟩
  refine ⟨r, hr, hq, by decide, by decide, by decide, ⟨q, hquote, hcomplete.mpr hpaid⟩, ?_⟩
  rintro ⟨q', hq', -, -, hall⟩
  obtain rfl : q = q' := Except.ok.inj (hquote.symm.trans hq')
  rw [hfills hpaid] at hall
  have hworst : worstPrice ((split (byPriceTime twoAsks) 3).map quoteFill) = 3 * priceStep := by
    decide
  rw [hworst] at hall
  obtain ⟨hyes, -⟩ := hall _ (fokTaker_buys _)
  exact absurd (hyes.symm.trans hfok) (by decide)

/-- All four ticks of the two asks. -/
theorem four_ticks_execute : ∃ r, Reachable sampleEnv r ∧ Quoted twoAsks (enter sampleClock r) ∧
    Executes id twoAsks 4 (enter sampleClock r) := by
  obtain ⟨r, hr, hq, -, h1, h2, h3⟩ := twoAsks_book
  refine ⟨r, hr, hq, (quote_executes_iff sampleEnv id r sampleClock twoAsks 4 hr hq (by decide)
    (by decide) (by decide)).mpr ?_⟩
  refine ⟨(split_lone (by decide)).mp (by decide), by decide, by decide, ?_, ?_, ?_⟩
  · change r.executedNotional + _ < _
    rw [h1]
    decide
  · change r.executedTicks + _ < _
    rw [h2]
    decide
  · change r.matchSeq + _ < _
    rw [h3]
    decide

end QuoteExecution
