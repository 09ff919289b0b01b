import Dexdo.InferenceOrderBookLists

/-! # The matching walk

What meeting one maker can do to the book, and the rule that carries an invariant from there
through the walk along a level, the walk over levels and the whole of `_match`. -/
namespace InferenceOrderBookMatching

open TokenContractState SolidityMapping IntrusiveList InferenceOrderBookState
open InferenceOrderBookCalls InferenceOrderBookLists

variable {s t u : Book} {k : Taker} {p q : Progress} {id cur lp j : ℕ}

/-! ## Books that only lose orders -/

/-- Orders left, edited in place or gone; lists in order; queue and counters untouched. -/
structure Trimmed (s t : Book) : Prop where
  linked : Linked t
  keys : t.orders.keys ⊆ s.orders.keys
  levels : ∀ b, (t.levels b).keys ⊆ (s.levels b).keys
  queue : t.queue = s.queue
  queueHead : t.queueHead = s.queueHead
  queueTail : t.queueTail = s.queueTail
  queueSize : t.queueSize = s.queueSize
  nextOrderId : t.nextOrderId = s.nextOrderId
  bids : t.bids = s.bids
  now : t.now = s.now

theorem Trimmed.refl (h : Linked s) : Trimmed s s :=
  ⟨h, subset_rfl, fun _ => subset_rfl, rfl, rfl, rfl, rfl, rfl, rfl, rfl⟩

theorem Trimmed.trans (h : Trimmed s t) (h' : Trimmed t u) : Trimmed s u :=
  ⟨h'.linked, h'.keys.trans h.keys, fun b => (h'.levels b).trans (h.levels b),
    h'.queue.trans h.queue, h'.queueHead.trans h.queueHead, h'.queueTail.trans h.queueTail,
    h'.queueSize.trans h.queueSize, h'.nextOrderId.trans h.nextOrderId, h'.bids.trans h.bids,
    h'.now.trans h.now⟩

structure OneMaker (cur : ℕ) (s t : Book) : Prop extends Trimmed s t where
  others : ∀ j ∈ s.orders.keys, j ≠ cur →
    j ∈ t.orders.keys ∧ (t.orders.get j).toTerms = (s.orders.get j).toTerms

theorem OneMaker.trans (h : OneMaker cur s t) (h' : OneMaker cur t u) : OneMaker cur s u := by
  refine ⟨h.toTrimmed.trans h'.toTrimmed, fun j hj hne => ?_⟩
  obtain ⟨h1, h2⟩ := h.others j hj hne
  obtain ⟨h3, h4⟩ := h'.others j h1 hne
  exact ⟨h3, h4.trans h2⟩

theorem OneMaker.refl (h : Linked s) : OneMaker cur s s :=
  ⟨.refl h, fun _ hj _ => ⟨hj, rfl⟩⟩

theorem OneMaker.of_removal (h : Removal cur s t) : OneMaker cur s t := by
  have hf := h.frame
  refine ⟨⟨h.linked, ?_, h.levels, ?_, ?_, ?_, ?_, ?_, ?_, ?_⟩, fun j hj hne => ?_⟩
  · rw [h.keys]
    exact Finset.erase_subset _ _
  iterate 7 rw [hf]
  have hmem : j ∈ t.orders.keys := by
    rw [h.keys]
    exact Finset.mem_erase.mpr ⟨hne, hj⟩
  exact ⟨hmem, h.terms j hmem⟩

theorem OneMaker.of_edit {f : Order → Order} (hcur : cur ∈ s.orders.keys)
    (h : Linked (s.editOrder cur f)) : OneMaker cur s (s.editOrder cur f) := by
  have hkeys : (s.editOrder cur f).orders.keys = s.orders.keys := Mapping.keys_modify hcur
  refine ⟨⟨h, hkeys.subset, fun _ => subset_rfl, rfl, rfl, rfl, rfl, rfl, rfl, rfl⟩,
    fun j hj hne => ⟨by rw [hkeys]; exact hj, ?_⟩⟩
  exact congrArg Order.toTerms (Mapping.get_modify_ne hne)

/-! ## Messages, flags and statistics -/

/-- Nothing differs that the lists, the queue or the counters consist of. -/
def Quiet (s t : Book) : Prop :=
  t = { s with
    executedNotional := t.executedNotional, executedTicks := t.executedTicks
    matchSeq := t.matchSeq, handoverBuyer := t.handoverBuyer, fault := t.fault
    underflow := t.underflow, shortfall := t.shortfall, out := t.out }

theorem Quiet.trans (h : Quiet s t) (h' : Quiet t u) : Quiet s u := by
  unfold Quiet at h h' ⊢
  calc u = _ := h'
    _ = _ := congrArg (fun b : Book => { b with
      executedNotional := u.executedNotional, executedTicks := u.executedTicks
      matchSeq := u.matchSeq, handoverBuyer := u.handoverBuyer, fault := u.fault
      underflow := u.underflow, shortfall := u.shortfall, out := u.out }) h

theorem Quiet.linked (h : Quiet s t) (hs : Linked s) : Linked t := by
  rw [h]
  exact { hs with }

theorem Trimmed.of_quiet (h : Linked s) (hq : Quiet s t) : Trimmed s t := by
  have hl := hq.linked h
  rw [hq] at hl ⊢
  exact { Trimmed.refl h with linked := hl }

theorem OneMaker.quiet (h : OneMaker cur s t) (h' : Quiet t u) : OneMaker cur s u := by
  have hl := h'.linked h.linked
  rw [h'] at hl ⊢
  exact { h with linked := hl }

theorem sendFor_quiet {n : ℕ} {o : InferenceOrderBookState.Out} : Quiet s (s.sendFor n o) := rfl

theorem check_quiet {c : Prop} [Decidable c] : Quiet s (s.check c) := rfl

theorem payShell_quiet {dest : Address} {amount tag : ℕ} : Quiet s (payShell dest amount tag s) := by
  unfold payShell
  split <;> rfl

theorem freeDeal_quiet {tc : Address} : Quiet s (freeDeal tc s) := by
  unfold freeDeal
  split <;> rfl

theorem settleFill_quiet {makerId takerId : ℕ} {bn sn : Address} {pk : ℕ} {tc : Address}
    {trade clearing : ℕ} {b : Bool} {f c tag : ℕ} :
    Quiet s (settleFill makerId takerId bn sn pk tc trade clearing b f c tag s) := by
  unfold settleFill
  refine .trans ?_ sendFor_quiet
  refine .trans ?_ sendFor_quiet
  refine .trans ?_ sendFor_quiet
  refine .trans ?_ sendFor_quiet
  refine .trans (.trans ?_ check_quiet) rfl
  refine .trans (.trans ?_ sendFor_quiet) check_quiet
  refine .trans (.trans (.trans ?_ check_quiet) check_quiet) rfl
  exact check_quiet

/-! ## Removals with their messages -/

theorem refundAndRemove_one (cause : Removed) (h : Linked s) (hcur : cur ∈ s.orders.keys) :
    OneMaker cur s (refundAndRemove cur cause s) := by
  have hone := OneMaker.of_removal
    (removeFromBook_removal cause (s.orders.get cur).escrow h hcur)
  unfold refundAndRemove
  dsimp only
  split
  · exact (hone.quiet payShell_quiet).quiet rfl
  · exact hone

theorem removeExpiredBid_one (h : Linked s) (hcur : cur ∈ s.orders.keys) :
    OneMaker cur s (removeExpiredBid cur s) :=
  (refundAndRemove_one .expired h hcur).quiet rfl

theorem removeExpiredSell_one (h : Linked s) (hcur : cur ∈ s.orders.keys) :
    OneMaker cur s (removeExpiredSell cur s) :=
  ((OneMaker.of_removal (removeFromBook_removal .expired 0 h hcur)).quiet freeDeal_quiet).quiet rfl

theorem cancelRemove_one (owner : Address) (h : Linked s) (hcur : cur ∈ s.orders.keys) :
    OneMaker cur s (cancelRemove owner cur s) := by
  have hone := OneMaker.of_removal
    (removeFromBook_removal .cancelled (s.orders.get cur).escrow h hcur)
  unfold cancelRemove
  dsimp only
  split
  · exact (hone.quiet sendFor_quiet).quiet payShell_quiet
  · exact ((hone.quiet sendFor_quiet).quiet payShell_quiet).quiet freeDeal_quiet

/-! ## One maker -/

theorem OneMaker.edit {f : Order → Order} (h : OneMaker cur s t) (hcur : cur ∈ t.orders.keys)
    (hf : InPlace f) (hamount : (f (t.orders.get cur)).amount ≠ 0) :
    OneMaker cur s (t.editOrder cur f) :=
  h.trans (.of_edit hcur (editOrder_linked h.linked hcur hf hamount))

theorem Quiet.orders (h : Quiet s t) : t.orders = s.orders := by rw [h]

theorem tradeable_le {remaining amount budget unit : ℕ} :
    tradeable remaining amount budget unit ≤ remaining ∧
      tradeable remaining amount budget unit ≤ amount := by
  unfold tradeable
  dsimp only
  split_ifs <;> omega

/-- A fill paid for: one debit of `cost` for the BUY `tag`, which may be more than was there. -/
structure Paid (tag cost : ℕ) (beyond : Bool) (s t : Book) : Prop where
  quiet : Quiet s t
  underflow : t.underflow = (s.underflow || beyond)
  shortfall : t.shortfall = s.shortfall
  out : ∃ deal note pk f l, t.out = s.out ++ ⟨tag, .fundFromOrderBook deal cost note pk f⟩ :: l ∧
    ∀ m ∈ l, m.tag = 0

theorem settleFill_paid (makerId takerId : ℕ) (bn sn : Address) (pk : ℕ) (tc : Address)
    (trade clearing : ℕ) (b : Bool) (f c tag : ℕ) (s : Book) :
    Paid tag (fillDebit trade clearing f) false s
      (settleFill makerId takerId bn sn pk tc trade clearing b f c tag s) := by
  refine ⟨settleFill_quiet, ?_, ?_, ?_⟩
  · simp only [settleFill, Book.send, Book.sendFor, Book.check, Bool.or_false]
  · simp only [settleFill, Book.send, Book.sendFor, Book.check]
  · simp only [settleFill, Book.send, Book.sendFor, Book.check, List.append_assoc,
      List.cons_append, List.nil_append]
    refine ⟨_, _, _, _, _, rfl, ?_⟩
    simp

theorem fillMaker_buy (lp cur trade : ℕ) (p : Progress) (hk : k.isBuy = true) : ∃ u,
    Paid k.tag (fillDebit trade lp (k.flags &&& dealFlagsMask))
      (decide (p.leftoverEscrow < fillDebit trade lp (k.flags &&& dealFlagsMask))) p.book u ∧
    fillMaker k lp cur trade p =
      { book := removeFromBook cur .filled 0
          (u.editOrder cur fun o => { o with filledAccum := o.filledAccum + trade })
        remaining := p.remaining - trade
        leftoverEscrow := p.leftoverEscrow - fillDebit trade lp (k.flags &&& dealFlagsMask)
        matched := p.matched + 1 } := by
  have hpaid := settleFill_paid cur k.id k.note (p.book.orders.get cur).note k.buyerPubkey
    (p.book.orders.get cur).tokenContract trade lp true (k.flags &&& dealFlagsMask) k.clientId k.tag
    p.book
  unfold fillMaker
  simp only [hk, if_true]
  refine ⟨_, ?_, rfl⟩
  generalize settleFill _ _ _ _ _ _ _ _ _ _ _ _ _ = u at hpaid ⊢
  refine ⟨hpaid.quiet.trans rfl, ?_, hpaid.shortfall, hpaid.out⟩
  rw [show u.underflow = _ from hpaid.underflow, Bool.or_false]

theorem fillMaker_sell (lp cur trade : ℕ) (p : Progress) (hk : k.isBuy = false) : ∃ u,
    Paid (p.book.orders.get cur).tag
      (fillDebit trade k.price ((p.book.orders.get cur).flags &&& dealFlagsMask))
      (decide ((p.book.orders.get cur).escrow <
        fillDebit trade k.price ((p.book.orders.get cur).flags &&& dealFlagsMask))) p.book u ∧
    fillMaker k lp cur trade p =
      { book :=
          let w := (u.editOrder cur fun o => { o with
              escrow := (p.book.orders.get cur).escrow -
                fillDebit trade k.price ((p.book.orders.get cur).flags &&& dealFlagsMask) }).editOrder
            cur fun o => { o with filledAccum := o.filledAccum + trade }
          if (p.book.orders.get cur).amount = trade then refundAndRemove cur .filled w
          else w.editOrder cur fun o => { o with amount := (p.book.orders.get cur).amount - trade }
        remaining := 0
        leftoverEscrow := p.leftoverEscrow
        matched := p.matched + 1 } := by
  have hpaid := settleFill_paid cur k.id (p.book.orders.get cur).note k.note
    (p.book.orders.get cur).buyerPubkey k.tc trade k.price false
    ((p.book.orders.get cur).flags &&& dealFlagsMask) k.clientId (p.book.orders.get cur).tag p.book
  unfold fillMaker
  simp only [hk, Bool.false_eq_true, if_false]
  refine ⟨_, ?_, rfl⟩
  generalize settleFill _ _ _ _ _ _ _ _ _ _ _ _ _ = u at hpaid ⊢
  refine ⟨hpaid.quiet.trans rfl, ?_, hpaid.shortfall, hpaid.out⟩
  rw [show u.underflow = _ from hpaid.underflow, Bool.or_false]

theorem inPlace_filledAccum {n : ℕ} :
    InPlace fun o => { o with filledAccum := o.filledAccum + n } :=
  ⟨fun _ => rfl, fun _ => rfl, fun _ => rfl, fun _ => rfl, fun _ => rfl, fun _ => rfl⟩

theorem inPlace_escrow {n : ℕ} : InPlace fun o => { o with escrow := n } :=
  ⟨fun _ => rfl, fun _ => rfl, fun _ => rfl, fun _ => rfl, fun _ => rfl, fun _ => rfl⟩

theorem inPlace_amount {n : ℕ} : InPlace fun o => { o with amount := n } :=
  ⟨fun _ => rfl, fun _ => rfl, fun _ => rfl, fun _ => rfl, fun _ => rfl, fun _ => rfl⟩

theorem editOrder_get {f : Order → Order} :
    (s.editOrder cur f).orders.get cur = f (s.orders.get cur) := Mapping.get_modify

theorem OneMaker.quiet_edit {f : Order → Order} (h : Linked s) (hcur : cur ∈ s.orders.keys)
    (hq : Quiet s t) (hf : InPlace f) (hamount : (f (s.orders.get cur)).amount ≠ 0) :
    OneMaker cur s (t.editOrder cur f) := by
  refine ((OneMaker.refl h).quiet hq).edit ?_ hf ?_
  · rw [hq.orders]
    exact hcur
  · rw [hq.orders]
    exact hamount

theorem fillMaker_one (k : Taker) (lp : ℕ) {trade : ℕ} (h : Linked p.book) (hcur : cur ∈ p.book.orders.keys)
    (htrade : trade ≤ (p.book.orders.get cur).amount) :
    OneMaker cur p.book (fillMaker k lp cur trade p).book := by
  have hlive := h.live cur hcur
  have hmem : ∀ (u : Book) f, cur ∈ (u.editOrder cur f).orders.keys :=
    fun _ _ => Finset.mem_insert_self ..
  cases hk : k.isBuy with
  | true =>
    obtain ⟨u, hpaid, heq⟩ := fillMaker_buy lp cur trade p hk
    have hedit := OneMaker.quiet_edit h hcur hpaid.quiet (inPlace_filledAccum (n := trade)) hlive
    rw [heq]
    exact hedit.trans (.of_removal (removeFromBook_removal .filled 0 hedit.linked (hmem _ _)))
  | false =>
    obtain ⟨u, hpaid, heq⟩ := fillMaker_sell lp cur trade p hk
    rw [heq]
    dsimp only
    generalize (p.book.orders.get cur).escrow - _ = rest
    have hedit := OneMaker.quiet_edit h hcur hpaid.quiet (inPlace_escrow (n := rest)) hlive
    have hamount : ((u.editOrder cur fun o => { o with escrow := rest }).orders.get cur).amount ≠
        0 := by
      rw [editOrder_get, hpaid.quiet.orders]
      exact hlive
    have hedit2 := hedit.edit (hmem _ _) (inPlace_filledAccum (n := trade)) hamount
    split
    · exact hedit2.trans (refundAndRemove_one .filled hedit2.linked (hmem _ _))
    · rename_i hne
      exact hedit2.edit (hmem _ _) inPlace_amount (Nat.sub_ne_zero_of_lt (by omega))

theorem matchMaker_one (k : Taker) (lp : ℕ) (h : Linked p.book) (hcur : cur ∈ p.book.orders.keys) :
    OneMaker cur p.book (matchMaker k lp cur p).1.book := by
  unfold matchMaker
  dsimp only
  split
  · exact .refl h
  split
  · dsimp only
    split
    · exact removeExpiredSell_one h hcur
    · exact removeExpiredBid_one h hcur
  -- from here on the book may carry the flag of an escrow that fell short
  generalize htrade : tradeable p.remaining (p.book.orders.get cur).amount _ _ = trade
  have hle : trade ≤ (p.book.orders.get cur).amount := htrade ▸ tradeable_le.2
  generalize (!k.isBuy && decide (trade < min p.remaining (p.book.orders.get cur).amount)) = b
  have hflag : OneMaker cur p.book { p.book with shortfall := p.book.shortfall || b } :=
    (OneMaker.refl h).quiet rfl
  split
  · exact hflag
  split
  · split
    · exact hflag
    · exact hflag.trans (refundAndRemove_one .dust hflag.linked hcur)
  · exact hflag.trans (fillMaker_one k lp
      (p := { p with book := { p.book with shortfall := p.book.shortfall || b } })
      hflag.linked hcur hle)

/-! ## The walk -/

def At (k : Taker) (lp cur : ℕ) (s : Book) : Prop :=
  cur ∈ s.orders.keys ∧ (s.orders.get cur).isBuy = !k.isBuy ∧ (s.orders.get cur).price = lp

theorem At.first (h : Linked s) (hf : (s.level (!k.isBuy) lp).firstOrderId ≠ 0) :
    At k lp (s.level (!k.isBuy) lp).firstOrderId s := by
  obtain ⟨hmem, hcls⟩ := h.prices.first_mem (k := (!k.isBuy, lp)) hf
  exact ⟨hmem, congrArg Prod.fst hcls, congrArg Prod.snd hcls⟩

theorem At.next (h : Linked s) (hat : At k lp cur s) (hone : OneMaker cur s t)
    (hn : (s.orders.get cur).nextAtPrice ≠ 0) : At k lp (s.orders.get cur).nextAtPrice t := by
  obtain ⟨hcur, hside, hprice⟩ := hat
  obtain ⟨hmem, hcls, hlt⟩ := h.prices.next_mem hcur hn
  obtain ⟨hmem', hterms⟩ := hone.others _ hmem hlt.ne'
  have hb := congrArg Terms.isBuy hterms
  have hp := congrArg Terms.price hterms
  refine ⟨hmem', ?_, ?_⟩
  · rw [hb]
    exact (congrArg Prod.fst hcls).trans hside
  · rw [hp]
    exact (congrArg Prod.snd hcls).trans hprice

section Rules

variable {I : Progress → Prop}

/-- An invariant that meeting one maker keeps is kept along a level. A walk stops at its cap only
with something left to trade. -/
theorem matchOrders_rule (hlinked : ∀ p, I p → Linked p.book)
    (hstep : ∀ cur p, I p → At k lp cur p.book → p.remaining ≠ 0 → I (matchMaker k lp cur p).1) :
    ∀ (scans cur : ℕ) (p : Progress), I p → (cur ≠ 0 → At k lp cur p.book) →
      I (matchOrders k lp scans cur p).2.1 ∧
      ∀ c, (matchOrders k lp scans cur p).2.2 = .capped c →
        (matchOrders k lp scans cur p).2.1.remaining ≠ 0 := by
  intro scans
  induction scans with
  | zero =>
    intro cur p hI hat
    unfold matchOrders
    split
    · exact ⟨hI, fun c hc => by cases hc⟩
    · rename_i hgo
      exact ⟨hI, fun c _ => (not_or.mp hgo).2⟩
  | succ scans ih =>
    intro cur p hI hat
    unfold matchOrders
    split
    · exact ⟨hI, fun c hc => by cases hc⟩
    rename_i hgo
    obtain ⟨hcur, hrem⟩ := not_or.mp hgo
    dsimp only
    split
    · exact ⟨hI, fun c _ => hrem⟩
    have hI' := hstep cur p hI (hat hcur) hrem
    have hone := matchMaker_one k lp (hlinked p hI) (hat hcur).1
    split
    · exact ⟨hI', fun c hc => by cases hc⟩
    · exact ih _ _ hI' fun hn => (hat hcur).next (hlinked p hI) hone hn

theorem matchLevels_rule (hlinked : ∀ p, I p → Linked p.book)
    (hstep : ∀ lp cur p, crosses k.isBuy k.price k.isMarket lp = true → I p →
      At k lp cur p.book → p.remaining ≠ 0 → I (matchMaker k lp cur p).1) :
    ∀ {levels scans start : ℕ} {o : Option ℕ} {p : Progress}, I p →
      (∀ lp, o = some lp → start ≠ 0 → At k lp start p.book) →
      I (matchLevels k levels scans o start p).1 ∧
      ∀ c, (matchLevels k levels scans o start p).2 = some c →
        (matchLevels k levels scans o start p).1.remaining ≠ 0 := by
  intro levels
  induction levels with
  | zero =>
    intro scans start o p hI hat
    unfold matchLevels
    exact ⟨hI, fun c hc => by cases hc⟩
  | succ levels ih =>
    intro scans start o p hI hat
    cases o with
    | none =>
      unfold matchLevels
      exact ⟨hI, fun c hc => by cases hc⟩
    | some lp =>
      unfold matchLevels
      split
      · exact ⟨hI, fun c hc => by cases hc⟩
      rename_i hgo
      have hcross := (Bool.not_eq_false _).mp (not_or.mp hgo).2
      have hwalk := matchOrders_rule hlinked (fun cur p => hstep lp cur p hcross) scans
        (if start ≠ 0 then start else (p.book.level (!k.isBuy) lp).firstOrderId) p hI (by
          intro hcur
          by_cases hs : start ≠ 0
          · rw [if_pos hs]
            exact hat lp rfl hs
          · rw [if_neg hs] at hcur ⊢
            exact .first (hlinked p hI) hcur)
      dsimp only
      generalize matchOrders k lp scans _ p = r at hwalk ⊢
      obtain ⟨scans', p', e⟩ := r
      obtain ⟨hI', hcap⟩ := hwalk
      cases e with
      | done => exact ih hI' fun _ _ h => absurd rfl h
      | halted => exact ⟨hI', fun c hc => by cases hc⟩
      | capped cur => exact ⟨hI', fun c _ => hcap cur rfl⟩

theorem matchTaker_rule {amount buyEscrow resumeFrom : ℕ}
    (hlinked : ∀ p, I p → Linked p.book)
    (hstep : ∀ lp cur p, crosses k.isBuy k.price k.isMarket lp = true → I p →
      At k lp cur p.book → p.remaining ≠ 0 → I (matchMaker k lp cur p).1)
    (hI : I { book := s, remaining := amount, leftoverEscrow := buyEscrow }) :
    I (matchTaker k amount buyEscrow resumeFrom s).1 ∧
    ∀ c, (matchTaker k amount buyEscrow resumeFrom s).2 = some c →
      (matchTaker k amount buyEscrow resumeFrom s).1.remaining ≠ 0 := by
  unfold matchTaker
  dsimp only
  split
  · rename_i hres
    obtain ⟨-, hamount, hside⟩ := hres
    refine matchLevels_rule hlinked hstep hI fun lp hlp _ => ?_
    refine ⟨Linked.mem_of_amount hamount, ?_, Option.some.inj hlp⟩
    exact Bool.eq_not_of_ne hside
  · exact matchLevels_rule hlinked hstep hI fun _ _ h => absurd rfl h

end Rules

theorem matchTaker_trimmed (k : Taker) (amount buyEscrow resumeFrom : ℕ) (h : Linked s) :
    Trimmed s (matchTaker k amount buyEscrow resumeFrom s).1.book :=
  (matchTaker_rule (I := fun p => Trimmed s p.book) (fun _ hp => hp.linked)
    (fun _ _ _ _ hp hat _ => hp.trans (matchMaker_one _ _ hp.linked hat.1).toTrimmed) (.refl h)).1

end InferenceOrderBookMatching
