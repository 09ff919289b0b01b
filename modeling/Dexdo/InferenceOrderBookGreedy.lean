import Dexdo.InferenceOrderBookEscrow
import Dexdo.InferenceOrderBookPriority

/-! # Matching by price and time

The reference: every maker a taker accepts is met once, in price and time order, and each is
skipped, dropped or filled on the figures the taker has by then. The walk of `_match`, cut into
calls that each stop at a budget and go on from a cursor, does the same. -/
namespace InferenceOrderBookGreedy

open TokenContractState hiding Out Err Sent
open SolidityMapping IntrusiveList InferenceOrderBookState
open InferenceOrderBookCalls InferenceOrderBookLists InferenceOrderBookMatching
open InferenceOrderBookAccounts InferenceOrderBookEscrow InferenceOrderBookPriority

/-! ## The reference -/

inductive Verdict where
  | skip | drop | stop | dust
  | fill (ticks clearing : ℕ)
  deriving DecidableEq, Repr

def verdict (k : Taker) (now : ℕ) (o : Terms) (remaining leftover : ℕ) : Verdict :=
  if !dealCompatible k.isBuy k.flags o.flags then .skip
  else if isExpired o.deadline now then .drop
  else
    -- a deal clears at the seller's price and is paid from the buyer's escrow
    let clearing := if k.isBuy then o.price else k.price
    let ticks := tradeable remaining o.amount (if k.isBuy then leftover else o.escrow)
      (unit clearing)
    if aonMisfit k.flags o.flags ticks remaining o.amount then .skip
    else if ticks < 2 then if k.isBuy then .stop else .dust
    else .fill ticks clearing

inductive Trade where
  | fill (maker ticks clearing : ℕ)
  | removal (maker : ℕ) (cause : Removed)
  deriving DecidableEq, Repr

structure Tally where
  remaining : ℕ
  leftover : ℕ
  halted : Bool
  trades : List Trade
  deriving DecidableEq, Repr

/-- The maker `i` with the terms `o` is met. -/
def settle (k : Taker) (now : ℕ) (f : Tally) (i : ℕ) (o : Terms) : Tally :=
  if f.halted = true ∨ f.remaining = 0 then f
  else
    match verdict k now o f.remaining f.leftover with
    | .skip => f
    | .drop => { f with trades := f.trades ++ [Trade.removal i .expired] }
    | .stop => { f with halted := true }
    | .dust => { f with trades := f.trades ++ [Trade.removal i .dust] }
    | .fill ticks clearing =>
      if k.isBuy then
        -- an offer is one deal: it is gone whatever it had left
        { f with
          remaining := f.remaining - ticks
          leftover := f.leftover - fillDebit ticks clearing k.flags
          trades := f.trades ++ [Trade.fill i ticks clearing, Trade.removal i .filled] }
      else
        { f with
          remaining := 0
          trades := f.trades ++ .fill i ticks clearing ::
            if o.amount = ticks then [Trade.removal i .filled] else [] }

def serve (k : Taker) (s : Book) (l : List ℕ) (f : Tally) : Tally :=
  l.foldl (fun f i => settle k s.now f i (s.orders.get i).toTerms) f

/-! ## What the book announces -/

def tradeOf : Out → Option Trade
  | .inferenceFilled maker _ ticks clearing _ _ _ => some (.fill maker ticks clearing)
  | .onInferenceOrderRemoved _ _ orderId cause _ => some (.removal orderId cause)
  | _ => none

def trades (s : Book) : List Trade := s.out.filterMap fun m => tradeOf m.body

def tally (p : Progress) (halted : Bool) : Tally :=
  ⟨p.remaining, p.leftoverEscrow, halted, trades p.book⟩

variable {s t u : Book} {k : Taker} {p q : Progress} {cur lp i : ℕ} {l l' : List ℕ} {f : Tally}

theorem trades_sendFor {n : ℕ} {o : Out} :
    trades (s.sendFor n o) = trades s ++ (tradeOf o).toList := by
  unfold trades Book.sendFor
  cases h : tradeOf o <;> simp [h]

theorem trades_send {o : Out} : trades (s.send o) = trades s ++ (tradeOf o).toList := trades_sendFor

theorem trades_payShell {dest : Address} {amount tag : ℕ} :
    trades (payShell dest amount tag s) = trades s := by
  unfold payShell
  split
  · rfl
  · exact trades_sendFor.trans (List.append_nil _)

theorem trades_freeDeal {tc : Address} : trades (freeDeal tc s) = trades s := by
  unfold freeDeal
  split
  · exact trades_send.trans (List.append_nil _)
  · rfl

theorem trades_removeFromBook (cause : Removed) (r : ℕ) (h : (s.orders.get cur).amount ≠ 0) :
    trades (removeFromBook cur cause r s) = trades s ++ [Trade.removal cur cause] := by
  have hout : (removeFromBook cur cause r s).out =
      s.out ++ [⟨0, .onInferenceOrderRemoved (s.orders.get cur).note s.modelHash cur cause r⟩] := by
    rw [removeFromBook_eq h]
  unfold trades
  rw [hout]
  simp [tradeOf]

theorem trades_refundAndRemove (cause : Removed) (h : (s.orders.get cur).amount ≠ 0) :
    trades (refundAndRemove cur cause s) = trades s ++ [Trade.removal cur cause] := by
  have hgone := trades_removeFromBook cause (s.orders.get cur).escrow h
  unfold refundAndRemove
  dsimp only
  split
  · rw [trades_send, trades_payShell, hgone]
    exact List.append_nil _
  · exact hgone

theorem settleFill_fills (makerId takerId : ℕ) (bn sn : Address) (pk : ℕ) (tc : Address)
    (n clearing : ℕ) (b : Bool) (f c tag : ℕ) (s : Book) :
    Quiet s (settleFill makerId takerId bn sn pk tc n clearing b f c tag s) ∧
    trades (settleFill makerId takerId bn sn pk tc n clearing b f c tag s) =
      trades s ++ [Trade.fill makerId n clearing] := by
  refine ⟨settleFill_quiet, ?_⟩
  unfold settleFill trades
  simp [Book.send, Book.sendFor, Book.check, tradeOf]

/-! ## One maker -/

theorem removal_passed (cause : Removed) (r : ℕ) (hl : Linked s) (hcur : cur ∈ s.orders.keys)
    (hu : u.orders = (removeFromBook cur cause r s).orders) : Passed cur s u := by
  left
  rw [hu, (removeFromBook_removal cause r hl hcur).keys]
  exact Finset.notMem_erase cur _

theorem refundAndRemove_orders {cause : Removed} : (refundAndRemove cur cause s).orders =
    (removeFromBook cur cause (s.orders.get cur).escrow s).orders := by
  unfold refundAndRemove payShell
  dsimp only
  split
  · split <;> rfl
  · rfl

theorem expired_leaves (b : Bool) (hl : Linked s) (hcur : cur ∈ s.orders.keys) :
    trades (if b then removeExpiredSell cur s else removeExpiredBid cur s) =
      trades s ++ [Trade.removal cur .expired] ∧
    Passed cur s (if b then removeExpiredSell cur s else removeExpiredBid cur s) := by
  have hlive := hl.live cur hcur
  cases b with
  | true =>
    rw [if_pos rfl]
    constructor
    · unfold removeExpiredSell
      dsimp only
      rw [trades_send, trades_freeDeal, trades_removeFromBook .expired 0 hlive]
      exact List.append_nil _
    · refine removal_passed .expired 0 hl hcur ?_
      unfold removeExpiredSell
      dsimp only
      exact (sendFor_quiet.orders.trans freeDeal_quiet.orders)
  | false =>
    rw [if_neg (by decide)]
    constructor
    · unfold removeExpiredBid
      dsimp only
      rw [trades_send, trades_refundAndRemove .expired hlive]
      exact List.append_nil _
    · exact removal_passed .expired _ hl hcur refundAndRemove_orders

theorem edited_amount {f : Order → Order} (hf : ∀ o, (f o).amount = o.amount)
    (h : (s.orders.get cur).amount ≠ 0) : ((s.editOrder cur f).orders.get cur).amount ≠ 0 := by
  rw [editOrder_get, hf]
  exact h

theorem fillMaker_buy_form (lp cur n : ℕ) (p : Progress) (hk : k.isBuy = true) : ∃ v,
    Quiet p.book v ∧ trades v = trades p.book ++ [Trade.fill cur n lp] ∧
    fillMaker k lp cur n p =
      { book := removeFromBook cur .filled 0
          (v.editOrder cur fun o => { o with filledAccum := o.filledAccum + n })
        remaining := p.remaining - n
        leftoverEscrow := p.leftoverEscrow - fillDebit n lp (k.flags &&& dealFlagsMask)
        matched := p.matched + 1 } := by
  have hfill := settleFill_fills cur k.id k.note (p.book.orders.get cur).note k.buyerPubkey
    (p.book.orders.get cur).tokenContract n lp true (k.flags &&& dealFlagsMask) k.clientId k.tag
    p.book
  unfold fillMaker
  simp only [hk, if_true]
  refine ⟨_, ?_, ?_, rfl⟩ <;>
    generalize settleFill _ _ _ _ _ _ _ _ _ _ _ _ _ = u at hfill ⊢
  · exact hfill.1.trans rfl
  · exact hfill.2

theorem fillMaker_sell_form (lp cur n : ℕ) (p : Progress) (hk : k.isBuy = false) : ∃ v,
    Quiet p.book v ∧ trades v = trades p.book ++ [Trade.fill cur n k.price] ∧
    fillMaker k lp cur n p =
      { book :=
          let w := (v.editOrder cur fun o => { o with
              escrow := (p.book.orders.get cur).escrow -
                fillDebit n k.price ((p.book.orders.get cur).flags &&& dealFlagsMask) }).editOrder
            cur fun o => { o with filledAccum := o.filledAccum + n }
          if (p.book.orders.get cur).amount = n then refundAndRemove cur .filled w
          else w.editOrder cur fun o => { o with amount := (p.book.orders.get cur).amount - n }
        remaining := 0
        leftoverEscrow := p.leftoverEscrow
        matched := p.matched + 1 } := by
  have hfill := settleFill_fills cur k.id (p.book.orders.get cur).note k.note
    (p.book.orders.get cur).buyerPubkey k.tc n k.price false
    ((p.book.orders.get cur).flags &&& dealFlagsMask) k.clientId (p.book.orders.get cur).tag p.book
  unfold fillMaker
  simp only [hk, Bool.false_eq_true, if_false]
  refine ⟨_, ?_, ?_, rfl⟩ <;>
    generalize settleFill _ _ _ _ _ _ _ _ _ _ _ _ _ = u at hfill ⊢
  · exact hfill.1.trans rfl
  · exact hfill.2

/-- A fill of a BUY taker consumes the offer. -/
theorem fillMaker_buys (lp n : ℕ) (hk : k.isBuy = true) (hl : Linked p.book)
    (hcur : cur ∈ p.book.orders.keys) :
    tally (fillMaker k lp cur n p) false =
      ⟨p.remaining - n, p.leftoverEscrow - fillDebit n lp k.flags, false,
        trades p.book ++ [Trade.fill cur n lp, Trade.removal cur .filled]⟩ ∧
    Passed cur p.book (fillMaker k lp cur n p).book := by
  obtain ⟨v, hq, htrades, heq⟩ := fillMaker_buy_form lp cur n p hk
  have hlive := hl.live cur hcur
  have hmem : cur ∈ v.orders.keys := by
    rw [hq.orders]
    exact hcur
  have hamount : (v.orders.get cur).amount ≠ 0 := by
    rw [hq.orders]
    exact hlive
  have hone := OneMaker.quiet_edit hl hcur hq (inPlace_filledAccum (n := n)) hlive
  have hkeys : cur ∈ (v.editOrder cur fun o => { o with
      filledAccum := o.filledAccum + n }).orders.keys := by
    rw [show (v.editOrder cur _).orders.keys = v.orders.keys from Mapping.keys_modify hmem]
    exact hmem
  have hgone := trades_removeFromBook .filled 0 (s := v.editOrder cur fun o => { o with
    filledAccum := o.filledAccum + n }) (edited_amount (fun _ => rfl) hamount)
  rw [show trades (v.editOrder cur _) = trades v from rfl, htrades, List.append_assoc] at hgone
  rw [heq]
  constructor
  · unfold tally
    dsimp only
    rw [hgone, fillDebit_mask]
    rfl
  · left
    rw [(removeFromBook_removal .filled 0 hone.linked hkeys).keys]
    exact Finset.notMem_erase cur _

theorem fillMaker_sells (lp cur n : ℕ) (hk : k.isBuy = false)
    (hlive : (p.book.orders.get cur).amount ≠ 0) :
    tally (fillMaker k lp cur n p) false = ⟨0, p.leftoverEscrow, false,
      trades p.book ++ .fill cur n k.price ::
        if (p.book.orders.get cur).amount = n then [Trade.removal cur .filled] else []⟩ := by
  obtain ⟨v, hq, htrades, heq⟩ := fillMaker_sell_form lp cur n p hk
  have hamount : (v.orders.get cur).amount ≠ 0 := by
    rw [hq.orders]
    exact hlive
  rw [heq]
  unfold tally
  dsimp only
  generalize hw : (v.editOrder cur _).editOrder cur _ = w
  have hwt : trades w = trades v := by
    rw [← hw]
    rfl
  have hwa : (w.orders.get cur).amount ≠ 0 := by
    rw [← hw]
    exact edited_amount (fun _ => rfl) (edited_amount (fun _ => rfl) hamount)
  split
  · rw [trades_refundAndRemove .filled hwa, hwt, htrades, List.append_assoc]
    rfl
  · rw [show trades (w.editOrder cur _) = trades w from rfl, hwt, htrades]

/-- Meeting a maker is what the reference does with it. -/
theorem matchMaker_settles (hl : Linked p.book) (hat : At k lp cur p.book)
    (hrem : p.remaining ≠ 0) :
    tally (matchMaker k lp cur p).1 (matchMaker k lp cur p).2 =
      settle k p.book.now (tally p false) cur (p.book.orders.get cur).toTerms ∧
    ((matchMaker k lp cur p).1.remaining ≠ 0 →
      Passed cur p.book (matchMaker k lp cur p).1.book) := by
  have hlive := hl.live cur hat.1
  have hgo : ¬ ((tally p false).halted = true ∨ (tally p false).remaining = 0) := by
    simpa [tally] using hrem
  have hprice : (p.book.orders.get cur).price = lp := hat.2.2
  unfold matchMaker settle verdict
  rw [if_neg hgo]
  dsimp only [tally]
  rw [hprice]
  by_cases hdeal : (!dealCompatible k.isBuy k.flags (p.book.orders.get cur).flags) = true
  · rw [if_pos hdeal, if_pos hdeal]
    exact ⟨rfl, fun _ => .inr rfl⟩
  rw [if_neg hdeal, if_neg hdeal]
  by_cases hexp : isExpired (p.book.orders.get cur).deadline p.book.now = true
  · rw [if_pos hexp, if_pos hexp]
    obtain ⟨htrades, hpass⟩ := expired_leaves k.isBuy hl hat.1
    refine ⟨?_, fun _ => hpass⟩
    dsimp only
    rw [htrades]
  rw [if_neg hexp, if_neg hexp]
  generalize tradeable p.remaining (p.book.orders.get cur).amount _ _ = n
  -- from here on the book may carry the flag of an escrow that fell short
  generalize (!k.isBuy && decide (n < min p.remaining (p.book.orders.get cur).amount)) = b
  have hflag : Linked { p.book with shortfall := p.book.shortfall || b } := { hl with }
  by_cases haon : aonMisfit k.flags (p.book.orders.get cur).flags n p.remaining
      (p.book.orders.get cur).amount = true
  · simp only [haon, if_true]
    exact ⟨rfl, fun _ => .inr rfl⟩
  simp only [haon]
  by_cases hmin : n < 2
  · simp only [hmin, if_true]
    cases hk : k.isBuy with
    | true => exact ⟨rfl, fun _ => .inr rfl⟩
    | false =>
      have htrades := trades_refundAndRemove .dust
        (s := { p.book with shortfall := p.book.shortfall || b }) hlive
      have hpass := removal_passed .dust _ hflag hat.1 refundAndRemove_orders
      refine ⟨?_, fun _ => hpass⟩
      simp only [Bool.false_eq_true, if_false, htrades]
      rfl
  · simp only [hmin, if_false]
    cases hk : k.isBuy with
    | true =>
      obtain ⟨htally, hpass⟩ := fillMaker_buys lp n (k := k)
        (p := { p with book := { p.book with shortfall := p.book.shortfall || b } }) hk hflag hat.1
      exact ⟨htally, fun _ => hpass⟩
    | false =>
      have htally := fillMaker_sells lp cur n (k := k)
        (p := { p with book := { p.book with shortfall := p.book.shortfall || b } }) hk hlive
      refine ⟨htally, fun hne => ?_⟩
      have hzero := congrArg Tally.remaining htally
      exact absurd hzero hne

/-! ## The walk of one call -/

theorem serve_append (l l' : List ℕ) (f : Tally) :
    serve k s (l ++ l') f = serve k s l' (serve k s l f) := List.foldl_append

theorem serve_congr : ∀ {l : List ℕ} {f : Tally}, t.now = s.now →
    (∀ i ∈ l, (t.orders.get i).toTerms = (s.orders.get i).toTerms) →
    serve k t l f = serve k s l f
  | [], _, _, _ => rfl
  | i :: l, f, hnow, h => by
    have hrest := serve_congr (l := l)
      (f := settle k s.now f i (s.orders.get i).toTerms) hnow fun j hj =>
        h j (List.mem_cons_of_mem _ hj)
    unfold serve at hrest ⊢
    rw [List.foldl_cons, List.foldl_cons, hnow, h i List.mem_cons_self]
    rw [hnow] at hrest
    exact hrest

theorem serve_spent : ∀ {l : List ℕ} {f : Tally}, f.halted = true ∨ f.remaining = 0 →
    serve k s l f = f
  | [], _, _ => rfl
  | i :: l, f, h => by
    have hstep : settle k s.now f i (s.orders.get i).toTerms = f := if_pos h
    unfold serve
    rw [List.foldl_cons, hstep]
    exact serve_spent h

/-- From `p` with the makers `l` ahead the walk came to `q` with `l'` ahead. -/
structure Walked (k : Taker) (p : Progress) (l : List ℕ) (q : Progress) (l' : List ℕ) : Prop where
  met : ∃ l₁, l = l₁ ++ l' ∧ tally q false = serve k p.book l₁ (tally p false)
  terms : ∀ i ∈ l', (q.book.orders.get i).toTerms = (p.book.orders.get i).toTerms
  trimmed : Trimmed p.book q.book

theorem Walked.refl (hl : Linked p.book) : Walked k p l p l :=
  ⟨⟨[], rfl, rfl⟩, fun _ _ => rfl, .refl hl⟩

theorem Walked.trans {r : Progress} {l'' : List ℕ} (h : Walked k p l q l')
    (h' : Walked k q l' r l'') : Walked k p l r l'' := by
  obtain ⟨l₁, rfl, h₁⟩ := h.met
  obtain ⟨l₂, rfl, h₂⟩ := h'.met
  refine ⟨⟨l₁ ++ l₂, (List.append_assoc ..).symm, ?_⟩, fun i hi => ?_, h.trimmed.trans h'.trimmed⟩
  · rw [serve_append, ← h₁, h₂]
    exact serve_congr h.trimmed.now fun i hi => h.terms i (List.mem_append_left _ hi)
  · exact (h'.terms i hi).trans (h.terms i (List.mem_append_right _ hi))

theorem Walked.rest (h : Walked k p l q l') :
    serve k q.book l' (tally q false) = serve k p.book l (tally p false) := by
  obtain ⟨l₁, rfl, h₁⟩ := h.met
  rw [serve_append, ← h₁]
  exact serve_congr h.trimmed.now h.terms

theorem Walked.length (h : Walked k p l q l') : l'.length ≤ l.length := by
  obtain ⟨l₁, rfl, -⟩ := h.met
  rw [List.length_append]
  omega

def Ended (k : Taker) (p : Progress) (l : List ℕ) (q : Progress) : Prop :=
  ∃ b, tally q b = serve k p.book l (tally p false)

theorem Walked.ended (h : Walked k p l q l') (hdone : l' = [] ∨ q.remaining = 0) :
    Ended k p l q := by
  refine ⟨false, ?_⟩
  rw [← h.rest]
  rcases hdone with rfl | hz
  · rfl
  · exact (serve_spent (.inr hz)).symm

theorem Ended.after {r : Progress} (he : Ended k q l' r) (h : Walked k p l q l') :
    Ended k p l r := by
  obtain ⟨b, hb⟩ := he
  exact ⟨b, hb.trans h.rest⟩

/-- One maker met. -/
theorem matchMaker_walked (hl : Linked p.book) (hat : At k lp cur p.book)
    (hrem : p.remaining ≠ 0)
    (h : Ahead k p.book (Beyond k lp cur p.book) (cur :: l)) :
    ((matchMaker k lp cur p).2 = true → Ended k p (cur :: l) (matchMaker k lp cur p).1) ∧
    ((matchMaker k lp cur p).2 = false →
      Walked k p (cur :: l) (matchMaker k lp cur p).1 l ∧
      ((matchMaker k lp cur p).1.remaining ≠ 0 →
        Ahead k (matchMaker k lp cur p).1.book
          (Beyond k lp (p.book.orders.get cur).nextAtPrice (matchMaker k lp cur p).1.book) l)) := by
  obtain ⟨htally, hpass⟩ := matchMaker_settles hl hat hrem
  have hone := matchMaker_one k lp hl hat.1
  generalize matchMaker k lp cur p = r at htally hpass hone ⊢
  constructor
  · intro hstop
    refine ⟨true, ?_⟩
    rw [hstop] at htally
    have hover : (settle k p.book.now (tally p false) cur
        (p.book.orders.get cur).toTerms).halted = true := by rw [← htally]; rfl
    unfold serve
    rw [List.foldl_cons, htally]
    exact (serve_spent (.inl hover)).symm
  · intro hgo
    rw [hgo] at htally
    refine ⟨⟨⟨[cur], rfl, htally⟩, fun i hi => ?_, hone.toTrimmed⟩, fun hne => ?_⟩
    · obtain ⟨hr, -⟩ := (h.mem i).mp (List.mem_cons_of_mem _ hi)
      have hic : i ≠ cur := by
        rintro rfl
        exact before_irrefl i ((List.pairwise_cons.mp h.sorted).1 i hi)
      exact (hone.others i hr.1 hic).2
    · exact h.pass hl hat hone (hpass hne)

/-- The walk stopped at its cap in front of the maker `c`, which is the head of what is ahead. -/
structure Paused (k : Taker) (p : Progress) (l : List ℕ) (q : Progress) (c : ℕ) (l' : List ℕ) :
    Prop where
  walked : Walked k p l q (c :: l')
  ahead : Ahead k q.book (Beyond k (q.book.orders.get c).price c q.book) (c :: l')
  present : At k (q.book.orders.get c).price c q.book
  cursor : c ≠ 0
  going : q.remaining ≠ 0

theorem Paused.after {r : Progress} {c : ℕ} {l'' : List ℕ} (hp : Paused k q l' r c l'')
    (h : Walked k p l q l') : Paused k p l r c l'' :=
  ⟨h.trans hp.walked, hp.ahead, hp.present, hp.cursor, hp.going⟩

def Spent (scans matched met : ℕ) : Prop := scans ≤ met ∨ maxMatchesPerCall ≤ matched + met

/-- How the walk along a level leaves the list of makers. -/
def LevelWalked (k : Taker) (lp scans : ℕ) (p : Progress) (l : List ℕ) :
    ℕ × Progress × LevelEnd → Prop
  | (scans', q, .done) => ∃ l', Walked k p l q l' ∧
      (q.remaining = 0 ∨ Ahead k q.book (Beyond k lp 0 q.book) l') ∧
      scans + l'.length ≤ scans' + l.length ∧ q.matched + l'.length ≤ p.matched + l.length
  | (_, q, .halted) => Ended k p l q
  | (_, q, .capped c) => ∃ l', Paused k p l q c l' ∧
      Spent scans p.matched (l.length - (l'.length + 1))

theorem fillMaker_matched {n : ℕ} : (fillMaker k lp cur n p).matched = p.matched + 1 := by
  unfold fillMaker
  dsimp only
  split
  · rfl
  · rfl

theorem matchMaker_matched : (matchMaker k lp cur p).1.matched ≤ p.matched + 1 := by
  unfold matchMaker
  dsimp only
  split
  · exact Nat.le_succ _
  split
  · exact le_rfl
  generalize unit _ = price
  generalize tradeable _ _ _ price = trade
  split
  · exact Nat.le_succ _
  split
  · split
    · exact Nat.le_succ _
    · exact le_rfl
  · rw [fillMaker_matched]

theorem matchOrders_walked (hc : crosses k.isBuy k.price k.isMarket lp = true) :
    ∀ (scans : ℕ) {cur : ℕ} {l : List ℕ} {p : Progress}, Linked p.book →
      (cur ≠ 0 → At k lp cur p.book) → Ahead k p.book (Beyond k lp cur p.book) l →
      LevelWalked k lp scans p l (matchOrders k lp scans cur p) := by
  intro scans
  induction scans with
  | zero =>
    intro cur l p hl hat h
    unfold matchOrders
    split
    · rename_i hend
      refine ⟨l, .refl hl, ?_, le_rfl, le_rfl⟩
      rcases hend with rfl | hz
      · exact .inr h
      · exact .inl hz
    · rename_i hgo
      obtain ⟨hcur, hrem⟩ := not_or.mp hgo
      obtain ⟨l', rfl⟩ := h.head (hat hcur) hcur hc
      have hprice := (hat hcur).2.2
      exact ⟨l', ⟨.refl hl, by rw [hprice]; exact h, by rw [hprice]; exact hat hcur, hcur, hrem⟩,
        .inl (Nat.zero_le _)⟩
  | succ scans ih =>
    intro cur l p hl hat h
    unfold matchOrders
    split
    · rename_i hend
      refine ⟨l, .refl hl, ?_, le_rfl, le_rfl⟩
      rcases hend with rfl | hz
      · exact .inr h
      · exact .inl hz
    rename_i hgo
    obtain ⟨hcur, hrem⟩ := not_or.mp hgo
    obtain ⟨l', rfl⟩ := h.head (hat hcur) hcur hc
    have hprice := (hat hcur).2.2
    dsimp only
    split
    · rename_i hcap
      exact ⟨l', ⟨.refl hl, by rw [hprice]; exact h, by rw [hprice]; exact hat hcur, hcur, hrem⟩,
        .inr (hcap.trans (Nat.le_add_right _ _))⟩
    obtain ⟨hstop, hpass⟩ := matchMaker_walked hl (hat hcur) hrem h
    have hone := matchMaker_one k lp hl (hat hcur).1
    have hnext := fun hn => (hat hcur).next hl hone hn
    have hmatched : (matchMaker k lp cur p).1.matched ≤ p.matched + 1 := matchMaker_matched
    generalize matchMaker k lp cur p = r at hstop hpass hone hnext hmatched ⊢
    split
    · rename_i hr
      exact hstop hr
    rename_i hr
    obtain ⟨hwalked, hahead⟩ := hpass (by simpa using hr)
    by_cases hz : r.1.remaining = 0
    · -- nothing left to trade: the rest of the level is not looked at
      have hend : matchOrders k lp scans (p.book.orders.get cur).nextAtPrice r.1 =
          (scans, r.1, .done) := by
        unfold matchOrders
        rw [if_pos (.inr hz)]
      rw [hend]
      refine ⟨l', hwalked, .inl hz, ?_, ?_⟩
      · rw [List.length_cons]
        omega
      · rw [List.length_cons]
        omega
    · have hrest := ih hone.linked hnext (hahead hz)
      generalize matchOrders k lp scans _ r.1 = w at hrest ⊢
      obtain ⟨scans', q, e⟩ := w
      cases e with
      | done =>
        obtain ⟨l'', hw, hq, hscan, hmet⟩ := hrest
        refine ⟨l'', hwalked.trans hw, hq, ?_, ?_⟩
        · rw [List.length_cons]
          omega
        · rw [List.length_cons]
          omega
      | halted => exact hrest.after hwalked
      | capped c =>
        obtain ⟨l'', hp, hspent⟩ := hrest
        have hle := hp.walked.length
        rw [List.length_cons] at hle
        refine ⟨l'', hp.after hwalked, ?_⟩
        unfold Spent at hspent ⊢
        rw [List.length_cons]
        omega

def levelsFrom (k : Taker) (lp : ℕ) (s : Book) : Finset ℕ :=
  (s.levels (!k.isBuy)).keys.filter fun q => q = lp ∨ Prior k.isBuy lp q

theorem level_from (hl : Linked s) (h : Ahead k s (Beyond k lp cur s) l) (hi : i ∈ l) :
    (s.orders.get i).price ∈ levelsFrom k lp s := by
  obtain ⟨hr, hb⟩ := (h.mem i).mp hi
  refine Finset.mem_filter.mpr ⟨(level_mem hl hr).1, ?_⟩
  rcases hb with hp | ⟨heq, -, -⟩
  · exact .inr hp
  · exact .inl heq

theorem levelsFrom_next {lq : ℕ} (hmem : lp ∈ (s.levels (!k.isBuy)).keys)
    (hsub : (t.levels (!k.isBuy)).keys ⊆ (s.levels (!k.isBuy)).keys)
    (hn : nextOpposite k.isBuy lp t = some lq) :
    (levelsFrom k lq t).card < (levelsFrom k lp s).card := by
  obtain ⟨-, hlt, -⟩ := nextOpposite_some hn
  refine Finset.card_lt_card ⟨fun q hq => ?_, fun hsup => ?_⟩
  · obtain ⟨hq, hord⟩ := Finset.mem_filter.mp hq
    refine Finset.mem_filter.mpr ⟨hsub hq, .inr ?_⟩
    rcases hord with rfl | hp
    · exact hlt
    · exact prior_trans hlt hp
  · have hin := hsup (Finset.mem_filter.mpr ⟨hmem, .inl rfl⟩)
    rcases (Finset.mem_filter.mp hin).2 with rfl | hp
    · exact prior_irrefl _ hlt
    · exact prior_asymm hlt hp

/-- The position a walk over levels starts from. -/
structure Stands (k : Taker) (levels start : ℕ) (lp : ℕ) (s : Book) (l : List ℕ) : Prop where
  ahead : Ahead k s (Beyond k lp (if start ≠ 0 then start
    else (s.level (!k.isBuy) lp).firstOrderId) s) l
  cursor : start ≠ 0 → At k lp start s
  level : lp ∈ (s.levels (!k.isBuy)).keys
  fuel : (levelsFrom k lp s).card ≤ levels

def TakerWalked (k : Taker) (scans : ℕ) (p : Progress) (l : List ℕ) : Progress × Option ℕ → Prop
  | (q, none) => Ended k p l q
  | (q, some c) => ∃ l', Paused k p l q c l' ∧ Spent scans p.matched (l.length - (l'.length + 1))

theorem matchLevels_walked : ∀ (levels scans start : ℕ) {o : Option ℕ} {p : Progress} {l : List ℕ},
    Linked p.book → (o = none → l = []) → (∀ lp, o = some lp → Stands k levels start lp p.book l) →
    TakerWalked k scans p l (matchLevels k levels scans o start p) := by
  intro levels
  induction levels with
  | zero =>
    intro scans start o p l hl hnone hsome
    unfold matchLevels
    have hnil : l = [] := by
      cases o with
      | none => exact hnone rfl
      | some lp =>
        have hst := hsome lp rfl
        rw [List.eq_nil_iff_forall_not_mem]
        intro i hi
        have hpos := Finset.card_pos.mpr ⟨_, level_from hl hst.ahead hi⟩
        have hfuel := hst.fuel
        omega
    exact (Walked.refl hl).ended (.inl hnil)
  | succ levels ih =>
    intro scans start o p l hl hnone hsome
    cases o with
    | none =>
      unfold matchLevels
      exact (Walked.refl hl).ended (.inl (hnone rfl))
    | some lp =>
      have hst := hsome lp rfl
      unfold matchLevels
      split
      · rename_i hend
        refine (Walked.refl hl).ended ?_
        rcases hend with hz | hno
        · exact .inr hz
        · exact .inl (hst.ahead.uncrossed hno)
      rename_i hgo
      have hcross := (Bool.not_eq_false _).mp (not_or.mp hgo).2
      have hwalk := matchOrders_walked hcross scans hl (by
        intro hcur
        by_cases hs : start ≠ 0
        · rw [if_pos hs]
          exact hst.cursor hs
        · rw [if_neg hs] at hcur ⊢
          exact .first hl hcur) hst.ahead
      dsimp only
      generalize matchOrders k lp scans _ p = r at hwalk ⊢
      obtain ⟨scans', q, e⟩ := r
      cases e with
      | halted => exact hwalk
      | capped c => exact hwalk
      | done =>
        obtain ⟨l', hw, hrest, hscan, hmet⟩ := hwalk
        have hlq := hw.trimmed.linked
        dsimp only
        by_cases hz : q.remaining = 0
        · -- the levels left are not looked at
          have hend : matchLevels k levels scans' (nextOpposite k.isBuy lp q.book) 0 q =
              (q, none) := by
            cases levels with
            | zero => rfl
            | succ levels =>
              cases nextOpposite k.isBuy lp q.book with
              | none => rfl
              | some lq =>
                unfold matchLevels
                rw [if_pos (.inl hz)]
          rw [hend]
          exact hw.ended (.inr hz)
        have hahead := hrest.resolve_left hz
        have hgoon := ih scans' 0 (o := nextOpposite k.isBuy lp q.book)
          (p := q) (l := l') hlq (fun hn => hahead.last hlq hn) (by
            intro lq hn
            refine ⟨?_, fun h => absurd rfl h, (nextOpposite_some hn).1, ?_⟩
            · rw [if_neg (not_not.mpr rfl)]
              exact hahead.next hlq hn
            · have hlt := levelsFrom_next hst.level (hw.trimmed.levels _) hn
              have hfuel := hst.fuel
              omega)
        generalize matchLevels k levels scans' _ 0 q = w at hgoon ⊢
        obtain ⟨r, c⟩ := w
        cases c with
        | none => exact hgoon.after hw
        | some c =>
          obtain ⟨l'', hp, hspent⟩ := hgoon
          refine ⟨l'', hp.after hw, ?_⟩
          have hle := hp.walked.length
          have hle' := hw.length
          rw [List.length_cons] at hle
          unfold Spent at hspent ⊢
          omega

/-- How one call of `_match` leaves the makers ahead: all met, or thirty fewer than before. -/
def Matched (k : Taker) (p : Progress) (l : List ℕ) : Progress × Option ℕ → Prop
  | (q, none) => Ended k p l q
  | (q, some c) => ∃ l', Paused k p l q c l' ∧ maxMatchesPerCall + (l'.length + 1) ≤ l.length

theorem TakerWalked.matched {amount escrow : ℕ} {r : Progress × Option ℕ}
    (h : TakerWalked k maxScanPerCall { book := s, remaining := amount, leftoverEscrow := escrow }
      l r) :
    Matched k { book := s, remaining := amount, leftoverEscrow := escrow } l r := by
  obtain ⟨q, c⟩ := r
  cases c with
  | none => exact h
  | some c =>
    obtain ⟨l', hp, hspent⟩ := h
    have hle := hp.walked.length
    rw [List.length_cons] at hle
    refine ⟨l', hp, ?_⟩
    unfold Spent maxScanPerCall maxMatchesPerCall at hspent
    unfold maxMatchesPerCall
    dsimp only at hspent
    omega

theorem matchTaker_first (hl : Linked s) (h : PriceTime k s l) (amount escrow : ℕ) :
    Matched k { book := s, remaining := amount, leftoverEscrow := escrow } l
      (matchTaker k amount escrow 0 s) := by
  unfold matchTaker
  dsimp only
  rw [if_neg fun hres => hres.1 rfl]
  refine TakerWalked.matched (matchLevels_walked _ _ _ hl (fun hn => h.empty hl hn) fun lp hb => ?_)
  refine ⟨?_, fun hz => absurd rfl hz, (bestOpposite_some hb).1, ?_⟩
  · rw [if_neg (not_not.mpr rfl)]
    exact h.best hl hb
  · exact Finset.card_le_card (Finset.filter_subset _ _)

theorem matchTaker_resumed {c : ℕ} (hl : Linked s)
    (h : Ahead k s (Beyond k (s.orders.get c).price c s) (c :: l))
    (hat : At k (s.orders.get c).price c s) (hc : c ≠ 0) (amount escrow : ℕ) :
    Matched k { book := s, remaining := amount, leftoverEscrow := escrow } (c :: l)
      (matchTaker k amount escrow c s) := by
  have hside : (s.orders.get c).isBuy ≠ k.isBuy := by
    rw [hat.2.1]
    cases k.isBuy <;> decide
  unfold matchTaker
  dsimp only
  rw [if_pos ⟨hc, hl.live c hat.1, hside⟩]
  refine TakerWalked.matched (matchLevels_walked _ _ _ hl (fun hn => by cases hn) fun lp hlp => ?_)
  obtain rfl := Option.some.inj hlp
  refine ⟨?_, fun _ => hat, ?_, ?_⟩
  · rw [if_pos hc]
    exact h
  · exact (level_mem hl ((h.mem c).mp List.mem_cons_self).1).1
  · exact Finset.card_le_card (Finset.filter_subset _ _)

/-! ## The reference is fair -/

theorem settle_trades (now : ℕ) (f : Tally) (i : ℕ) (o : Terms) (a : List Trade) :
    settle k now { f with trades := a ++ f.trades } i o =
      { settle k now f i o with trades := a ++ (settle k now f i o).trades } := by
  unfold settle
  dsimp only
  split
  · rfl
  · split
    · rfl
    · simp
    · rfl
    · simp
    · split <;> simp

theorem serve_trades (a : List Trade) : ∀ (l : List ℕ) (f : Tally),
    serve k s l { f with trades := a ++ f.trades } =
      { serve k s l f with trades := a ++ (serve k s l f).trades }
  | [], _ => rfl
  | i :: l, f => by
    have hrest := serve_trades a l (settle k s.now f i (s.orders.get i).toTerms)
    unfold serve at hrest ⊢
    rw [List.foldl_cons, List.foldl_cons, settle_trades]
    exact hrest

theorem tradeable_mono {r r' n b b' x : ℕ} (hr : r' ≤ r) (hb : b' ≤ b) :
    tradeable r' n b' x ≤ tradeable r n b x := by
  have hdiv : b' / x ≤ b / x := Nat.div_le_div_right hb
  unfold tradeable
  dsimp only
  split_ifs <;> omega

/-- The figures of a taker only go down, and while something is left those of an all-or-none or a
SELL taker have not moved. -/
structure Shrinks (k : Taker) (f g : Tally) : Prop where
  remaining : g.remaining ≤ f.remaining
  leftover : g.leftover ≤ f.leftover
  whole : g.remaining ≠ 0 → k.flags &&& flagAon ≠ 0 ∨ k.isBuy = false →
    g.remaining = f.remaining ∧ g.leftover = f.leftover

theorem Shrinks.refl : Shrinks k f f := ⟨le_rfl, le_rfl, fun _ _ => ⟨rfl, rfl⟩⟩

theorem Shrinks.trans {g h : Tally} (hfg : Shrinks k f g) (hgh : Shrinks k g h) :
    Shrinks k f h := by
  refine ⟨hgh.remaining.trans hfg.remaining, hgh.leftover.trans hfg.leftover, fun hne hk => ?_⟩
  obtain ⟨h1, h2⟩ := hgh.whole hne hk
  obtain ⟨h3, h4⟩ := hfg.whole (h1 ▸ hne) hk
  exact ⟨h1.trans h3, h2.trans h4⟩

theorem verdict_fill {now n clearing r b : ℕ} {o : Terms}
    (h : verdict k now o r b = .fill n clearing) :
    isExpired o.deadline now = false ∧ clearing = (if k.isBuy then o.price else k.price) ∧
      aonMisfit k.flags o.flags n r o.amount = false ∧ 2 ≤ n := by
  unfold verdict at h
  dsimp only at h
  split at h
  · cases h
  split at h
  · cases h
  rename_i hexp
  generalize tradeable r o.amount _ _ = x at h
  by_cases hmis : aonMisfit k.flags o.flags x r o.amount = true
  · rw [if_pos hmis] at h
    cases h
  rw [if_neg hmis] at h
  by_cases hmin : x < 2
  · rw [if_pos hmin] at h
    split at h <;> cases h
  · rw [if_neg hmin] at h
    obtain ⟨rfl, rfl⟩ := Verdict.fill.inj h
    exact ⟨by simpa using hexp, rfl, by simpa using hmis, Nat.le_of_not_lt hmin⟩

theorem settle_shrinks (now : ℕ) (f : Tally) (i : ℕ) (o : Terms) :
    Shrinks k f (settle k now f i o) := by
  unfold settle
  split
  · exact .refl
  · cases hv : verdict k now o f.remaining f.leftover with
    | skip => exact .refl
    | drop => exact ⟨le_rfl, le_rfl, fun _ _ => ⟨rfl, rfl⟩⟩
    | stop => exact ⟨le_rfl, le_rfl, fun _ _ => ⟨rfl, rfl⟩⟩
    | dust => exact ⟨le_rfl, le_rfl, fun _ _ => ⟨rfl, rfl⟩⟩
    | fill n clearing =>
      dsimp only
      split
      · rename_i hk
        refine ⟨Nat.sub_le _ _, Nat.sub_le _ _, fun hne haon => ?_⟩
        have hflag := haon.resolve_right (by rw [hk]; decide)
        -- an all-or-none taker that is filled is filled whole
        have hfit : ¬ n < f.remaining := by
          intro hlt
          have hmis := (verdict_fill hv).2.2.1
          simp [aonMisfit, hflag, hlt] at hmis
        dsimp only at hne
        omega
      · exact ⟨Nat.zero_le _, le_rfl, fun hne => absurd rfl hne⟩

theorem serve_shrinks : ∀ (l : List ℕ) (f : Tally), Shrinks k f (serve k s l f)
  | [], _ => .refl
  | i :: l, f => by
    have hrest := serve_shrinks l (settle k s.now f i (s.orders.get i).toTerms)
    exact (settle_shrinks s.now f i _).trans hrest

/-- A maker skipped once stays unusable. -/
theorem skip_stays {now : ℕ} {o : Terms} {g : Tally} (h : Shrinks k f g) (hg : g.remaining ≠ 0)
    (hv : verdict k now o f.remaining f.leftover = .skip) :
    verdict k now o g.remaining g.leftover = .skip := by
  by_cases hwhole : k.flags &&& flagAon ≠ 0 ∨ k.isBuy = false
  · obtain ⟨h1, h2⟩ := h.whole hg hwhole
    rw [h1, h2]
    exact hv
  · obtain ⟨haon, hbuy⟩ := not_or.mp hwhole
    have hk : k.isBuy = true := by simpa using hbuy
    have hz : k.flags &&& flagAon = 0 := by simpa using haon
    unfold verdict at hv ⊢
    dsimp only at hv ⊢
    split
    · rfl
    rename_i hdeal
    rw [if_neg hdeal] at hv
    split
    · rename_i hexp
      rw [if_pos hexp] at hv
      cases hv
    rename_i hexp
    rw [if_neg hexp] at hv
    -- the offer was all-or-none, and the taker can take less of it now than then
    have hle := tradeable_mono (n := o.amount) (x := unit (if k.isBuy then o.price else k.price))
      h.remaining h.leftover
    simp only [hk, if_true] at hv hle ⊢
    generalize tradeable g.remaining o.amount g.leftover _ = n at hle ⊢
    generalize tradeable f.remaining o.amount f.leftover _ = n' at hv hle
    have hmis : aonMisfit k.flags o.flags n' f.remaining o.amount = true := by
      by_contra hno
      rw [if_neg hno] at hv
      split at hv <;> cases hv
    have hmis' : aonMisfit k.flags o.flags n g.remaining o.amount = true := by
      simp only [aonMisfit, hz, ne_eq, not_true_eq_false, false_and, decide_false, Bool.false_or,
        decide_eq_true_eq] at hmis ⊢
      exact ⟨hmis.1, by omega⟩
    rw [if_pos hmis']

/-- Past a maker that is still there when something is left to trade, it was skipped. -/
theorem settle_met {now : ℕ} {f : Tally} {i : ℕ} {o : Terms}
    (hgo : (settle k now f i o).halted = false) (hrem : (settle k now f i o).remaining ≠ 0) :
    verdict k now o f.remaining f.leftover = .skip ∧ settle k now f i o = f ∨
      ∃ cause, Trade.removal i cause ∈ (settle k now f i o).trades := by
  unfold settle at hgo hrem ⊢
  by_cases hsp : f.halted = true ∨ f.remaining = 0
  · rw [if_pos hsp] at hgo hrem
    rcases hsp with hover | hz
    · rw [hgo] at hover
      cases hover
    · exact absurd hz hrem
  rw [if_neg hsp] at hgo hrem ⊢
  cases hv : verdict k now o f.remaining f.leftover with
  | skip => exact .inl ⟨rfl, rfl⟩
  | drop => exact .inr ⟨.expired, by simp⟩
  | stop =>
    rw [hv] at hgo
    cases hgo
  | dust => exact .inr ⟨.dust, by simp⟩
  | fill n clearing =>
    rw [hv] at hrem
    dsimp only at hrem ⊢
    split at hrem
    · rename_i hk
      rw [if_pos hk]
      exact .inr ⟨.filled, by simp⟩
    · exact absurd rfl hrem

theorem serve_keeps {x : Trade} : ∀ {l : List ℕ} {f : Tally}, x ∈ f.trades →
    x ∈ (serve k s l f).trades
  | [], _, h => h
  | i :: l, f, h => by
    refine serve_keeps (l := l) (f := settle k s.now f i (s.orders.get i).toTerms) ?_
    unfold settle
    split
    · exact h
    · split
      · exact h
      · exact List.mem_append_left _ h
      · exact h
      · exact List.mem_append_left _ h
      · split <;> exact List.mem_append_left _ h

/-- The makers before the one a taker comes to: gone, or of no use to it as it stands. -/
theorem serve_passed : ∀ {l : List ℕ} {f : Tally}, (serve k s l f).halted = false →
    (serve k s l f).remaining ≠ 0 → ∀ j ∈ l,
      (∃ cause, Trade.removal j cause ∈ (serve k s l f).trades) ∨
      verdict k s.now (s.orders.get j).toTerms (serve k s l f).remaining
        (serve k s l f).leftover = .skip
  | [], _, _, _, _, hj => absurd hj List.not_mem_nil
  | i :: l, f, hgo, hrem, j, hj => by
    change (serve k s l (settle k s.now f i (s.orders.get i).toTerms)).halted = false at hgo
    change (serve k s l (settle k s.now f i (s.orders.get i).toTerms)).remaining ≠ 0 at hrem
    change (∃ cause, Trade.removal j cause ∈
      (serve k s l (settle k s.now f i (s.orders.get i).toTerms)).trades) ∨ verdict k s.now _
        (serve k s l (settle k s.now f i (s.orders.get i).toTerms)).remaining
        (serve k s l (settle k s.now f i (s.orders.get i).toTerms)).leftover = .skip
    rcases List.mem_cons.mp hj with rfl | hj
    · have hlive : (settle k s.now f j (s.orders.get j).toTerms).halted = false ∧
          (settle k s.now f j (s.orders.get j).toTerms).remaining ≠ 0 := by
        constructor
        · by_contra hover
          rw [serve_spent (.inl (by simpa using hover))] at hgo
          exact hover hgo
        · intro hz
          rw [serve_spent (.inr hz)] at hrem
          exact hrem hz
      rcases settle_met hlive.1 hlive.2 with ⟨hskip, heq⟩ | ⟨cause, hin⟩
      · rw [heq] at hrem ⊢
        exact .inr (skip_stays (serve_shrinks l f) hrem hskip)
      · exact .inl ⟨cause, serve_keeps hin⟩
    · exact serve_passed hgo hrem j hj

/-- Every fill of a taker with these figures: at a price both accept, with a maker still in time,
past makers that were gone or of no use. -/
def Fair (k : Taker) (s : Book) (l : List ℕ) (f : Tally) : Prop :=
  ∀ before i after n clearing, l = before ++ i :: after →
    (serve k s before f).halted = false → (serve k s before f).remaining ≠ 0 →
    verdict k s.now (s.orders.get i).toTerms (serve k s before f).remaining
      (serve k s before f).leftover = .fill n clearing →
    (if k.isBuy then k.isMarket = true ∨ clearing ≤ k.price else clearing = k.price) ∧
    (if k.isBuy then clearing = (s.orders.get i).price
      else k.isMarket = true ∨ clearing ≤ (s.orders.get i).price) ∧
    isExpired (s.orders.get i).deadline s.now = false ∧
    ∀ j ∈ before, (∃ cause, Trade.removal j cause ∈ (serve k s before f).trades) ∨
      verdict k s.now (s.orders.get j).toTerms (serve k s before f).remaining
        (serve k s before f).leftover = .skip

theorem serve_fair (h : PriceTime k s l) (f : Tally) : Fair k s l f := by
  intro before i after n clearing hl hgo hrem hv
  obtain ⟨hexp, hclear, -, -⟩ := verdict_fill hv
  have hi : i ∈ l := by
    rw [hl]
    simp
  have hcross := ((h.mem i).mp hi).1.2.2
  refine ⟨?_, ?_, hexp, fun j hj => serve_passed hgo hrem j hj⟩
  · cases hk : k.isBuy <;> cases hm : k.isMarket <;>
      simp [hk, hm, crosses] at hclear hcross ⊢ <;> omega
  · cases hk : k.isBuy <;> cases hm : k.isMarket <;>
      simp [hk, hm, crosses] at hclear hcross ⊢ <;> omega

/-- A taker gives up only when it is exhausted: fewer than two ticks wanted, or an escrow that pays
for fewer than two at the price it has come to. -/
def Exhausts (k : Taker) (s : Book) (l : List ℕ) (f : Tally) : Prop :=
  ∀ before i after, l = before ++ i :: after →
    verdict k s.now (s.orders.get i).toTerms (serve k s before f).remaining
      (serve k s before f).leftover = .stop →
    k.isBuy = true ∧ ((serve k s before f).remaining < 2 ∨
      (serve k s before f).leftover < 2 * unit (s.orders.get i).price)

theorem tradeable_small {r n budget x : ℕ} (hn : 2 ≤ n) (h : tradeable r n budget x < 2) :
    r < 2 ∨ budget < 2 * x := by
  unfold tradeable at h
  dsimp only at h
  by_cases hx : x > 0
  · rw [if_pos hx] at h
    by_cases hr : r < 2
    · exact .inl hr
    · right
      have hmin : ¬ (if r < n then r else n) < 2 := by
        split <;> omega
      have hdiv : budget / x < 2 := by
        by_contra hbig
        rw [not_lt] at hbig
        split_ifs at h hmin <;> omega
      exact (Nat.div_lt_iff_lt_mul hx).mp hdiv
  · rw [if_neg hx, if_neg (lt_irrefl _)] at h
    left
    split at h <;> omega

theorem verdict_stop {now r left : ℕ} {o : Terms} (h : verdict k now o r left = .stop) :
    k.isBuy = true ∧ tradeable r o.amount left (unit o.price) < 2 := by
  unfold verdict at h
  dsimp only at h
  cases hk : k.isBuy with
  | true =>
    simp only [hk, if_true] at h
    refine ⟨rfl, ?_⟩
    by_contra hbig
    split_ifs at h
  | false =>
    simp only [hk, Bool.false_eq_true, if_false] at h
    split_ifs at h

theorem serve_exhausts (h : PriceTime k s l) (hwide : ∀ id ∈ s.orders.keys,
    (s.orders.get id).isBuy = false → 2 ≤ (s.orders.get id).amount) (f : Tally) :
    Exhausts k s l f := by
  intro before i after hl hv
  obtain ⟨hk, hsmall⟩ := verdict_stop hv
  have hi : i ∈ l := by
    rw [hl]
    simp
  obtain ⟨hmem, hside, -⟩ := ((h.mem i).mp hi).1
  rw [hk] at hside
  exact ⟨hk, tradeable_small (hwide i hmem hside) hsmall⟩

end InferenceOrderBookGreedy
