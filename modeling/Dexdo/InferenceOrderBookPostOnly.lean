import Dexdo.InferenceOrderBookMessages
import Dexdo.InferenceOrderBookPlacements

/-! # Orders that only make

`_executableCrosses` is answered once, on the first run of a POST_ONLY placement. -/
namespace InferenceOrderBookPostOnly

open TokenContractState hiding Out Err Sent tally
open SolidityMapping InferenceOrderBookState InferenceOrderBookCalls
open InferenceOrderBookLists InferenceOrderBookMatching InferenceOrderBookStructure
open InferenceOrderBookPriority InferenceOrderBookGreedy InferenceOrderBookAtomic
open InferenceOrderBookContinuation InferenceOrderBookPlacements InferenceOrderBookMessages

variable {env : Env} {s t u : Book} {k : Taker} {p q : Progress} {e : QueueEntry} {tx : Tx}
variable {cur lp id amount now : ℕ} {l : List ℕ} {o : Terms}

/-! ## Makers that are passed over -/

/-- What makes the precheck pass a maker over, for a taker of `amount` ticks at the time `now`. -/
def Unfit (k : Taker) (amount now : ℕ) (o : Terms) : Prop :=
  dealCompatible k.isBuy k.flags o.flags = false ∨ isExpired o.deadline now = true ∨
  ((k.flags &&& flagAon ≠ 0 ∧ o.amount < amount) ∨ (o.flags &&& flagAon ≠ 0 ∧ amount < o.amount)) ∨
  o.amount < 2

theorem expired_later {deadline later : ℕ} (h : isExpired deadline now = true)
    (hle : now ≤ later) : isExpired deadline later = true := by
  unfold isExpired at *
  rw [decide_eq_true_eq] at *
  exact ⟨h.1, h.2.trans hle⟩

/-- The match, then or later, fills nothing with such a maker as long as the order is whole. -/
theorem Unfit.verdict {later left : ℕ} (h : Unfit k amount now o) (hle : now ≤ later)
    (n c : ℕ) : InferenceOrderBookGreedy.verdict k later o amount left ≠ .fill n c := by
  unfold InferenceOrderBookGreedy.verdict
  dsimp only
  generalize hunit : unit _ = price
  have htrade : tradeable amount o.amount (if k.isBuy = true then left else o.escrow) price ≤ amount ∧
      tradeable amount o.amount (if k.isBuy = true then left else o.escrow) price ≤ o.amount :=
    tradeable_le
  generalize tradeable amount o.amount (if k.isBuy = true then left else o.escrow) price = ticks
    at htrade
  intro hfill
  split at hfill
  · cases hfill
  rename_i hdeal
  split at hfill
  · cases hfill
  rename_i hexp
  split at hfill
  · cases hfill
  rename_i hmisfit
  rcases h with hno | hlapsed | hsize | hdust
  · exact hdeal (by rw [hno]; rfl)
  · exact hexp (expired_later hlapsed hle)
  · apply hmisfit
    unfold aonMisfit
    rw [Bool.or_eq_true, decide_eq_true_eq, decide_eq_true_eq]
    rcases hsize with ⟨hflag, hlt⟩ | ⟨hflag, hlt⟩
    · exact .inl ⟨hflag, by omega⟩
    · exact .inr ⟨hflag, by omega⟩
  · rw [if_pos (by omega)] at hfill
    split at hfill <;> cases hfill

/-! ## The precheck -/

theorem crossingOrders_succ (scans : ℕ) (hcur : cur ≠ 0) :
    crossingOrders s k.isBuy k.flags amount (scans + 1) cur =
      if scans = 0 then .inl true
      else if dealCompatible k.isBuy k.flags (s.orders.get cur).flags = false ∨
          isExpired (s.orders.get cur).deadline s.now = true ∨
          ((k.flags &&& flagAon ≠ 0 ∧ (s.orders.get cur).amount < amount) ∨
            ((s.orders.get cur).flags &&& flagAon ≠ 0 ∧ amount < (s.orders.get cur).amount)) ∨
          (s.orders.get cur).amount < 2 then
        crossingOrders s k.isBuy k.flags amount scans (s.orders.get cur).nextAtPrice
      else .inl true := by
  rw [crossingOrders, if_neg hcur]
  dsimp only
  by_cases hzero : scans = 0
  · rw [if_pos hzero, if_pos hzero]
  rw [if_neg hzero, if_neg hzero]
  cases hdeal : dealCompatible k.isBuy k.flags (s.orders.get cur).flags with
  | false => simp
  | true =>
    cases hexp : isExpired (s.orders.get cur).deadline s.now with
    | true => simp
    | false =>
      simp only [Bool.not_true, Bool.false_eq_true, if_false, false_or, reduceCtorEq]
      by_cases hsize : (k.flags &&& flagAon ≠ 0 ∧ (s.orders.get cur).amount < amount) ∨
          ((s.orders.get cur).flags &&& flagAon ≠ 0 ∧ amount < (s.orders.get cur).amount)
      · rw [if_pos hsize, if_pos (.inl hsize)]
      · rw [if_neg hsize]
        by_cases hdust : (s.orders.get cur).amount < 2
        · rw [if_pos hdust, if_pos (.inr hdust)]
        · rw [if_neg hdust, if_neg (not_or.mpr ⟨hsize, hdust⟩)]

/-- The walk along a level says that something crosses, or passed every maker over. -/
theorem crossingOrders_unfit (amount : ℕ) (hl : Linked s)
    (hc : crosses k.isBuy k.price k.isMarket lp = true) :
    ∀ (scans : ℕ) {cur : ℕ} {l : List ℕ}, (cur ≠ 0 → At k lp cur s) →
      Ahead k s (Beyond k lp cur s) l →
      match crossingOrders s k.isBuy k.flags amount scans cur with
      | .inl b => b = true
      | .inr _ => ∃ l', Ahead k s (Beyond k lp 0 s) l' ∧
          ∀ i ∈ l, i ∈ l' ∨ Unfit k amount s.now (s.orders.get i).toTerms := by
  intro scans
  induction scans with
  | zero =>
    intro cur l hat h
    by_cases hcur : cur = 0
    · subst hcur
      rw [crossingOrders, if_pos rfl]
      exact ⟨l, h, fun i hi => .inl hi⟩
    · rw [crossingOrders, if_neg hcur]
  | succ scans ih =>
    intro cur l hat h
    by_cases hcur : cur = 0
    · subst hcur
      rw [crossingOrders, if_pos rfl]
      exact ⟨l, h, fun i hi => .inl hi⟩
    rw [crossingOrders_succ scans hcur]
    by_cases hzero : scans = 0
    · rw [if_pos hzero]
    rw [if_neg hzero]
    split_ifs with hunfit
    · obtain ⟨l', rfl⟩ := h.head (hat hcur) hcur hc
      have hnext : (s.orders.get cur).nextAtPrice ≠ 0 →
          At k lp (s.orders.get cur).nextAtPrice s := fun hn => (hat hcur).next hl (.refl hl) hn
      have hpass := h.pass hl (hat hcur) (.refl hl) (.inr rfl)
      have hrest := ih hnext hpass
      generalize crossingOrders s k.isBuy k.flags amount scans _ = r at hrest ⊢
      cases r with
      | inl b => exact hrest
      | inr scans' =>
        obtain ⟨l'', hahead, hall⟩ := hrest
        refine ⟨l'', hahead, fun i hi => ?_⟩
        rcases List.mem_cons.mp hi with rfl | hi
        · exact .inr hunfit
        · exact hall i hi
    · rfl

/-- A no of the walk that stands at a level: each maker is passed over there or by what follows. -/
theorem crossingLevels_level {walks scans : ℕ} (hl : Linked s) (hm : k.isMarket = false)
    (h : Ahead k s (Beyond k lp (s.level (!k.isBuy) lp).firstOrderId s) l)
    (hno : crossingLevels s k.isBuy k.price k.flags amount walks scans (some lp) = false) :
    ∀ i ∈ l, Unfit k amount s.now (s.orders.get i).toTerms ∨
      ∃ walks' scans' l', walks = walks' + 1 ∧ i ∈ l' ∧ Ahead k s (Beyond k lp 0 s) l' ∧
        crossingLevels s k.isBuy k.price k.flags amount walks' scans' (nextOpposite k.isBuy lp s) =
          false := by
  intro i hi
  rw [crossingLevels] at hno
  have hlimit : crosses k.isBuy k.price k.isMarket lp = crosses k.isBuy k.price false lp := by
    rw [hm]
  by_cases hcross : crosses k.isBuy k.price false lp = false
  · rw [h.uncrossed (hlimit.trans hcross)] at hi
    cases hi
  rw [if_neg hcross] at hno
  have hwalk := crossingOrders_unfit amount hl
    (hlimit.trans ((Bool.not_eq_false _).mp hcross)) scans (fun hne => .first hl hne) h
  generalize crossingOrders s k.isBuy k.flags amount scans _ = r at hwalk hno
  cases r with
  | inl b =>
    rw [show b = true from hwalk] at hno
    cases hno
  | inr scans' =>
    obtain ⟨l', hahead, hall⟩ := hwalk
    rcases hall i hi with hi | hunfit
    · cases walks with
      | zero => cases hno
      | succ walks =>
        dsimp only at hno
        split at hno
        · cases hno
        · exact .inr ⟨walks, scans', l', rfl, hi, hahead, hno⟩
    · exact .inl hunfit

/-- The walk over levels answers no only when it has passed every maker over. -/
theorem crossingLevels_unfit (hl : Linked s) (hm : k.isMarket = false) :
    ∀ (walks scans : ℕ) {o : Option ℕ} {l : List ℕ}, (o = none → l = []) →
      (∀ lp, o = some lp → Ahead k s (Beyond k lp (s.level (!k.isBuy) lp).firstOrderId s) l) →
      crossingLevels s k.isBuy k.price k.flags amount walks scans o = false →
      ∀ i ∈ l, Unfit k amount s.now (s.orders.get i).toTerms := by
  intro walks
  induction walks with
  | zero =>
    intro scans o l hnone hsome hno i hi
    cases o with
    | none =>
      rw [hnone rfl] at hi
      cases hi
    | some lp =>
      rcases crossingLevels_level hl hm (hsome lp rfl) hno i hi with hunfit | ⟨_, _, _, hz, -⟩
      · exact hunfit
      · cases hz
  | succ walks ih =>
    intro scans o l hnone hsome hno i hi
    cases o with
    | none =>
      rw [hnone rfl] at hi
      cases hi
    | some lp =>
      rcases crossingLevels_level hl hm (hsome lp rfl) hno i hi with
        hunfit | ⟨_, scans', l', hz, hi', hahead, hno'⟩
      · exact hunfit
      · cases hz
        exact ih scans' (fun hn => hahead.last hl hn) (fun lq hn => hahead.next hl hn) hno' i hi'

theorem executableCrosses_unfit (hl : Linked s) (hm : k.isMarket = false)
    (hno : executableCrosses k.isBuy k.price k.flags amount s = false) :
    ∀ i, Resting k s i → Unfit k amount s.now (s.orders.get i).toTerms := by
  obtain ⟨l, h⟩ := exists_priceTime k s
  intro i hr
  exact crossingLevels_unfit hl hm maxPrecheckLevels maxPrecheckScan (fun hn => h.empty hl hn)
    (fun lp hb => h.best hl hb) hno i ((h.mem i).mpr ⟨hr, trivial⟩)

/-! ## The match -/

def Barren (k : Taker) (amount now : ℕ) (s : Book) : Prop :=
  ∀ i, Resting k s i → Unfit k amount now (s.orders.get i).toTerms

theorem Barren.congr (h : Barren k amount now s) (horders : t.orders = s.orders) :
    Barren k amount now t := by
  intro i hr
  unfold Resting at hr
  rw [horders] at hr ⊢
  exact h i hr

/-- Nothing but removals of expired orders and dust was announced since the trades `l`. -/
def OnlyRemovals (l : List Trade) (s : Book) : Prop :=
  ∃ new, trades s = l ++ new ∧ ∀ x ∈ new, ∃ i cause, x = .removal i cause

theorem OnlyRemovals.congr {before : List Trade} (h : OnlyRemovals before s)
    (htrades : trades t = trades s) : OnlyRemovals before t := by
  obtain ⟨new, hnew, hall⟩ := h
  exact ⟨new, htrades.trans hnew, hall⟩

theorem OnlyRemovals.removal {before : List Trade} {i : ℕ} {cause : Removed}
    (h : OnlyRemovals before s) (htrades : trades t = trades s ++ [Trade.removal i cause]) :
    OnlyRemovals before t := by
  obtain ⟨new, hnew, hall⟩ := h
  refine ⟨new ++ [Trade.removal i cause], ?_, fun x hx => ?_⟩
  · rw [htrades, hnew, List.append_assoc]
  · rcases List.mem_append.mp hx with hx | hx
    · exact hall x hx
    · exact ⟨i, cause, List.mem_singleton.mp hx⟩

/-- A match that finds nothing. -/
structure Idle (k : Taker) (amount escrow now : ℕ) (before : List Trade) (p : Progress) : Prop where
  linked : Linked p.book
  remaining : p.remaining = amount
  leftover : p.leftoverEscrow = escrow
  clock : now ≤ p.book.now
  barren : Barren k amount now p.book
  trades : OnlyRemovals before p.book

/-- One maker passed over. -/
theorem Idle.step {escrow : ℕ} {before : List Trade} (h : Idle k amount escrow now before p)
    (hc : crosses k.isBuy k.price k.isMarket lp = true) (hat : At k lp cur p.book)
    (hrem : p.remaining ≠ 0) : Idle k amount escrow now before (matchMaker k lp cur p).1 := by
  obtain ⟨htally, hpass⟩ := matchMaker_settles h.linked hat hrem
  have hone := matchMaker_one k lp h.linked hat.1
  have hunfit := h.barren cur (at_resting hat hc)
  have hno : ∀ n c, InferenceOrderBookGreedy.verdict k p.book.now (p.book.orders.get cur).toTerms
      p.remaining p.leftoverEscrow ≠ .fill n c := by
    rw [h.remaining]
    exact hunfit.verdict h.clock
  have hgo : ¬ ((tally p false).halted = true ∨ (tally p false).remaining = 0) := by
    simpa [tally] using hrem
  unfold settle at htally
  rw [if_neg hgo] at htally
  dsimp only [tally] at htally
  generalize matchMaker k lp cur p = r at htally hpass hone ⊢
  -- whatever the verdict, the figures stay and at most one removal is announced
  have hfigures : r.1.remaining = p.remaining ∧ r.1.leftoverEscrow = p.leftoverEscrow ∧
      (InferenceOrderBookGreedy.trades r.1.book = InferenceOrderBookGreedy.trades p.book ∨
        ∃ cause, InferenceOrderBookGreedy.trades r.1.book =
          InferenceOrderBookGreedy.trades p.book ++ [Trade.removal cur cause]) := by
    cases hv : InferenceOrderBookGreedy.verdict k p.book.now (p.book.orders.get cur).toTerms
        p.remaining p.leftoverEscrow with
    | skip =>
      rw [hv] at htally
      obtain ⟨h1, h2, -, h4⟩ := Tally.mk.inj htally
      exact ⟨h1, h2, .inl h4⟩
    | drop =>
      rw [hv] at htally
      obtain ⟨h1, h2, -, h4⟩ := Tally.mk.inj htally
      exact ⟨h1, h2, .inr ⟨_, h4⟩⟩
    | stop =>
      rw [hv] at htally
      obtain ⟨h1, h2, -, h4⟩ := Tally.mk.inj htally
      exact ⟨h1, h2, .inl h4⟩
    | dust =>
      rw [hv] at htally
      obtain ⟨h1, h2, -, h4⟩ := Tally.mk.inj htally
      exact ⟨h1, h2, .inr ⟨_, h4⟩⟩
    | fill n c => exact absurd hv (hno n c)
  obtain ⟨h1, h2, h3⟩ := hfigures
  refine ⟨hone.linked, h1.trans h.remaining, h2.trans h.leftover, hone.now ▸ h.clock,
    fun i hr => ?_, ?_⟩
  · by_cases hi : i = cur
    · subst hi
      rcases hpass (h1.trans_ne hrem) with hgone | hsame
      · exact absurd hr.1 hgone
      · rw [hsame]
        exact hunfit
    · have hr' := (resting_iff hone hi).mp hr
      rw [(hone.others i hr'.1 hi).2]
      exact h.barren i hr'
  · rcases h3 with h3 | ⟨cause, h3⟩
    · exact h.trades.congr h3
    · exact h.trades.removal h3

theorem matchTaker_idle {escrow resume : ℕ} {before : List Trade} (hl : Linked s)
    (hclock : now ≤ s.now) (hb : Barren k amount now s) (ht : OnlyRemovals before s) :
    Idle k amount escrow now before (matchTaker k amount escrow resume s).1 :=
  (matchTaker_rule (I := Idle k amount escrow now before) (fun _ h => h.linked)
    (fun _ _ _ hc h hat hrem => h.step hc hat hrem) ⟨hl, rfl, rfl, hclock, hb, ht⟩).1

/-! ## The entry -/

/-- The order as it rests when nothing of it was filled. -/
def wholeOrder (e : QueueEntry) (ts : ℕ) : Terms :=
  { note := e.owner, buyerPubkey := if e.isBuy then e.buyerPubkey else 0
    tokenContract := if e.isBuy then 0 else e.tokenContract, price := e.price, amount := e.amount
    initialAmount := e.amount, escrow := if e.isBuy then e.escrow else 0, deadline := e.deadline
    clientOrderId := e.clientOrderId, ts := ts, flags := e.flags, isBuy := e.isBuy
    tag := if e.isBuy then e.tag else 0 }

def paused (id : ℕ) (e : QueueEntry) (c : ℕ) : QueueEntry :=
  { e with
    contOrderId := id, contRemaining := e.amount, contLeftover := e.escrow, contScanOrder := c }

theorem trades_insertIntoBook {o : Order} : trades (insertIntoBook id o s) = trades s := by
  rw [insertIntoBook_eq]
  unfold trades
  simp [tradeOf]

/-- A POST_ONLY placement ends by resting whole. -/
theorem finalizeTaker_whole (hl : Linked s) (hid : id ≠ 0) (hfresh : ∀ j ∈ s.orders.keys, j < id)
    (he : PlacedEntry e) (hpost : e.flags &&& flagPostOnly ≠ 0) :
    id ∈ (finalizeTaker id e e.amount e.escrow s).orders.keys ∧
    ((finalizeTaker id e e.amount e.escrow s).orders.get id).toTerms =
      wholeOrder e (finalizeTaker id e e.amount e.escrow s).now ∧
    trades (finalizeTaker id e e.amount e.escrow s) = trades s := by
  have hticks := he.ticks
  have hmaker : ¬ (e.flags &&& flagMarket ≠ 0 ∨ e.flags &&& (flagIoc ||| flagFok) ≠ 0) := by
    rintro (h | h)
    · exact h (he.maker_flag hpost (by decide))
    · exact h (he.maker_flag hpost (by decide))
  have hinsert : ∀ (o : Order), o.amount ≠ 0 →
      id ∈ (insertIntoBook id o (s.check (e.amount ≤ e.amount))).orders.keys ∧
      ((insertIntoBook id o (s.check (e.amount ≤ e.amount))).orders.get id).toTerms = o.toTerms ∧
      trades (insertIntoBook id o (s.check (e.amount ≤ e.amount))) = trades s := by
    intro o ho
    have hin := insertIntoBook_insertion (o := o) (check_quiet.linked hl) hid
      (s := s.check (e.amount ≤ e.amount)) hfresh ho
    refine ⟨?_, hin.added, trades_insertIntoBook⟩
    rw [hin.keys]
    exact Finset.mem_insert_self ..
  unfold finalizeTaker
  dsimp only
  cases hb : e.isBuy with
  | true =>
    rw [if_pos rfl, if_neg (not_or.mpr ⟨by omega, hmaker⟩)]
    have ho : e.amount ≠ 0 := by omega
    refine ⟨(hinsert _ ho).1, (hinsert _ ho).2.1.trans ?_, (hinsert _ ho).2.2⟩
    unfold wholeOrder
    rw [hb, Nat.sub_self]
    rfl
  | false =>
    rw [if_neg (by decide), if_pos ⟨by omega, hmaker⟩]
    have ho : e.amount ≠ 0 := by omega
    refine ⟨(hinsert _ ho).1, (hinsert _ ho).2.1.trans ?_, (hinsert _ ho).2.2⟩
    unfold wholeOrder
    rw [hb, Nat.sub_self]
    rfl

/-! ## Runs of the entry -/

/-- A POST_ONLY placement at the head, on its first run and in time. -/
structure PostOnly (u : Book) (e : QueueEntry) : Prop where
  size : u.queueSize ≠ 0
  entry : u.queue.get u.queueHead = e
  kind : e.entryType = .place
  first : e.contOrderId = 0
  timely : e.deadline = 0 ∨ u.now < e.deadline
  flag : e.flags &&& flagPostOnly ≠ 0

/-- The book after the first run of the head of `u`, and after any transactions that follow at
that block time or later while the entry is still there. -/
inductive Later (env : Env) (u : Book) : Book → Prop where
  | first : Later env u (processHeadCore u)
  | next {s t : Book} {tx : Tx} : Later env u s → s.queueHead = u.queueHead → u.now ≤ tx.msg.now →
      exec env tx s = .ok t → Later env u t

/-- The entry at the head, with nothing taken. -/
structure Standing (u : Book) (e : QueueEntry) (s : Book) : Prop where
  sound : Sound s
  size : s.queueSize ≠ 0
  entry : ∃ c, s.queue.get s.queueHead = paused u.nextOrderId e c
  barren : Barren (takerOf u.nextOrderId e) e.amount u.now s
  trades : OnlyRemovals (trades u) s
  sends : Sends u s

def Rested (u : Book) (e : QueueEntry) (t : Book) : Prop :=
  u.nextOrderId ∈ t.orders.keys ∧
    (t.orders.get u.nextOrderId).toTerms = wholeOrder e t.now

/-- The last thing sent is the answer to the note with all that a bid brought, but for the call
of the queue to itself. -/
def SentBack (u : Book) (e : QueueEntry) (reason : PlaceRej) (t : Book) : Prop :=
  ∃ new, t.out = u.out ++ new ++ ⟨e.tag, .onInferenceRejected e.owner t.modelHash e.clientOrderId
    reason (if e.isBuy then e.escrow else 0)⟩ ::
      if t.queueSize > 0 then [⟨0, .processHead⟩] else []

def Dropped (u : Book) (e : QueueEntry) (t : Book) : Prop :=
  (e.deadline ≠ 0 ∧ e.deadline ≤ t.now) ∧ u.nextOrderId ∉ t.orders.keys ∧
    SentBack u e .expired t

structure Gone (u : Book) (e : QueueEntry) (s t : Book) : Prop where
  head : t.queueHead ≠ s.queueHead
  trades : OnlyRemovals (trades u) t
  outcome : Rested u e t ∨ Dropped u e t

theorem Standing.congr (h : Standing u e s) (hsound : Sound t) (hsize : t.queueSize ≠ 0)
    (horders : t.orders = s.orders)
    (hentry : t.queue.get t.queueHead = s.queue.get s.queueHead)
    (htrades : InferenceOrderBookGreedy.trades t = InferenceOrderBookGreedy.trades s)
    (hsends : Sends s t) : Standing u e t := by
  obtain ⟨c, hc⟩ := h.entry
  exact ⟨hsound, hsize, ⟨c, hentry.trans hc⟩, h.barren.congr horders, h.trades.congr htrades,
    h.sends.trans hsends⟩

theorem followed_facts (v : Book) :
    let t := if (advanceHead v).queueSize > 0 then (advanceHead v).send .processHead
      else advanceHead v
    t.queueHead = (v.queueHead + 1) % queueCapacity ∧ t.orders = v.orders ∧ t.now = v.now ∧
      t.modelHash = v.modelHash ∧ InferenceOrderBookGreedy.trades t =
        InferenceOrderBookGreedy.trades v ∧
      t.out = v.out ++ if t.queueSize > 0 then [⟨0, .processHead⟩] else [] := by
  dsimp only
  have hsend : ∀ o : Out, ((advanceHead v).send o).queueSize = (advanceHead v).queueSize :=
    fun _ => rfl
  split
  · rename_i hsize
    rw [hsend, if_pos hsize]
    exact ⟨rfl, rfl, rfl, rfl, trades_send.trans (List.append_nil _), rfl⟩
  · exact ⟨rfl, rfl, rfl, rfl, rfl, (List.append_nil _).symm⟩

theorem next_slot {j : ℕ} : (j + 1) % queueCapacity ≠ j := by
  unfold queueCapacity
  omega

/-- One run of the match on a book where nothing is of use. -/
theorem runPlace_standing {w : Book} {resume : ℕ} (hw : Sound w) (hsize : w.queueSize ≠ 0)
    (hclock : u.now ≤ w.now) (hfresh : ∀ j ∈ w.orders.keys, j < u.nextOrderId) (hid : u.nextOrderId ≠ 0)
    (he : PlacedEntry e) (hpost : e.flags &&& flagPostOnly ≠ 0)
    (hb : Barren (takerOf u.nextOrderId e) e.amount u.now w)
    (ht : OnlyRemovals (trades u) w) (hsends : Sends u w) (hne : s.queueSize ≠ 0)
    (hhead : w.queueHead = s.queueHead)
    (hrun : runHead s = runPlace u.nextOrderId e.amount e.escrow resume e w)
    (hsound : Sound (processHeadCore s)) :
    (processHeadCore s).queueHead = s.queueHead ∧ Standing u e (processHeadCore s) ∨
      Gone u e s (processHeadCore s) := by
  have heq := processHeadCore_run hne hrun
  have hidle : Idle (takerOf u.nextOrderId e) e.amount e.escrow u.now
      (InferenceOrderBookGreedy.trades u)
      (matchTaker (takerOf u.nextOrderId e) e.amount e.escrow resume w).1 :=
    matchTaker_idle hw.linked hclock hb ht
  have htrim := matchTaker_trimmed (takerOf u.nextOrderId e) e.amount e.escrow resume hw.linked
  have hsent := Sends.matchTaker (takerOf u.nextOrderId e) e.amount e.escrow resume hsends
  unfold runPlace at heq
  generalize matchTaker (takerOf u.nextOrderId e) e.amount e.escrow resume w = r at *
  obtain ⟨p, c⟩ := r
  cases c with
  | some c =>
    left
    have hpos : p.book.queueSize > 0 := by
      rw [show p.book.queueSize = w.queueSize from htrim.queueSize]
      omega
    dsimp only at heq
    rw [if_pos rfl, if_pos hpos, hidle.remaining, hidle.leftover] at heq
    rw [heq] at hsound ⊢
    refine ⟨htrim.queueHead.trans hhead, hsound, hpos.ne', ⟨c, Mapping.get_set⟩,
      hidle.barren.congr rfl, hidle.trades.congr ?_, (hsent.write rfl).send trivial⟩
    exact trades_send.trans (List.append_nil _)
  | none =>
    right
    obtain ⟨hmem, hterms, htrades⟩ := finalizeTaker_whole hidle.linked hid
      (fun j hj => hfresh j (htrim.keys hj)) he hpost
    dsimp only at heq
    rw [if_neg Bool.false_ne_true, hidle.remaining, hidle.leftover] at heq
    obtain ⟨h1, h2, h3, -, h5, -⟩ := followed_facts
      (finalizeTaker u.nextOrderId e e.amount e.escrow p.book)
    rw [heq]
    refine ⟨?_, hidle.trades.congr (h5.trans htrades), .inl ⟨?_, ?_⟩⟩
    · rw [h1, (InferenceOrderBookMoves.finalizeTaker_queue ..).2,
        show p.book.queueHead = s.queueHead from htrim.queueHead.trans hhead]
      exact next_slot
    · rw [h2]
      exact hmem
    · rw [h2, h3]
      exact hterms

/-! ## Turns -/

theorem sentBack_of {v : Book} {reason : PlaceRej} (hs : Sends u s)
    (hv : ∃ new, v.out = s.out ++ new ++ [⟨e.tag, .onInferenceRejected e.owner v.modelHash
      e.clientOrderId reason (if e.isBuy then e.escrow else 0)⟩]) :
    SentBack u e reason (if (advanceHead v).queueSize > 0 then (advanceHead v).send .processHead
      else advanceHead v) := by
  obtain ⟨-, -, -, h4, -, h6⟩ := followed_facts v
  obtain ⟨before, hbefore, -⟩ := hs
  obtain ⟨new, hnew⟩ := hv
  refine ⟨before ++ new, ?_⟩
  rw [h6, h4, hnew, hbefore]
  simp only [List.append_assoc, List.cons_append, List.nil_append]

theorem dropLapsed_paused {id c : ℕ} (hid : id ≠ 0) :
    ∃ new, (dropLapsed (paused id e c) s).out = s.out ++ new ++ [⟨e.tag,
      .onInferenceRejected e.owner (dropLapsed (paused id e c) s).modelHash e.clientOrderId .expired
        (if e.isBuy then e.escrow else 0)⟩] := by
  unfold dropLapsed paused rejectToNote freeDeal
  dsimp only
  rw [if_neg hid, if_neg hid]
  cases e.isBuy with
  | true => exact ⟨[_], rfl⟩
  | false =>
    by_cases htc : e.tokenContract = 0
    · simp only [htc, ne_eq, not_true_eq_false, if_false, Bool.false_eq_true]
      exact ⟨[_], rfl⟩
    · simp only [htc, ne_eq, not_false_eq_true, if_true, if_false, Bool.false_eq_true]
      exact ⟨[⟨0, .onSellClosed e.tokenContract⟩, ⟨0, .inferenceRefunded id e.owner 0⟩],
        by simp [Book.send, Book.sendFor]⟩

theorem trades_dropLapsed : InferenceOrderBookGreedy.trades (dropLapsed e s) =
    InferenceOrderBookGreedy.trades s := by
  have hsilent : ∀ {v : Book} {n : ℕ} {o : Out}, tradeOf o = none →
      InferenceOrderBookGreedy.trades (v.sendFor n o) = InferenceOrderBookGreedy.trades v := by
    intro v n o ho
    rw [trades_sendFor, ho]
    exact List.append_nil _
  unfold dropLapsed rejectToNote
  dsimp only
  rw [hsilent rfl]
  split_ifs <;> rw [show ∀ (v : Book) (o : Out), v.send o = v.sendFor 0 o from fun _ _ => rfl,
    hsilent rfl]
  · exact trades_freeDeal
  · exact trades_freeDeal

/-- The entry run once more, at any time from its first run on. -/
theorem Standing.step (h : Standing u e s) (hclock : u.now ≤ s.now) (hid : u.nextOrderId ≠ 0)
    (hkind : e.entryType = .place) (he : PlacedEntry e) (hpost : e.flags &&& flagPostOnly ≠ 0) :
    (processHeadCore s).queueHead = s.queueHead ∧ Standing u e (processHeadCore s) ∨
      Gone u e s (processHeadCore s) := by
  obtain ⟨c, hc⟩ := h.entry
  have hsound := processHeadCore_sound h.sound
  obtain ⟨-, -, hfresh⟩ := h.sound.cont s.queueHead (by rw [hc]; exact hid)
  rw [hc] at hfresh
  have hplace : runHead s = doPlaceHead s := runHead_place (by rw [hc]; exact hkind)
  by_cases hlapsed : e.deadline ≠ 0 ∧ e.deadline ≤ s.now
  · right
    have hrun : runHead s = (dropLapsed (paused u.nextOrderId e c) s, false) := by
      rw [hplace]
      unfold doPlaceHead
      rw [hc]
      exact if_pos hlapsed
    have heq := processHeadCore_run h.size hrun
    dsimp only at heq
    rw [if_neg Bool.false_ne_true] at heq
    have hq : Quiet s (dropLapsed (paused u.nextOrderId e c) s) := dropLapsed_quiet
    have hsent := sentBack_of h.sends (dropLapsed_paused (e := e) (s := s) (c := c) hid)
    have htrades := trades_dropLapsed (e := paused u.nextOrderId e c) (s := s)
    generalize dropLapsed (paused u.nextOrderId e c) s = v at heq hq hsent htrades
    obtain ⟨h1, h2, h3, -, h5, -⟩ := followed_facts v
    have hhead : v.queueHead = s.queueHead := by rw [hq]
    have hnow : v.now = s.now := by rw [hq]
    rw [heq]
    refine ⟨?_, h.trades.congr (h5.trans htrades), .inr ⟨⟨hlapsed.1, ?_⟩, ?_, hsent⟩⟩
    · rw [h1, hhead]
      exact next_slot
    · rw [h3, hnow]
      exact hlapsed.2
    · rw [h2, hq.orders]
      exact fun hmem => lt_irrefl _ (hfresh _ hmem)
  · have hrun : runHead s = runPlace u.nextOrderId e.amount e.escrow c
        (paused u.nextOrderId e c) s := by
      rw [hplace]
      unfold doPlaceHead
      rw [hc]
      exact (if_neg hlapsed).trans (if_neg hid)
    exact runPlace_standing h.sound h.size hclock hfresh hid he hpost h.barren h.trades h.sends
      h.size rfl hrun hsound

/-- The first run of an order that the precheck lets through. -/
theorem PostOnly.step (h : PostOnly u e) (hs : Sound u) (he : PlacedEntry e)
    (hno : executableCrosses e.isBuy e.price e.flags e.amount u = false) :
    (processHeadCore u).queueHead = u.queueHead ∧ Standing u e (processHeadCore u) ∨
      Gone u e u (processHeadCore u) := by
  have hmarket : (takerOf u.nextOrderId e).isMarket = false := by
    simp [takerOf, he.maker_flag h.flag (f := flagMarket) (by decide)]
  have hbarren : Barren (takerOf u.nextOrderId e) e.amount u.now u :=
    executableCrosses_unfit hs.linked hmarket hno
  have hrun : runHead u = runPlace u.nextOrderId e.amount e.escrow 0 e (announced u e) := by
    have htime := h.timely
    rw [runHead_place (by rw [h.entry]; exact h.kind)]
    unfold doPlaceHead
    rw [h.entry]
    dsimp only
    rw [if_neg (by omega), if_pos h.first, if_neg, if_neg]
    · rfl
    · rw [he.maker_flag h.flag (by decide)]
      exact fun hfok => hfok.1 rfl
    · rw [hno]
      exact fun hcross => Bool.false_ne_true hcross.2
  have htrades : InferenceOrderBookGreedy.trades (announced u e) =
      InferenceOrderBookGreedy.trades u := trades_send.trans (List.append_nil _)
  have hnothing : OnlyRemovals (InferenceOrderBookGreedy.trades u) u :=
    ⟨[], (List.append_nil _).symm, fun x hx => absurd hx List.not_mem_nil⟩
  have hsent : Sends u (announced u e) := ((Sends.refl u).write rfl).send trivial
  have hw : Sound (announced u e) := InferenceOrderBookEscrow.numbered_sound hs
  have hb : Barren (takerOf u.nextOrderId e) e.amount u.now (announced u e) := hbarren.congr rfl
  exact runPlace_standing hw h.size (Nat.le_refl u.now) hs.ids hs.next_ne he h.flag hb
    (hnothing.congr htrades) hsent h.size rfl hrun (processHeadCore_sound hs)

/-- Whatever another transaction hands to the head or does beside it. -/
theorem Standing.transact (h : Standing u e s) (hnow : u.now ≤ tx.msg.now)
    (hid : u.nextOrderId ≠ 0) (hkind : e.entryType = .place) (he : PlacedEntry e)
    (hpost : e.flags &&& flagPostOnly ≠ 0) (hok : exec env tx s = .ok t) :
    t.queueHead = s.queueHead ∧ Standing u e t ∨ Gone u e s t := by
  rcases exec_hands hok with ⟨v, hv, rfl⟩ | ⟨hq, htrades⟩
  · have hsound := hv.sound h.sound
    have hstand : Standing u e v ∧ v.queueHead = s.queueHead ∧ v.now = tx.msg.now := by
      cases hv with
      | stored =>
        exact ⟨h.congr hsound h.size rfl rfl rfl ((Sends.refl s).write rfl), rfl, rfl⟩
      | queued e' bids hsize hcont =>
        have htail : s.queueHead ≠ s.queueTail := fun heq =>
          h.sound.window.tail_notMem hsize (heq ▸ h.sound.window.head_mem h.size)
        exact ⟨h.congr hsound (Nat.succ_ne_zero _) rfl (Mapping.get_set_ne htail) rfl
          ((Sends.refl s).write rfl), rfl, rfl⟩
    obtain ⟨hstand, hhead, hclock⟩ := hstand
    rcases hstand.step (hclock ▸ hnow) hid hkind he hpost with ⟨h1, h2⟩ | hgone
    · exact .inl ⟨h1.trans hhead, h2⟩
    · exact .inr { hgone with head := hhead ▸ hgone.head }
  · left
    have hframe : t.queueSize = s.queueSize ∧ t.orders = s.orders ∧ t.queue = s.queue ∧
        t.queueHead = s.queueHead := by
      rw [hq]
      exact ⟨rfl, rfl, rfl, rfl⟩
    obtain ⟨h1, h2, h3, h4⟩ := hframe
    have hsound : Sound t := perform_sound h.sound (exec_perform hok).1
    have hsends : Sends s t :=
      ((Sends.refl s).write rfl).trans (dispatch_sends (s := enter tx.msg s) (exec_perform hok).1)
    refine ⟨h4, h.congr hsound (h1.trans_ne h.size) h2 ?_ htrades hsends⟩
    rw [h3, h4]

theorem later_standing (hs : Sound u) (h : PostOnly u e) (he : PlacedEntry e)
    (hno : executableCrosses e.isBuy e.price e.flags e.amount u = false) (hl : Later env u t) :
    t.queueHead = u.queueHead ∧ Standing u e t ∨
      OnlyRemovals (InferenceOrderBookGreedy.trades u) t ∧ t.queueHead ≠ u.queueHead ∧
        (Rested u e t ∨ Dropped u e t) := by
  induction hl with
  | first =>
    rcases h.step hs he hno with hstand | hgone
    · exact .inl hstand
    · exact .inr ⟨hgone.trades, hgone.head, hgone.outcome⟩
  | next _ hhead hnow hok ih =>
    rcases ih with ⟨-, hstand⟩ | ⟨-, hmoved, -⟩
    · rcases hstand.transact hnow hs.next_ne h.kind he h.flag hok with ⟨h1, h2⟩ | hgone
      · exact .inl ⟨h1.trans hhead, h2⟩
      · exact .inr ⟨hgone.trades, hhead ▸ hgone.head, hgone.outcome⟩
    · exact absurd hhead hmoved

/-! ## Orders that cross -/

/-- What a refusal sends last. -/
theorem refusePlacement_out : ∃ new,
    (refusePlacement .postOnly e s).out = s.out ++ new ++ [⟨e.tag, .onInferenceRejected e.owner
      (refusePlacement .postOnly e s).modelHash e.clientOrderId .postOnly
      (if e.isBuy then e.escrow else 0)⟩] ∧
    InferenceOrderBookGreedy.trades (refusePlacement .postOnly e s) =
      InferenceOrderBookGreedy.trades s := by
  have hback : (if e.isBuy = true ∧ e.escrow > 0 then e.escrow else 0) =
      if e.isBuy = true then e.escrow else 0 := by
    by_cases hb : e.isBuy = true
    · simp only [hb, true_and, if_true]
      split <;> omega
    · simp only [hb]
      rfl
  unfold refusePlacement rejectToNote freeDeal
  dsimp only
  rw [hback]
  cases e.isBuy with
  | true =>
    refine ⟨[⟨0, .inferenceOrderRejected .postOnly e.owner e.tokenContract e.escrow⟩], rfl, ?_⟩
    simp [trades_sendFor, trades_send, tradeOf]
  | false =>
    by_cases htc : e.tokenContract = 0
    · simp only [htc, ne_eq, not_true_eq_false, if_false, Bool.false_eq_true]
      refine ⟨[⟨0, .inferenceOrderRejected .postOnly e.owner 0 0⟩], rfl, ?_⟩
      simp [trades_sendFor, trades_send, tradeOf]
    · simp only [htc, ne_eq, not_false_eq_true, if_true, if_false, Bool.false_eq_true]
      refine ⟨[⟨0, .onSellClosed e.tokenContract⟩,
        ⟨0, .inferenceOrderRejected .postOnly e.owner e.tokenContract 0⟩], ?_, ?_⟩
      · simp [Book.send, Book.sendFor]
      · simp [trades_sendFor, trades_send, tradeOf]

/-- A POST_ONLY order that would cross is refused on its first run: nothing is touched and its
escrow goes back. -/
theorem PostOnly.refused (h : PostOnly u e)
    (hyes : executableCrosses e.isBuy e.price e.flags e.amount u = true) :
    (processHeadCore u).orders = u.orders ∧
    InferenceOrderBookGreedy.trades (processHeadCore u) = InferenceOrderBookGreedy.trades u ∧
    SentBack u e .postOnly (processHeadCore u) := by
  have hrun : runHead u = (refusePlacement .postOnly e u, false) := by
    have htime := h.timely
    rw [runHead_place (by rw [h.entry]; exact h.kind)]
    unfold doPlaceHead
    rw [h.entry]
    dsimp only
    rw [if_neg (by omega), if_pos h.first, if_pos ⟨h.flag, hyes⟩]
  have heq := processHeadCore_run h.size hrun
  dsimp only at heq
  rw [if_neg Bool.false_ne_true] at heq
  obtain ⟨new, hout, htrades⟩ := refusePlacement_out (e := e) (s := u)
  have hsent := sentBack_of (Sends.refl u) ⟨new, hout⟩
  have hq : Quiet u (refusePlacement .postOnly e u) := refusePlacement_quiet
  obtain ⟨-, h2, -, -, h5, -⟩ := followed_facts (refusePlacement .postOnly e u)
  rw [heq]
  exact ⟨h2.trans hq.orders, h5.trans htrades, hsent⟩

/-- A POST_ONLY order takes nothing. One that the precheck turns away is sent back; from one that
it lets through no run of the entry, at that block time or any later, settles a fill, and once it
has left it rests whole or went back on its deadline. -/
theorem post_only_takes_nothing (env : Env) (s u : Book) (tx : Tx) (e : QueueEntry)
    (hs : Reachable env s) (hu : Turn env s tx u) (h : PostOnly u e) :
    (executableCrosses e.isBuy e.price e.flags e.amount u = true →
      (processHeadCore u).orders = u.orders ∧
      InferenceOrderBookGreedy.trades (processHeadCore u) = InferenceOrderBookGreedy.trades u ∧
      SentBack u e .postOnly (processHeadCore u)) ∧
    (executableCrosses e.isBuy e.price e.flags e.amount u = false → ∀ t, Later env u t →
      OnlyRemovals (InferenceOrderBookGreedy.trades u) t ∧
      (t.queueHead ≠ u.queueHead → Rested u e t ∨ Dropped u e t)) := by
  have hsound : Sound u := (hu.kept (reachable_sound hs) (reachable_funded hs)).1
  have hplaced := turn_placed hs hu h.entry h.kind
  refine ⟨fun hyes => h.refused hyes, fun hno t hl => ?_⟩
  rcases later_standing hsound h hplaced hno hl with ⟨hhead, hstand⟩ | ⟨htrades, -, hleft⟩
  · exact ⟨hstand.trades, fun hne => absurd hhead hne⟩
  · exact ⟨htrades, fun _ => hleft⟩

def samplePost (tag : ℕ) : QueueEntry :=
  { entryType := .place, owner := 1003, isBuy := true, flags := flagPostOnly, price := 3 * priceStep
    amount := 4, escrow := 100 * priceStep, clientOrderId := 7, tag := tag }

/-- It passes over a cheaper offer of five ticks that is sold whole or not at all. -/
theorem post_only_passes_over : ∃ s u, Reachable sampleEnv s ∧ s.orderCount = 1 ∧
    Turn sampleEnv s (sampleBuy 3 4 flagPostOnly 100 40) u ∧ PostOnly u (samplePost 1) ∧
    OnlyRemovals (InferenceOrderBookGreedy.trades u) (processHeadCore u) ∧
    (Rested u (samplePost 1) (processHeadCore u) ∨ Dropped u (samplePost 1) (processHeadCore u)) := by
  have hplay : (playedBook [sampleSell 1 2 5 flagAon 20]).any (fun s =>
      decide (s.orderCount = 1) && decide (s.bids = 0) && decide (s.queueSize = 0) &&
        decide (s.queueHead = s.queueTail) &&
        (perform sampleEnv (sampleBuy 3 4 flagPostOnly 100 40) s).toBool &&
        !executableCrosses true (3 * priceStep) flagPostOnly 4 (enqueue (samplePost (s.bids + 1))
          { enter (sampleBuy 3 4 flagPostOnly 100 40).msg s with bids := s.bids + 1 }) &&
        decide ((processHeadCore (enqueue (samplePost (s.bids + 1))
          { enter (sampleBuy 3 4 flagPostOnly 100 40).msg s with bids := s.bids + 1 })).queueHead ≠
            s.queueHead)) = true := by
    decide +kernel
  obtain ⟨s, hs, hp⟩ := playedBook_reachable hplay
  simp only [Bool.and_eq_true, decide_eq_true_eq] at hp
  obtain ⟨⟨⟨⟨⟨⟨hcount, hbids⟩, hsize⟩, hhead⟩, hperform⟩, hno⟩, hmoved⟩ := hp
  cases hok : perform sampleEnv (sampleBuy 3 4 flagPostOnly 100 40) s with
  | error _ =>
    rw [hok] at hperform
    cases hperform
  | ok t =>
    have hu : Turn sampleEnv s (sampleBuy 3 4 flagPostOnly 100 40)
        (enqueue (samplePost (s.bids + 1))
          { enter (sampleBuy 3 4 flagPostOnly 100 40).msg s with bids := s.bids + 1 }) :=
      .bid _ _ _ _ _ _ _ _ _ t hok
    have he : PostOnly (enqueue (samplePost (s.bids + 1))
        { enter (sampleBuy 3 4 flagPostOnly 100 40).msg s with bids := s.bids + 1 })
        (samplePost 1) := by
      refine ⟨Nat.succ_ne_zero _, ?_, rfl, rfl, .inl rfl, by decide⟩
      change (s.queue.set s.queueTail (samplePost (s.bids + 1))).get s.queueHead = samplePost 1
      rw [hhead, Mapping.get_set, hbids]
    obtain ⟨-, hnothing⟩ := post_only_takes_nothing sampleEnv s _ _ _ hs hu he
    obtain ⟨htrades, hleft⟩ := hnothing ((Bool.not_eq_true' _).mp hno) _ .first
    exact ⟨s, _, hs, hcount, hu, he, htrades, hleft hmoved⟩

end InferenceOrderBookPostOnly
