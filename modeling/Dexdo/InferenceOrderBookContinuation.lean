import Dexdo.InferenceOrderBookGreedy
import Dexdo.InferenceOrderBookOffers

/-! # A match over several transactions

An entry whose match runs into the budget of a call stays at the head of the queue with its
figures and a cursor. Whatever transactions follow at that block time, the next ones to run the
head go on from the cursor on the makers the earlier ones left, until the entry leaves with the
figures of the reference. -/
namespace InferenceOrderBookContinuation

open TokenContractState hiding Out Err Sent
open SolidityMapping CircularWindow InferenceOrderBookState InferenceOrderBookCalls
open InferenceOrderBookLists InferenceOrderBookMatching InferenceOrderBookStructure
open InferenceOrderBookEscrow InferenceOrderBookPriority InferenceOrderBookGreedy

/-! ## Turns of the head -/

/-- The books a transaction may hand to `_processHeadCore`: as stored, or with the entry it
submits at the tail. -/
inductive Hands (tx : Tx) (s : Book) : Book → Prop where
  | stored : Hands tx s (enter tx.msg s)
  | queued (e : QueueEntry) (bids : ℕ) : s.queueSize < queueCapacity → e.contOrderId = 0 →
      Hands tx s (enqueue e { enter tx.msg s with bids := bids })

/-- Committed transactions of one block time from the turn of the head of `u` until it leaves. -/
inductive Drain (env : Env) (now : ℕ) (u : Book) : Book → Prop where
  | turn {s tx} : Reachable env s → Hands tx s u → tx.msg.now = now →
      exec env tx s = .ok (processHeadCore u) → Drain env now u (processHeadCore u)
  | later {s t tx} : Drain env now u s → s.queueHead = u.queueHead → tx.msg.now = now →
      exec env tx s = .ok t → Drain env now u t

/-- A placement at the head, not run before, that the prechecks let through. -/
structure Admitted (u : Book) (e : QueueEntry) : Prop where
  size : u.queueSize ≠ 0
  entry : u.queue.get u.queueHead = e
  kind : e.entryType = .place
  first : e.contOrderId = 0
  timely : e.deadline = 0 ∨ u.now < e.deadline
  postOnly : e.flags &&& flagPostOnly ≠ 0 →
    executableCrosses e.isBuy e.price e.flags e.amount u = false
  fok : e.flags &&& flagFok ≠ 0 → fokFullyFillable e.isBuy e.price
    (decide (e.flags &&& flagMarket ≠ 0)) e.amount e.escrow e.flags u = true

/-- The book a placement is matched on: its number is taken and announced. -/
def announced (u : Book) (e : QueueEntry) : Book :=
  ({ u.check (u.nextOrderId + 1 < u128) with nextOrderId := u.nextOrderId + 1 }).send
    (.inferenceOrderPlaced u.nextOrderId e.isBuy e.price e.amount e.owner e.tokenContract e.deadline
      e.flags)

def reference (u : Book) (e : QueueEntry) (l : List ℕ) : Tally :=
  serve (takerOf u.nextOrderId e) u l ⟨e.amount, e.escrow, false, []⟩

/-- The entry left with the figures `f`: its rest was finalized on a book `b` that had announced
exactly the trades of `f`, and the head moved on. -/
def Left (u : Book) (e : QueueEntry) (f : Tally) (t : Book) : Prop :=
  ∃ b v, trades b = trades u ++ f.trades ∧
    v = advanceHead (finalizeTaker u.nextOrderId e f.remaining f.leftover b) ∧
    t = if v.queueSize > 0 then v.send .processHead else v

variable {env : Env} {s t u : Book} {e : QueueEntry} {tx : Tx} {id n : ℕ} {l : List ℕ} {f : Tally}

/-! ## The entry that waits -/

/-- The cursor of an entry at the head, and what is left to do from there. -/
structure Waiting (id : ℕ) (e : QueueEntry) (f : Tally) (n : ℕ) (s : Book) (r left c : ℕ)
    (l : List ℕ) : Prop where
  entry : s.queue.get s.queueHead = { e with
    contOrderId := id, contRemaining := r, contLeftover := left, contScanOrder := c }
  ahead : Ahead (takerOf id e) s (Beyond (takerOf id e) (s.orders.get c).price c s) (c :: l)
  present : At (takerOf id e) (s.orders.get c).price c s
  cursor : c ≠ 0
  rest : serve (takerOf id e) s (c :: l) ⟨r, left, false, trades s⟩ = f
  short : l.length + 1 ≤ n

structure Pending (id : ℕ) (e : QueueEntry) (f : Tally) (now n : ℕ) (s : Book) : Prop where
  sound : Sound s
  size : s.queueSize ≠ 0
  clock : s.now = now
  waits : ∃ r left c l, Waiting id e f n s r left c l

/-- A match on the makers `l` ends the entry with the reference, or leaves it waiting. -/
theorem runPlace_waits {amount escrow resume : ℕ} (hs : Sound s)
    (hmatch : Matched (takerOf id e) { book := s, remaining := amount, leftoverEscrow := escrow } l
      (matchTaker (takerOf id e) amount escrow resume s))
    (hf : serve (takerOf id e) s l ⟨amount, escrow, false, trades s⟩ = f) :
    ((runPlace id amount escrow resume e s).2 = true ∧
      ∃ r left c l', Waiting id e f (l.length - 1) (runPlace id amount escrow resume e s).1 r left c
        l') ∨
    ((runPlace id amount escrow resume e s).2 = false ∧ ∃ b, trades b = f.trades ∧
      b.queueHead = s.queueHead ∧
      (runPlace id amount escrow resume e s).1 = finalizeTaker id e f.remaining f.leftover b) := by
  have ht := matchTaker_trimmed (takerOf id e) amount escrow resume hs.linked
  unfold runPlace
  generalize matchTaker (takerOf id e) amount escrow resume s = r at hmatch ht ⊢
  obtain ⟨p, c⟩ := r
  cases c with
  | none =>
    right
    obtain ⟨b, hb⟩ := hmatch
    have heq : tally p b = f := hb.trans hf
    refine ⟨rfl, p.book, ?_, ht.queueHead, ?_⟩
    · rw [← heq]
      rfl
    · rw [← heq]
      rfl
  | some c =>
    left
    obtain ⟨l', hp, hlen⟩ := hmatch
    refine ⟨rfl, p.remaining, p.leftoverEscrow, c, l', ?_⟩
    have hrest : serve (takerOf id e) p.book (c :: l') (tally p false) = f :=
      hp.walked.rest.trans hf
    refine ⟨Mapping.get_set, { hp.ahead with }, hp.present, hp.cursor, hrest, ?_⟩
    unfold maxMatchesPerCall at hlen
    omega

theorem Waiting.congr {r left c : ℕ} (h : Waiting id e f n s r left c l)
    (horders : t.orders = s.orders) (hentry : t.queue.get t.queueHead = s.queue.get s.queueHead)
    (hnow : t.now = s.now) (htrades : trades t = trades s) : Waiting id e f n t r left c l := by
  refine ⟨hentry.trans h.entry, ⟨?_, fun i => ?_⟩, ?_, h.cursor, ?_, h.short⟩
  · have hsorted := h.ahead.sorted
    unfold Before at hsorted ⊢
    rw [horders]
    exact hsorted
  · have hmem := h.ahead.mem i
    unfold Resting Beyond at hmem ⊢
    rw [horders]
    exact hmem
  · have hat := h.present
    unfold At at hat ⊢
    rw [horders]
    exact hat
  · rw [← h.rest, htrades]
    exact serve_congr hnow fun i _ => by rw [horders]

theorem Pending.congr {now : ℕ} (h : Pending id e f now n s) (hsound : Sound t)
    (hsize : t.queueSize ≠ 0) (horders : t.orders = s.orders)
    (hentry : t.queue.get t.queueHead = s.queue.get s.queueHead) (hnow : t.now = now)
    (htrades : trades t = trades s) : Pending id e f now n t := by
  obtain ⟨r, left, c, l, hw⟩ := h.waits
  exact ⟨hsound, hsize, hnow, r, left, c, l,
    hw.congr horders hentry (hnow.trans h.clock.symm) htrades⟩

theorem processHeadCore_run (hsize : s.queueSize ≠ 0) {r : Book × Bool} (hr : runHead s = r) :
    processHeadCore s =
      let v := if r.2 then r.1 else advanceHead r.1
      if v.queueSize > 0 then v.send .processHead else v := by
  unfold processHeadCore
  rw [if_neg hsize, hr]

theorem runHead_place (hkind : (s.queue.get s.queueHead).entryType = .place) :
    runHead s = doPlaceHead s := by
  unfold runHead
  dsimp only
  rw [hkind]

/-- The entry is gone with the figures `f`. -/
def Finished (id : ℕ) (e : QueueEntry) (f : Tally) (s t : Book) : Prop :=
  ∃ b v, trades b = f.trades ∧ v = advanceHead (finalizeTaker id e f.remaining f.leftover b) ∧
    b.queueHead = s.queueHead ∧ t = if v.queueSize > 0 then v.send .processHead else v

/-- One run of the head. -/
theorem runPlace_step {amount escrow resume now : ℕ} {w : Book} (hs : Sound w)
    (hsize : w.queueSize ≠ 0) (hclock : w.now = now)
    (hmatch : Matched (takerOf id e) { book := w, remaining := amount, leftoverEscrow := escrow } l
      (matchTaker (takerOf id e) amount escrow resume w))
    (hf : serve (takerOf id e) w l ⟨amount, escrow, false, trades w⟩ = f)
    (hhead : w.queueHead = s.queueHead) (hne : s.queueSize ≠ 0)
    (hrun : runHead s = runPlace id amount escrow resume e w)
    (hsound : Sound (processHeadCore s)) :
    (processHeadCore s).queueHead = s.queueHead ∧
        Pending id e f now (l.length - 1) (processHeadCore s) ∨
      Finished id e f s (processHeadCore s) := by
  have heq := processHeadCore_run hne hrun
  have ht := matchTaker_trimmed (takerOf id e) amount escrow resume hs.linked
  have hkept : (runPlace id amount escrow resume e w).2 = true →
      (runPlace id amount escrow resume e w).1.queueHead = w.queueHead ∧
      (runPlace id amount escrow resume e w).1.queueSize = w.queueSize ∧
      (runPlace id amount escrow resume e w).1.now = w.now := by
    unfold runPlace
    generalize matchTaker _ _ _ _ _ = r at ht ⊢
    obtain ⟨p, c⟩ := r
    cases c with
    | none =>
      intro h
      cases h
    | some c => exact fun _ => ⟨ht.queueHead, ht.queueSize, ht.now⟩
  rcases runPlace_waits hs hmatch hf with ⟨hkeep, r, left, c, l', hw⟩ | ⟨hdrop, b, hb⟩
  · left
    obtain ⟨h1, h2, h3⟩ := hkept hkeep
    generalize runPlace id amount escrow resume e w = x at *
    have hpos : x.1.queueSize > 0 := by omega
    rw [if_pos hkeep] at heq
    dsimp only at heq
    rw [if_pos hpos] at heq
    rw [heq] at hsound ⊢
    refine ⟨h1.trans hhead, hsound, hpos.ne', h3.trans hclock, r, left, c, l', ?_⟩
    refine hw.congr rfl rfl rfl ?_
    exact trades_send.trans (List.append_nil _)
  · right
    obtain ⟨htrades, hbhead, hfin⟩ := hb
    refine ⟨b, _, htrades, rfl, hbhead.trans hhead, ?_⟩
    rw [heq, hdrop, hfin]
    rfl

/-- A waiting entry run again. -/
theorem Pending.step {now : ℕ} (h : Pending id e f now n s) (hid : id ≠ 0)
    (hkind : e.entryType = .place) (htime : e.deadline = 0 ∨ now < e.deadline) :
    (processHeadCore s).queueHead = s.queueHead ∧ n ≠ 0 ∧
        Pending id e f now (n - 1) (processHeadCore s) ∨
      Finished id e f s (processHeadCore s) := by
  obtain ⟨r, left, c, l, hw⟩ := h.waits
  have hmatch := matchTaker_resumed h.sound.linked hw.ahead hw.present hw.cursor r left
  have hrun : runHead s = runPlace id r left c { e with
      contOrderId := id, contRemaining := r, contLeftover := left, contScanOrder := c } s := by
    rw [runHead_place (by rw [hw.entry]; exact hkind)]
    unfold doPlaceHead
    rw [hw.entry]
    dsimp only
    rw [if_neg (by rw [h.clock]; omega), if_neg hid]
  have hstep := runPlace_step h.sound h.size h.clock hmatch hw.rest rfl h.size hrun
    (processHeadCore_sound h.sound)
  have hshort := hw.short
  rcases hstep with ⟨hhead, hpend⟩ | hfin
  · refine .inl ⟨hhead, by omega, hpend.sound, hpend.size, hpend.clock, ?_⟩
    obtain ⟨r', left', c', l', hw'⟩ := hpend.waits
    have hshort' := hw'.short
    rw [List.length_cons] at hshort'
    exact ⟨r', left', c', l', { hw' with short := by omega }⟩
  · exact .inr hfin

theorem Admitted.run (h : Admitted u e) :
    runHead u = runPlace u.nextOrderId e.amount e.escrow 0 e (announced u e) := by
  rw [runHead_place (by rw [h.entry]; exact h.kind)]
  unfold doPlaceHead
  rw [h.entry]
  dsimp only
  have htime := h.timely
  rw [if_neg (by omega), if_pos h.first, if_neg, if_neg]
  · rfl
  · rintro ⟨hflag, hno⟩
    exact hno (h.fok hflag)
  · rintro ⟨hflag, hcross⟩
    rw [h.postOnly hflag] at hcross
    cases hcross

theorem announced_reference (hl : PriceTime (takerOf u.nextOrderId e) u l) :
    PriceTime (takerOf u.nextOrderId e) (announced u e) l ∧
      serve (takerOf u.nextOrderId e) (announced u e) l
          ⟨e.amount, e.escrow, false, trades (announced u e)⟩ =
        { reference u e l with trades := trades u ++ (reference u e l).trades } := by
  have htrades : trades (announced u e) = trades u := trades_send.trans (List.append_nil _)
  refine ⟨{ hl with }, ?_⟩
  rw [htrades]
  have hshift := serve_trades (k := takerOf u.nextOrderId e) (s := u) (trades u) l
    ⟨e.amount, e.escrow, false, []⟩
  rw [List.append_nil] at hshift
  exact hshift

theorem Admitted.step (h : Admitted u e) (hs : Sound u)
    (hl : PriceTime (takerOf u.nextOrderId e) u l) :
    (processHeadCore u).queueHead = u.queueHead ∧
        Pending u.nextOrderId e { reference u e l with trades := trades u ++ (reference u e l).trades }
          u.now (l.length - 1) (processHeadCore u) ∨
      Finished u.nextOrderId e
        { reference u e l with trades := trades u ++ (reference u e l).trades } u
        (processHeadCore u) := by
  have hw : Sound (announced u e) := numbered_sound hs
  obtain ⟨hahead, hf⟩ := announced_reference hl
  have hmatch := matchTaker_first hw.linked hahead e.amount e.escrow
  exact runPlace_step hw h.size rfl hmatch hf rfl h.size h.run (processHeadCore_sound hs)

/-! ## Transactions -/

theorem Hands.sound (hs : Sound s) (h : Hands tx s u) : Sound u := by
  have hin : ∀ bids : ℕ, Sound { enter tx.msg s with bids := bids } := fun bids =>
    ⟨{ hs.linked with }, hs.window, hs.next_ne, hs.ids, hs.cont⟩
  cases h with
  | stored => exact hin s.bids
  | queued e bids hsize hcont => exact enqueue_sound (hin bids) hsize hcont

/-- Every committed transaction runs the head or leaves the lists, the queue and the trades. -/
theorem exec_hands (h : exec env tx s = .ok t) :
    (∃ u, Hands tx s u ∧ t = processHeadCore u) ∨
      Quiet (enter tx.msg s) t ∧ trades t = trades s := by
  have hsilent : ∀ {o : InferenceOrderBookState.Out}, tradeOf o = none →
      trades ((enter tx.msg s).send o) = trades s := by
    intro o ho
    rw [trades_send, ho]
    exact List.append_nil _
  have hlimit : ∀ {n}, n < queuePlaceLimit → n < queueCapacity := fun hn =>
    hn.trans (by decide)
  obtain ⟨hd, -⟩ := exec_perform h
  unfold perform at hd
  obtain ⟨m, c⟩ := tx
  dsimp only at hd
  cases c with
  | placeSellOffer p n f k i o d =>
    simp only [dispatch, placeSellOffer, require_bind_ok] at hd
    obtain ⟨-, hd⟩ := hd
    split at hd
    · cases hd
      exact .inr ⟨rfl, hsilent rfl⟩
    · rename_i hgood
      cases hd
      exact .inl ⟨_, .queued _ s.bids (hlimit (not_le.mp (not_or.mp hgood).2)) rfl, rfl⟩
  | placeBuyOrder c e p n f d k i =>
    simp only [dispatch, placeBuyOrder, require_bind_ok] at hd
    obtain ⟨-, -, -, -, -, -, -, -, -, -, -, -, -, hsize, hd⟩ := hd
    cases hd
    exact .inl ⟨_, .queued _ (s.bids + 1) (hlimit hsize) rfl, rfl⟩
  | cancelOrder id =>
    cases hd
    unfold cancelOrder
    split
    · exact .inr ⟨rfl, hsilent rfl⟩
    · rename_i hsize
      exact .inl ⟨_, .queued _ s.bids (not_le.mp hsize) rfl, rfl⟩
  | cancelAllOrders =>
    cases hd
    unfold cancelAllOrders
    split
    · exact .inr ⟨rfl, hsilent rfl⟩
    · rename_i hsize
      exact .inl ⟨_, .queued _ s.bids (not_le.mp hsize) rfl, rfl⟩
  | expireOrder id =>
    simp only [dispatch, expireOrder, require_bind_ok] at hd
    obtain ⟨hsize, hd⟩ := hd
    cases hd
    exact .inl ⟨_, .queued _ s.bids (hlimit hsize) rfl, rfl⟩
  | processHead =>
    cases hd
    exact .inl ⟨_, .stored, rfl⟩
  | onHandoverAccepted =>
    cases hd
    exact .inr ⟨rfl, rfl⟩
  | onBounce paid =>
    cases hd
    right
    have hdone : Quiet (enter m s) { enter m s with
        handoverBuyer := Function.update s.handoverBuyer m.sender 0 } := rfl
    unfold onBounce
    dsimp only
    split
    · exact ⟨hdone.trans payShell_quiet, trades_payShell⟩
    · exact ⟨hdone, rfl⟩

theorem Pending.hands {now : ℕ} (h : Pending id e f now n s) (hnow : tx.msg.now = now)
    (hv : Hands tx s u) : Pending id e f now n u ∧ u.queueHead = s.queueHead := by
  have hsound := hv.sound h.sound
  cases hv with
  | stored => exact ⟨h.congr hsound h.size rfl rfl hnow rfl, rfl⟩
  | queued e' bids hsize hcont =>
    have htail : s.queueHead ≠ s.queueTail := fun heq =>
      h.sound.window.tail_notMem hsize (heq ▸ h.sound.window.head_mem h.size)
    exact ⟨h.congr hsound (Nat.succ_ne_zero _) rfl (Mapping.get_set_ne htail) hnow rfl, rfl⟩

theorem Pending.quiet {now : ℕ} (h : Pending id e f now n s) (hnow : tx.msg.now = now)
    (hq : Quiet (enter tx.msg s) t) (htrades : trades t = trades s) :
    Pending id e f now n t ∧ t.queueHead = s.queueHead := by
  have hin := (h.hands hnow .stored).1
  have hsound := hin.sound.quiet hq
  have hframe : t.queueSize = s.queueSize ∧ t.orders = s.orders ∧ t.queue = s.queue ∧
      t.queueHead = s.queueHead ∧ t.now = tx.msg.now := by
    rw [hq]
    exact ⟨rfl, rfl, rfl, rfl, rfl⟩
  obtain ⟨h1, h2, h3, h4, h5⟩ := hframe
  refine ⟨h.congr hsound (h1.trans_ne h.size) h2 ?_ (h5.trans hnow) htrades, h4⟩
  rw [h3, h4]

theorem Finished.moved (h : Finished id e f s t) : t.queueHead ≠ s.queueHead := by
  obtain ⟨b, v, -, rfl, hhead, rfl⟩ := h
  have hstep : ∀ w : Book, w.queueHead = (s.queueHead + 1) % queueCapacity →
      w.queueHead ≠ s.queueHead := by
    intro w hw heq
    unfold queueCapacity at hw
    omega
  have hv : (advanceHead (finalizeTaker id e f.remaining f.leftover b)).queueHead =
      (s.queueHead + 1) % queueCapacity := by
    change ((finalizeTaker id e f.remaining f.leftover b).queueHead + 1) % queueCapacity = _
    rw [(InferenceOrderBookMoves.finalizeTaker_queue ..).2, hhead]
  split
  · exact hstep _ hv
  · exact hstep _ hv

theorem Finished.left {g : Tally} (h : Finished u.nextOrderId e { g with
    trades := trades u ++ g.trades } s t) : Left u e g t := by
  obtain ⟨b, v, htrades, hv, -, ht⟩ := h
  exact ⟨b, v, htrades, hv, ht⟩

/-- Every transaction while the entry is at the head goes on with the reference. -/
theorem drain_follows {g : Tally} (hid : u.nextOrderId ≠ 0) (hadm : Admitted u e)
    (hstep : (processHeadCore u).queueHead = u.queueHead ∧
        Pending u.nextOrderId e g u.now n (processHeadCore u) ∨
      Finished u.nextOrderId e g u (processHeadCore u)) (hd : Drain env u.now u t) :
    (∃ m, t.queueHead = u.queueHead ∧ Pending u.nextOrderId e g u.now m t) ∨
      ∃ v, v.queueHead = u.queueHead ∧ Finished u.nextOrderId e g v t := by
  induction hd with
  | turn _ _ _ _ =>
    rcases hstep with ⟨hhead, hpend⟩ | hfin
    · exact .inl ⟨n, hhead, hpend⟩
    · exact .inr ⟨u, rfl, hfin⟩
  | later _ hhead hnow hok ih =>
    rcases ih with ⟨m, -, hpend⟩ | ⟨v, hv, hfin⟩
    · rcases exec_hands hok with ⟨v, hv, rfl⟩ | ⟨hq, htrades⟩
      · obtain ⟨hpv, hhv⟩ := hpend.hands hnow hv
        rcases hpv.step hid hadm.kind hadm.timely with ⟨h1, -, h2⟩ | hfin
        · exact .inl ⟨m - 1, h1.trans (hhv.trans hhead), h2⟩
        · exact .inr ⟨v, hhv.trans hhead, hfin⟩
      · obtain ⟨hpt, hht⟩ := hpend.quiet hnow hq htrades
        exact .inl ⟨m, hht.trans hhead, hpt⟩
    · exact absurd (hhead.trans hv.symm) hfin.moved

theorem Pending.drained {now : ℕ} (hid : id ≠ 0) (hkind : e.entryType = .place)
    (htime : e.deadline = 0 ∨ now < e.deadline) : ∀ {n : ℕ} {s : Book},
    Pending id e f now n s → ∃ m ≤ n, ∃ v, Finished id e f v (processHeadCore^[m + 1] s) := by
  intro n
  induction n with
  | zero =>
    intro s h
    rcases h.step hid hkind htime with ⟨-, hn, -⟩ | hfin
    · exact absurd rfl hn
    · exact ⟨0, le_rfl, s, hfin⟩
  | succ n ih =>
    intro s h
    rcases h.step hid hkind htime with ⟨-, -, hpend⟩ | hfin
    · obtain ⟨m, hm, v, hv⟩ := ih hpend
      exact ⟨m + 1, Nat.succ_le_succ hm, v, hv⟩
    · exact ⟨0, Nat.zero_le _, s, hfin⟩

theorem Pending.trades_begin {now : ℕ} (h : Pending id e f now n s) :
    ∃ rest, trades s ++ rest = f.trades := by
  obtain ⟨r, left, c, l, hw⟩ := h.waits
  have hshift := serve_trades (k := takerOf id e) (s := s) (trades s) (c :: l) ⟨r, left, false, []⟩
  rw [List.append_nil] at hshift
  refine ⟨(serve (takerOf id e) s (c :: l) ⟨r, left, false, []⟩).trades, ?_⟩
  rw [← hw.rest, hshift]

/-- A capped match, over any number of calls and whatever else happens at that block time, is the
match of the reference, which is fair and stops only at an exhausted taker. -/
theorem capped_match_by_price_time (env : Env) (s u : Book) (tx : Tx) (e : QueueEntry)
    (hs : Reachable env s) (hu : Hands tx s u) (hadm : Admitted u e) :
    ∃ l, PriceTime (takerOf u.nextOrderId e) u l ∧
      (∀ t, Drain env u.now u t →
        (t.queueHead = u.queueHead →
          ∃ rest, trades t ++ rest = trades u ++ (reference u e l).trades) ∧
        (t.queueHead ≠ u.queueHead → Left u e (reference u e l) t)) ∧
      (∃ n ≤ l.length, Left u e (reference u e l) (processHeadCore^[n + 1] u)) ∧
      Fair (takerOf u.nextOrderId e) u l ⟨e.amount, e.escrow, false, []⟩ ∧
      Exhausts (takerOf u.nextOrderId e) u l ⟨e.amount, e.escrow, false, []⟩ := by
  have hsound := hu.sound (reachable_sound hs)
  have hwide : ∀ id ∈ u.orders.keys, (u.orders.get id).isBuy = false →
      2 ≤ (u.orders.get id).amount := by
    have hwide := InferenceOrderBookOffers.reachable_wide hs
    cases hu with
    | stored => exact hwide
    | queued _ _ _ _ => exact hwide
  obtain ⟨l, hl⟩ := exists_priceTime (takerOf u.nextOrderId e) u
  have hstep := hadm.step hsound hl
  have hid := hsound.next_ne
  refine ⟨l, hl, fun t hd => ?_, ?_, serve_fair hl _, serve_exhausts hl hwide _⟩
  · rcases drain_follows hid hadm hstep hd with ⟨m, hhead, hpend⟩ | ⟨v, hv, hfin⟩
    · exact ⟨fun _ => hpend.trades_begin, fun hne => absurd hhead hne⟩
    · exact ⟨fun heq => absurd (heq.trans hv.symm) hfin.moved, fun _ => hfin.left⟩
  · rcases hstep with ⟨-, hpend⟩ | hfin
    · obtain ⟨m, hm, v, hv⟩ := hpend.drained hid hadm.kind hadm.timely
      obtain ⟨r, left, c, l', hw⟩ := hpend.waits
      have hshort := hw.short
      exact ⟨m + 1, by omega, hv.left⟩
    · exact ⟨0, Nat.zero_le _, hfin.left⟩

def sampleBid : QueueEntry :=
  { entryType := .place, owner := 1003, isBuy := true, price := 3 * priceStep, amount := 5
    escrow := 100 * priceStep, clientOrderId := 7, tag := 1 }

theorem two_offers_by_price_time : ∃ s u l, Reachable sampleEnv s ∧ s.orderCount = 2 ∧
    Hands (sampleBuy 3 5 0 100 40) s u ∧ Admitted u sampleBid ∧
    PriceTime (takerOf u.nextOrderId sampleBid) u l ∧
    ∃ n ≤ l.length, Left u sampleBid (reference u sampleBid l) (processHeadCore^[n + 1] u) := by
  have hplay : (playedBook [sampleSell 1 3 4 0 20, sampleSell 2 2 4 0 30]).any (fun s =>
      decide (s.orderCount = 2) && decide (s.queueSize = 0) &&
        decide (s.queueHead = s.queueTail)) = true := by
    decide
  obtain ⟨s, hs, hp⟩ := playedBook_reachable hplay
  simp only [Bool.and_eq_true, decide_eq_true_eq] at hp
  obtain ⟨⟨hcount, hsize⟩, hhead⟩ := hp
  have hu : Hands (sampleBuy 3 5 0 100 40) s (enqueue sampleBid
      { enter (sampleBuy 3 5 0 100 40).msg s with bids := s.bids + 1 }) :=
    .queued _ _ (by rw [hsize]; decide) rfl
  have hadm : Admitted (enqueue sampleBid
      { enter (sampleBuy 3 5 0 100 40).msg s with bids := s.bids + 1 }) sampleBid := by
    refine ⟨Nat.succ_ne_zero _, ?_, rfl, rfl, .inl rfl, fun h => ?_, fun h => ?_⟩
    · change (s.queue.set s.queueTail sampleBid).get s.queueHead = sampleBid
      rw [hhead, Mapping.get_set]
    · exact absurd rfl h
    · exact absurd rfl h
  obtain ⟨l, hl, -, hleft, -⟩ := capped_match_by_price_time sampleEnv s _ _ _ hs hu hadm
  exact ⟨s, _, l, hs, hcount, hu, hadm, hl, hleft⟩

end InferenceOrderBookContinuation
