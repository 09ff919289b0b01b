import Dexdo.InferenceOrderBookOffers

/-! # Every offer is answered once

A SELL ends in one of ten ways, and each of them sends its deal one message: `onSellClosed`, or
the `fundFromOrderBook` of its fill. -/
namespace OfferAnswers

open TokenContractState hiding Out Err Sent
open SolidityMapping InferenceOrderBookState InferenceOrderBookCalls InferenceOrderBookStructure
open InferenceOrderBookMoves InferenceOrderBookOffers

/-- A closing or a funding of the deal `a`. -/
def answers (a : Address) : Out → Bool
  | .onSellClosed deal => deal == a
  | .fundFromOrderBook deal .. => deal == a
  | _ => false

def answered (a : Address) (s : Book) : ℕ := (mail s.out).countP (answers a)

def offerOf (a : Address) (o : Terms) : ℕ := if o.isBuy = false ∧ o.tokenContract = a then 1 else 0

def waitingOf (a : Address) (e : Pledge) : ℕ :=
  if e.isBuy = false ∧ e.tokenContract = a ∧ e.rest ≠ 0 then 1 else 0

/-- The offers of the deal `a` in the lists and in the queue. -/
def standing (a : Address) (f : Flat) : ℕ :=
  f.orders.total (offerOf a) + f.queue.total (waitingOf a)

def offers (a : Address) (tx : Tx) : Bool :=
  match tx.call with
  | .placeSellOffer .. => tx.msg.sender == a
  | _ => false

variable {env : Env} {m : Msg} {s t : Book} {f g : Flat} {a : Address} {id j : ℕ} {c : Call}

/-- The answers given to `a`, and its offers that stand. -/
def balance (a : Address) (f : Flat) : ℕ := f.out.countP (answers a) + standing a f

section Balance

variable {o : Terms} {e : Pledge}

theorem offerOf_bid (h : o.isBuy = true) : offerOf a o = 0 := by
  unfold offerOf
  simp [h]

theorem offerOf_offer (h : o.isBuy = false) :
    offerOf a o = if o.tokenContract = a then 1 else 0 := by
  unfold offerOf
  simp [h]

theorem waitingOf_bid (h : e.isBuy = true) : waitingOf a e = 0 := by
  unfold waitingOf
  simp [h]

theorem waitingOf_spent (h : e.rest = 0) : waitingOf a e = 0 := by
  unfold waitingOf
  simp [h]

theorem waitingOf_offer (h : e.isBuy = false) (hr : e.rest ≠ 0) :
    waitingOf a e = if e.tokenContract = a then 1 else 0 := by
  unfold waitingOf
  simp [h, hr]

theorem balance_post (l : List Out) :
    balance a (f.post l) = balance a f + l.countP (answers a) := by
  have hsame : standing a (f.post l) = standing a f := rfl
  unfold balance
  rw [hsame, Flat.post, List.countP_append]
  omega

theorem balance_drop (h : id ∈ f.orders.keys) :
    balance a (f.drop id) + offerOf a (f.orders.get id) = balance a f := by
  have herase := Mapping.total_erase (w := (f.drop id).orders) (f := offerOf a) h rfl
    fun i hi => by rw [Flat.drop, Mapping.get_delete_ne (Finset.mem_erase.mp hi).1]
  unfold balance standing Flat.drop at *
  dsimp only at *
  omega

theorem balance_put (ha : a ≠ 0) :
    balance a (f.put id o) + offerOf a (f.orders.get id) = balance a f + offerOf a o := by
  have hnone : offerOf a default = 0 := if_neg fun h => ha h.2.symm
  have hwrite := Mapping.total_write (m := f.orders) (k := id) (v := o) hnone
  unfold balance standing Flat.put
  dsimp only
  omega

/-- The next number is not in use. -/
theorem balance_put_new (ha : a ≠ 0) (h : ∀ i ∈ f.orders.keys, i < id) :
    balance a (f.put id o) = balance a f + offerOf a o := by
  have hput : balance a (f.put id o) + offerOf a (f.orders.get id) = balance a f + offerOf a o :=
    balance_put ha
  have hnone : offerOf a default = 0 := if_neg fun h => ha h.2.symm
  rw [f.orders.absent id fun hid => (h id hid).false] at hput
  exact (congrArg _ hnone.symm).trans hput

theorem balance_put_bid (ha : a ≠ 0) (h : (f.orders.get id).isBuy = true) (ho : o.isBuy = true) :
    balance a (f.put id o) = balance a f := by
  have hput : balance a (f.put id o) + offerOf a (f.orders.get id) = balance a f + offerOf a o :=
    balance_put ha
  rwa [offerOf_bid h, offerOf_bid ho] at hput

theorem balance_pop (h : j ∈ f.queue.keys) :
    balance a (f.pop j) + waitingOf a (f.queue.get j) = balance a f := by
  have herase := Mapping.total_erase (w := (f.pop j).queue) (f := waitingOf a) h rfl
    fun i hi => by rw [Flat.pop, Mapping.get_delete_ne (Finset.mem_erase.mp hi).1]
  unfold balance standing Flat.pop at *
  dsimp only at *
  omega

theorem balance_pledge :
    balance a (f.pledge j e) + waitingOf a (f.queue.get j) = balance a f + waitingOf a e := by
  have hnone : waitingOf a default = 0 := if_neg fun h => h.2.2 rfl
  have hwrite := Mapping.total_write (m := f.queue) (k := j) (v := e) hnone
  unfold balance standing Flat.pledge
  dsimp only
  omega

theorem balance_pledge_new (h : j ∉ f.queue.keys) :
    balance a (f.pledge j e) = balance a f + waitingOf a e := by
  have hpledge := balance_pledge (a := a) (f := f) (j := j) (e := e)
  rwa [f.queue.absent j h, waitingOf_spent rfl] at hpledge

theorem balance_pledge_bid (h : (f.queue.get j).isBuy = true) (he : e.isBuy = true) :
    balance a (f.pledge j e) = balance a f := by
  have hpledge := balance_pledge (a := a) (f := f) (j := j) (e := e)
  rwa [waitingOf_bid h, waitingOf_bid he] at hpledge

/-- An offer that is done with. -/
theorem balance_pledge_spent (h : (f.queue.get j).isBuy = false) (hr : (f.queue.get j).rest ≠ 0)
    (he : e.rest = 0) : balance a (f.pledge j e) +
      (if (f.queue.get j).tokenContract = a then 1 else 0) = balance a f := by
  have hpledge := balance_pledge (a := a) (f := f) (j := j) (e := e)
  rwa [waitingOf_offer h hr, waitingOf_spent he] at hpledge

end Balance

theorem credit_silent (note : Address) (n hash : ℕ) :
    (credit note n hash).countP (answers a) = 0 := by
  unfold credit
  split <;> rfl

theorem release_answers (ha : a ≠ 0) (tc : Address) :
    (release tc).countP (answers a) = if tc = a then 1 else 0 := by
  unfold release
  by_cases htc : tc = a
  · subst htc
    simp [ha, answers]
  · split <;> simp [answers, htc]

theorem fillMail_answers (hash : ℕ) (tc buyer : Address) (pk flags bo bc : ℕ) (seller : Address)
    (so sc n p : ℕ) : (fillMail hash tc buyer pk flags bo bc seller so sc n p).countP (answers a) =
      if tc = a then 1 else 0 := by
  unfold fillMail
  by_cases htc : tc = a <;> simp [answers, htc]

/-- No move answers an offer that goes on standing, and none lets one go without an answer. -/
theorem move_balanced (ha : a ≠ 0) (h : Move f g) : balance a g = balance a f := by
  cases h with
  | refuse note id => exact balance_post _
  | endBid id cause hid hb =>
    have hdrop := balance_drop (a := a) hid
    rw [offerOf_bid hb] at hdrop
    rw [balance_post, List.countP_cons, credit_silent]
    simpa [answers] using hdrop
  | endOffer id cause r hid hb =>
    have hdrop := balance_drop (a := a) hid
    rw [offerOf_offer hb] at hdrop
    rw [balance_post, List.countP_cons, List.countP_append, credit_silent, release_answers ha]
    simpa [answers] using hdrop
  | fillOffer j id n number hj hid hbuy hsell =>
    have hdrop := balance_drop (a := a) hid
    rw [offerOf_offer hsell] at hdrop
    rw [balance_post, List.countP_append, fillMail_answers]
    change balance a ((f.drop id).pledge j _) + _ = _
    rw [balance_pledge_bid]
    · simpa [answers] using hdrop
    · exact hbuy
    · exact hbuy
  | fillBid j id n number hj hid hsell hbuy h2 hn =>
    have hrest : (f.queue.get j).rest ≠ 0 :=
      Nat.ne_of_gt (Nat.lt_of_lt_of_le Nat.zero_lt_two (h2.trans hn))
    rw [balance_post, fillMail_answers]
    refine (balance_pledge_spent (f := f.put id (afterFill (f.orders.get id) n
      (fillDebit n (f.queue.get j).price ((f.orders.get id).flags &&& dealFlagsMask))))
      hsell hrest ?_).trans (balance_put_bid ha hbuy ?_)
    · rfl
    · exact hbuy
  | reject j reason hj hb =>
    have hpop := balance_pop (a := a) hj
    rw [waitingOf_bid hb] at hpop
    rw [balance_post]
    simpa [answers] using hpop
  | release j hj hb hrest =>
    rw [balance_post, release_answers ha]
    exact balance_pledge_spent hb hrest rfl
  | tell j reason => exact balance_post _
  | pop j hj hb hrest =>
    have hpop := balance_pop (a := a) hj
    rwa [waitingOf_spent hrest] at hpop
  | restBid j id ts tag hj hb h2 hnew =>
    have hpop := balance_pop (a := a) hj
    rw [waitingOf_bid hb] at hpop
    rw [balance_post, balance_put_new (f := f.pop j) ha hnew, offerOf_bid rfl]
    exact hpop
  | restOffer j id ts hj hb hrest hnew =>
    have hpop := balance_pop (a := a) hj
    rw [waitingOf_offer hb hrest] at hpop
    rw [balance_post, balance_put_new (f := f.pop j) ha hnew, offerOf_offer rfl]
    exact hpop

/-- Only `placeSellOffer` adds an offer, and a refused one is answered at once. -/
theorem submit_balanced {tx : Tx} (h : Submit env tx.msg f tx.call g) :
    balance a g = balance a f + if offers a tx then 1 else 0 := by
  obtain ⟨m, c⟩ := tx
  dsimp only at h
  cases h with
  | refused =>
    rw [balance_post]
    simp [answers, offers, List.countP_cons]
  | @offer p n d k i o t j _ hgood hj =>
    have hn : n ≠ 0 := by
      intro hzero
      exact hgood (.inl (by omega))
    rw [balance_pledge_new hj, waitingOf_offer rfl hn]
    simp [offers]
  | bid j price _ _ _ hj =>
    rw [balance_pledge_new hj, waitingOf_bid rfl]
    rfl
  | ignored hc =>
    rcases hc with ⟨id, rfl⟩ | rfl | rfl <;> rfl
  | request j kind owner hc hj =>
    rw [balance_pledge_new hj, waitingOf_spent rfl]
    rcases hc with ⟨id, rfl⟩ | rfl | ⟨id, rfl⟩ <;> rfl
  | accepted => rfl
  | bounced =>
    rw [balance_post]
    split
    · rw [credit_silent]
      rfl
    · rfl

theorem exec_balanced {tx : Tx} (ha : a ≠ 0) (h : Regular s) (he : exec env tx s = .ok t) :
    balance a (flat t) = balance a (flat s) + if offers a tx then 1 else 0 := by
  obtain ⟨-, g, hsubmit, hmoves⟩ := exec_moves h he
  have hkept : balance a (flat t) = balance a g :=
    hmoves.invariant (I := fun x => balance a x = balance a g)
      (fun x y hmove hx => (move_balanced ha hmove).trans hx) rfl
  rw [hkept, submit_balanced hsubmit]

theorem constructed_balance (h : Constructed env s) : balance a (flat s) = 0 := by
  obtain ⟨hash, d, n, m, hc⟩ := h
  simp only [construct, require_bind_ok] at hc
  obtain ⟨-, -, -, hc⟩ := hc
  cases hc
  rfl

/-- Over every run of a book, each offer a deal placed has been answered once, by a closing or by
a funding, or still stands. -/
theorem offers_answered_once (env : Env) (a : Address) (ha : a ≠ 0) (s₀ s : Book)
    (l : List (TransactionSystem.Record Book Tx)) (h0 : Constructed env s₀)
    (h : TransactionSystem.Run (exec env) (fun _ _ => True) s₀ l s) :
    l.countP (fun r => offers a r.act) = answered a s + standing a (flat s) := by
  have hrun : Regular s ∧ balance a (flat s) = l.countP fun r => offers a r.act := by
    apply h.invariant (I := fun l s => Regular s ∧
      balance a (flat s) = l.countP fun r => offers a r.act)
    · exact ⟨constructed_regular h0, constructed_balance h0⟩
    · intro l s tx t ih _ he
      refine ⟨(exec_moves ih.1 he).1, ?_⟩
      rw [exec_balanced ha ih.1 he, ih.2, List.countP_append, List.countP_singleton]
  exact hrun.2.symm

/-- A deal offers twice: the first offer stands, the second one is refused. -/
theorem one_of_two_answered : ∃ l s,
    TransactionSystem.Run (exec sampleEnv) (fun _ _ => True) sampleBook l s ∧
    answered 2010 s = 1 ∧
    l.countP (fun r => offers 2010 r.act) = answered 2010 s + standing 2010 (flat s) := by
  have hplay : (playedBook [sampleSell 1 2 5 0 20, sampleSell 1 2 1 0 40]).any
      (fun s => decide (answered 2010 s = 1)) = true := rfl
  obtain ⟨s, hs, hq⟩ := (Option.any_eq_true _ _).mp hplay
  obtain ⟨l, hrun, -⟩ := TransactionSystem.Run.play .nil hs
  exact ⟨l, s, hrun, of_decide_eq_true hq,
    offers_answered_once sampleEnv 2010 (by decide) _ _ _ sampleBook_constructed hrun⟩

end OfferAnswers
