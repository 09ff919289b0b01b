import Dexdo.TokenContractInvariant

/-! # The exits of a TokenContract

Every call that can end a deal, started from a record that satisfies the invariant: the
record it settles from, that no checked operation on its way throws, and that what is swept
to the seller at the end is exactly what no earmark claims. -/
namespace TokenContractExits

open TokenContractState TokenContractCalls TokenContractCharges TokenContractPayouts
open TokenContractSteps TokenContractInvariant

variable {E : Env} {m : Msg} {s t u v : Deal}

/-! ## Charges that fit -/

theorem unpaid_charge_lt (hb : Base s) (hs : Streaming s) {n : ℕ}
    (hn : n ≤ s.tokensPend - tickSize) : chargeOf s.pricePerTick n < u128 := by
  obtain ⟨ticks, hshape⟩ := hs.shape
  have hrate := hs.rate
  have hclock := hb.clock
  have hclaim := hb.claim_le
  have hpend := hs.pend_le_funded
  have hone := hs.tick_le_final.trans hs.final_le_pend
  have hlow := hshape.low
  rw [hshape.tokens] at hpend
  have hk : n ≤ (s.tokensPend - 1) / tickSize * tickSize := by
    unfold tickSize at *
    omega
  apply chargeOf_lt_of_rate hk (m := ticks)
  · unfold tickSize at *
    omega
  · unfold tickSize minSecondsPerTick at *
    omega
  · exact hb.ticks_lt hshape.high

theorem rebate_lt (hb : Base s) {ticks : ℕ} (hshape : Shape ticks s)
    (hp : v.pricePerTick = s.pricePerTick) (hfinal : v.tokensFinal ≤ s.fundedTokens) :
    rebate v.pricePerTick (recordDelivered v).ticksFinalized < u128 := by
  have hlow := hshape.low
  rw [hshape.tokens] at hfinal
  have hticks : (recordDelivered v).ticksFinalized ≤ ticks := by
    unfold recordDelivered
    dsimp only
    split
    · unfold tickSize
      omega
    · exact Nat.div_le_of_le_mul (hfinal.trans_eq (Nat.mul_comm _ _))
  rw [hp]
  calc rebate s.pricePerTick (recordDelivered v).ticksFinalized
      ≤ (recordDelivered v).ticksFinalized * s.pricePerTick := rebate_le _ _
    _ ≤ ticks * s.pricePerTick := Nat.mul_le_mul_right _ hticks
    _ < u128 := hb.ticks_price_lt hshape.high

theorem unpaid_le_week (hs : Streaming s) (hsub : s.subWeeks ≠ 0) :
    s.tokensPend - claimBase s ≤ s.tokensPerWeek := by
  have hquota := hs.quota hsub
  unfold claimBase isSubscription
  by_cases hz : s.weekIndex = 0
  · have hpaid := hs.paid
    rw [if_pos hz] at hpaid
    have hbase := hs.base_zero hz
    simp only [hz, hpaid]
    simp
    omega
  · have hbase := hs.base_pos hz
    simp only [Nat.pos_of_ne_zero hz, hsub]
    simp [hsub, Nat.pos_of_ne_zero hz]
    omega

/-! ## What a settlement starts from -/

/-- The mark a seller's exit, `settleWeek` or a buyer's exit on a subscription trusts. -/
def matured (s : Deal) : ℕ :=
  if s.lastClaimTime + claimPromoteWindow ≤ s.now then s.tokensPend else s.tokensFinal

theorem promoteDue_matured (hb : Base s) (hs : Streaming s) :
    promoteDue s = { s with tokensFinal := matured s } := by
  rw [promoteDue_eq hb.promote_lt, max_eq_right hs.final_le_pend]
  rfl

theorem promoteDue_settled (hwin : s.lastClaimTime + claimPromoteWindow < u64)
    (h : s.tokensPend = s.tokensFinal) : promoteDue s = s := by
  have hmax : max s.tokensFinal s.tokensPend = s.tokensFinal := by omega
  rw [promoteDue_eq hwin, hmax, ite_self]

theorem matured_le (hs : Streaming s) : matured s ≤ s.tokensPend := by
  unfold matured
  split
  · exact le_rfl
  · exact hs.final_le_pend

theorem tokensFinal_le_matured (hs : Streaming s) : s.tokensFinal ≤ matured s := by
  unfold matured
  split
  · exact hs.final_le_pend
  · exact le_rfl

def trusting (x : ℕ) (s : Deal) : Deal := { s with tokensFinal := x }

theorem finalOwed_subscription (h : s.subWeeks ≠ 0) : finalOwed s = 0 := by
  simp [finalOwed, isSubscription, h]

theorem paidUp_nothing (s : Deal) : paidUp 0 s.tokensPaid s = { s with
    clamped := s.clamped || decide (chargeOf s.pricePerTick 0 > s.deposit) } := by
  simp [paidUp, taken_zero, sellerPart_zero, feePart_zero]

/-- A subscription closed after `k` more boundaries were booked. -/
theorem weeks_close_moved (hb : Base s) (hs : Streaming s) (hsub : s.subWeeks ≠ 0) {x k : ℕ}
    (hx : x ≤ s.tokensPend) (hk : s.weekIndex + k ≤ s.subWeeks) :
    let v := chargeWeek^[k] (trusting x s)
    Moved s (payFinalAndClose E v) (v.deposit + s.buyerBond)
      (v.finalizedOwed + s.sellerBond + cleanRebate v) (s.balance - s.earmarks)
      (v.feeAccrued - cleanRebate v) := by
  intro v
  obtain ⟨ticks, hshape⟩ := hs.shape
  have hweekly := Invariant.weekly hb hs
  obtain ⟨c, d, o, f, p, b, heq, hsum, -⟩ := chargeWeeks_spec (s := trusting x s)
    { hb.toBacked with } { hweekly with } k hk
  have hcov := hb.covered
  have hprobe := hs.probeTick
  have hsum' : d + o + f = s.deposit + s.finalizedOwed + s.feeAccrued := hsum
  have hv : v = { trusting x s with
      clamped := c, deposit := d, finalizedOwed := o, feeAccrued := f
      tokensPaid := p, weekIndex := s.weekIndex + k, weekBaseTokens := b } := heq
  have hear : v.earmarks = s.earmarks := by
    rw [hv]
    simp only [Deal.earmarks, trusting]
    omega
  have hclosable : Closable v := by
    refine ⟨⟨?_, ?_⟩, ?_, ?_⟩
    · rw [hear, hv]
      exact hcov
    · rw [hv]
      exact hb.balance_lt
    · rw [hv]
      exact fun _ => hprobe
    · apply rebate_lt hb hshape
      · rw [hv]
        rfl
      · rw [hv]
        exact hx.trans hs.pend_le_funded
  have hzero : finalOwed v = 0 := by
    apply finalOwed_subscription
    rw [hv]
    exact hsub
  have hmark : Moved s v 0 0 0 0 := by
    rw [hv]
    exact .regroup rfl rfl
  have hmove := payFinalAndClose_moved (E := E) hclosable
    (by rw [hzero]; simp [chargeOf, valueOf, fee, u128])
  rw [hzero, Nat.add_zero, paidUp_nothing] at hmove
  refine (hmark.trans hmove).of_eq ?_ ?_ ?_ ?_
  · change 0 + (v.deposit + v.probeTick + v.buyerBond) = v.deposit + s.buyerBond
    rw [show v.probeTick = 0 by rw [hv]; exact hprobe,
      show v.buyerBond = s.buyerBond by rw [hv]; rfl]
    omega
  · rw [show v.sellerBond = s.sellerBond by rw [hv]; rfl]
    simp only [Nat.zero_add]
    rfl
  · rw [hear, show v.balance = s.balance by rw [hv]; rfl]
    omega
  · simp only [Nat.zero_add]
    rfl

/-- An ordinary deal closed after both forfeits were burned. -/
theorem ordinary_close_moved (hb : Base s) (hs : Streaming s) (hz : s.subWeeks = 0) {x y B S : ℕ}
    (hx : x ≤ s.tokensPend) (htick : tickSize ≤ x) :
    let w := paidUp (x - tickSize) x (trusting x s)
    Moved s (payFinalAndClose E (burnStakes B S { trusting x s with tokensPend := y }))
      (w.deposit + (s.buyerBond - cut B s.buyerBond))
      (w.finalizedOwed + (s.sellerBond - cut S s.sellerBond) + cleanRebate w)
      (s.balance - s.earmarks)
      (cut B s.buyerBond + cut S s.sellerBond + (w.feeAccrued - cleanRebate w)) := by
  intro w
  obtain ⟨ticks, hshape⟩ := hs.shape
  have hcov := hb.covered
  have hlt := hb.balance_lt
  have hprobe := hs.probeTick
  have hdb := cut_le B s.buyerBond
  have hds := cut_le S s.sellerBond
  have hback : Backed { trusting x s with tokensPend := y } := { hb.toBacked with }
  have hburn := burnStakes_moved (B := B) (S := S) hback
  have hstakes := burnStakes_eq (B := B) (S := S) hback
  have hstart : Moved s { trusting x s with tokensPend := y } 0 0 0 0 := .regroup rfl rfl
  have hpaid : s.tokensPaid = tickSize := by
    have hweeks := hs.weeks
    rw [hs.paid, if_pos (by omega)]
  set v := burnStakes B S { trusting x s with tokensPend := y } with hvdef
  have hv : v = burnShell (cut B s.buyerBond + cut S s.sellerBond)
      { trusting x s with
        tokensPend := y
        buyerBond := s.buyerBond - cut B s.buyerBond
        sellerBond := s.sellerBond - cut S s.sellerBond } := hstakes
  have howed : finalOwed v = x - tickSize := by
    rw [hv]
    unfold finalOwed
    simp only [burnShell, Deal.sendIf, trusting, isSubscription, hz, hpaid]
    by_cases hgt : x > tickSize
    · simp [hgt]
    · simp [hgt]
      omega
  have hear : v.earmarks + (cut B s.buyerBond + cut S s.sellerBond) = s.earmarks := by
    rw [hv]
    simp only [Deal.earmarks, burnShell, Deal.sendIf, trusting]
    omega
  have hbal : v.balance = s.balance - (cut B s.buyerBond + cut S s.sellerBond) := by
    rw [hv]
    rfl
  have hclosable : Closable v := by
    refine ⟨⟨?_, ?_⟩, ?_, ?_⟩
    · omega
    · omega
    · rw [hv]
      exact fun _ => hprobe
    · apply rebate_lt hb hshape
      · rw [hv]
        rfl
      · rw [hv]
        exact hx.trans hs.pend_le_funded
  have hfields : v.pricePerTick = s.pricePerTick ∧ v.probeTick = 0 ∧
      v.tokensPaid = tickSize ∧ v.buyerBond = s.buyerBond - cut B s.buyerBond ∧
      v.sellerBond = s.sellerBond - cut S s.sellerBond := by
    rw [hv]
    exact ⟨rfl, hprobe, hpaid, rfl, rfl⟩
  obtain ⟨hprice, hpt, hvp, hvb, hvs⟩ := hfields
  have hmove := payFinalAndClose_moved (E := E) hclosable
    (by rw [howed, hprice]; exact unpaid_charge_lt hb hs (by omega))
  rw [howed, hvp, Nat.add_sub_cancel' htick] at hmove
  -- the forfeits touch nothing the payout reads
  have hsame : (paidUp (x - tickSize) x v).deposit = w.deposit ∧
      (paidUp (x - tickSize) x v).finalizedOwed = w.finalizedOwed ∧
      (paidUp (x - tickSize) x v).feeAccrued = w.feeAccrued ∧
      cleanRebate (paidUp (x - tickSize) x v) = cleanRebate w := by
    rw [hv]
    exact ⟨rfl, rfl, rfl, rfl⟩
  obtain ⟨h1, h2, h3, h4⟩ := hsame
  refine ((hstart.trans hburn).trans hmove).of_eq ?_ ?_ ?_ ?_
  · omega
  · omega
  · omega
  · rw [show ({ trusting x s with tokensPend := y } : Deal).buyerBond = s.buyerBond from rfl,
      show ({ trusting x s with tokensPend := y } : Deal).sellerBond = s.sellerBond from rfl]
    omega

/-! ## `stop` -/

theorem chargeWeeksThrough_ordinary (h : s.subWeeks = 0) (k : ℕ) : chargeWeeksThrough k s = s := by
  simp [chargeWeeksThrough, isSubscription, h]

theorem ordinary_tail (hstart : v.periodStart ≤ v.now) (hz : v.subWeeks = 0) (k : ℕ) :
    chargeWeeksThrough k (v.check (v.periodStart ≤ v.now)) = v := by
  rw [Deal.check_pass hstart, chargeWeeksThrough_ordinary hz]

theorem weeksStartedAt_le (ts : ℕ) (s : Deal) : weeksStartedAt ts s ≤ s.subWeeks := by
  have h := weeksElapsedAt_le ts s
  unfold weeksStartedAt
  split <;> omega

/-- The record `stop` hands to `_payFinalAndClose` once the trial tick is accepted. -/
def stopRecord (s : Deal) : Deal :=
  let s := promoteDue s
  let s := if !isSubscription s then forfeitBonds s.pricePerTick 0 (promote s) else s
  let s := s.check (s.periodStart ≤ s.now)
  chargeWeeksThrough (weeksStarted s) s

theorem stopBody_record (ha : s.probeAccepted = true) :
    stopBody E s = payFinalAndClose E (stopRecord s) := by
  unfold stopBody stopRecord
  simp only [ha, Bool.not_true, Bool.false_eq_true, if_false]

theorem stopRecord_ordinary (hb : Base s) (hs : Streaming s) (hz : s.subWeeks = 0) :
    stopRecord s = burnStakes s.pricePerTick 0 (trusting s.tokensPend s) := by
  have hpro : promote (promoteDue s) = trusting s.tokensPend s := by
    have hle := matured_le hs
    have hmark : (if s.tokensPend > matured s then s.tokensPend else matured s) =
        s.tokensPend := by
      split <;> omega
    rw [promoteDue_matured hb hs]
    simp only [promote, hmark]
    rfl
  have hkind : isSubscription (promoteDue s) = false := by
    rw [promoteDue_matured hb hs]
    simp [isSubscription, hz]
  have hback : Backed (trusting s.tokensPend s) := { hb.toBacked with }
  have hstakes := burnStakes_eq (B := s.pricePerTick) (S := 0) hback
  unfold stopRecord
  simp only [hkind, Bool.not_false, if_true, hpro, forfeitBonds_eq]
  rw [show (promoteDue s).pricePerTick = s.pricePerTick by rw [promoteDue_matured hb hs]]
  apply ordinary_tail
  · rw [hstakes]
    exact hb.start_le_now
  · rw [hstakes]
    exact hz

theorem stopRecord_subscription (hb : Base s) (hs : Streaming s) (hsub : s.subWeeks ≠ 0) :
    stopRecord s = chargeWeek^[weeksStarted s - s.weekIndex] (trusting (matured s) s) := by
  have hpro : promoteDue s = trusting (matured s) s := promoteDue_matured hb hs
  have hkind : isSubscription (trusting (matured s) s) = true := by
    simp [isSubscription, trusting, hsub]
  have hstart : (trusting (matured s) s).periodStart ≤ (trusting (matured s) s).now :=
    hb.start_le_now
  have hweeks : chargeWeeksThrough (weeksStarted s) (trusting (matured s) s) =
      chargeWeek^[weeksStarted s - s.weekIndex] (trusting (matured s) s) :=
    chargeWeeksThrough_eq (s := trusting (matured s) s) hs.accepted (weeksStartedAt_le _ _)
  unfold stopRecord
  simp only [hpro, hkind, Bool.not_true, Bool.false_eq_true, if_false, Deal.check_pass hstart]
  exact hweeks

theorem stopBody_ordinary (hb : Base s) (hs : Streaming s) (hz : s.subWeeks = 0) :
    stopBody E s =
      payFinalAndClose E (burnStakes s.pricePerTick 0 (trusting s.tokensPend s)) := by
  rw [stopBody_record hs.accepted, stopRecord_ordinary hb hs hz]

theorem stopBody_subscription (hb : Base s) (hs : Streaming s) (hsub : s.subWeeks ≠ 0) :
    stopBody E s = payFinalAndClose E
      (chargeWeek^[weeksStarted s - s.weekIndex] (trusting (matured s) s)) := by
  rw [stopBody_record hs.accepted, stopRecord_subscription hb hs hsub]

/-! ## `sellerStop` -/

/-- The record `sellerStop` hands to `_payFinalAndClose`. -/
def sellerStopRecord (s : Deal) : Deal :=
  let s := promoteDue (if !s.probeAccepted then forfeitTrial s else s)
  let s := if s.probeAccepted && !isSubscription s then
      forfeitBonds 0 s.pricePerTick { s with tokensPend := s.tokensFinal }
    else s
  let s := s.check (s.periodStart ≤ s.now)
  chargeWeeksThrough (weeksElapsed s) s

theorem sellerStopBody_record (E : Env) (s : Deal) :
    sellerStopBody E s = payFinalAndClose E (sellerStopRecord s) := rfl

theorem sellerStopRecord_ordinary (hb : Base s) (hs : Streaming s) (hz : s.subWeeks = 0) :
    sellerStopRecord s =
      burnStakes 0 s.pricePerTick { trusting (matured s) s with tokensPend := matured s } := by
  have hpro : promoteDue s = trusting (matured s) s := promoteDue_matured hb hs
  have hkind : isSubscription (trusting (matured s) s) = false := by
    simp [isSubscription, trusting, hz]
  have hacc : (trusting (matured s) s).probeAccepted = true := hs.accepted
  have hback : Backed { trusting (matured s) s with tokensPend := matured s } :=
    { hb.toBacked with }
  have hstakes := burnStakes_eq (B := 0) (S := s.pricePerTick) hback
  unfold sellerStopRecord
  simp only [hs.accepted, Bool.not_true, Bool.false_eq_true, if_false, hpro, hkind, hacc,
    Bool.not_false, Bool.and_self, if_true, forfeitBonds_eq]
  refine ordinary_tail (v := burnStakes 0 s.pricePerTick
    { trusting (matured s) s with tokensPend := matured s }) ?_ ?_ _
  · rw [hstakes]
    exact hb.start_le_now
  · rw [hstakes]
    exact hz

theorem sellerStopRecord_subscription (hb : Base s) (hs : Streaming s) (hsub : s.subWeeks ≠ 0) :
    sellerStopRecord s =
      chargeWeek^[weeksElapsed s - s.weekIndex] (trusting (matured s) s) := by
  have hpro : promoteDue s = trusting (matured s) s := promoteDue_matured hb hs
  have hkind : isSubscription (trusting (matured s) s) = true := by
    simp [isSubscription, trusting, hsub]
  have hstart : (trusting (matured s) s).periodStart ≤ (trusting (matured s) s).now :=
    hb.start_le_now
  have hweeks : chargeWeeksThrough (weeksElapsed s) (trusting (matured s) s) =
      chargeWeek^[weeksElapsed s - s.weekIndex] (trusting (matured s) s) :=
    chargeWeeksThrough_eq (s := trusting (matured s) s) hs.accepted (weeksElapsedAt_le _ _)
  unfold sellerStopRecord
  simp only [hs.accepted, Bool.not_true, Bool.false_eq_true, if_false, hpro, hkind,
    Bool.and_false, Deal.check_pass hstart]
  exact hweeks

theorem sellerStopRecord_trial (hb : Base s) (ht : Trial s) :
    sellerStopRecord s = forfeitTrial s := by
  have hpro : promoteDue (forfeitTrial s) = forfeitTrial s :=
    promoteDue_settled hb.promote_lt (ht.tokensPend.trans ht.tokensFinal.symm)
  have hacc : (forfeitTrial s).probeAccepted = false := ht.unaccepted
  have hstart : (forfeitTrial s).periodStart ≤ (forfeitTrial s).now := hb.start_le_now
  unfold sellerStopRecord
  simp only [ht.unaccepted, Bool.not_false, if_true, hpro, hacc, Bool.false_and,
    Bool.false_eq_true, if_false, Deal.check_pass hstart]
  simp [chargeWeeksThrough, hacc]

theorem sellerStopBody_ordinary (hb : Base s) (hs : Streaming s) (hz : s.subWeeks = 0) :
    sellerStopBody E s = payFinalAndClose E
      (burnStakes 0 s.pricePerTick { trusting (matured s) s with tokensPend := matured s }) := by
  rw [sellerStopBody_record, sellerStopRecord_ordinary hb hs hz]

theorem sellerStopBody_subscription (hb : Base s) (hs : Streaming s) (hsub : s.subWeeks ≠ 0) :
    sellerStopBody E s = payFinalAndClose E
      (chargeWeek^[weeksElapsed s - s.weekIndex] (trusting (matured s) s)) := by
  rw [sellerStopBody_record, sellerStopRecord_subscription hb hs hsub]

/-- The seller's exit during the trial: one tick of his bond burns, the buyer gets everything. -/
theorem sellerStopBody_trial_moved (hb : Base s) (ht : Trial s) :
    Moved s (sellerStopBody E s) (s.deposit + s.probeTick + s.buyerBond)
      (s.sellerBond - cut s.pricePerTick s.sellerBond) (s.balance - s.earmarks)
      (cut s.pricePerTick s.sellerBond) := by
  obtain ⟨ticks, hshape⟩ := ht.shape
  have hcov := hb.covered
  have hlt := hb.balance_lt
  have hle := cut_le s.pricePerTick s.sellerBond
  have howed := ht.finalizedOwed
  have hfee := ht.feeAccrued
  let v : Deal := burnShell (cut s.pricePerTick s.sellerBond)
    { s with sellerBond := s.sellerBond - cut s.pricePerTick s.sellerBond }
  have hear : v.earmarks + cut s.pricePerTick s.sellerBond = s.earmarks := by
    simp only [v, Deal.earmarks, burnShell, Deal.sendIf]
    omega
  have hbal : v.balance = s.balance - cut s.pricePerTick s.sellerBond := rfl
  have hcutoff : Moved s
      { s with sellerBond := s.sellerBond - cut s.pricePerTick s.sellerBond } 0 0 0 0 :=
    .regroup rfl rfl
  have hburn : Moved s v 0 0 0 (cut s.pricePerTick s.sellerBond) :=
    (hcutoff.trans (burnShell_moved (by
      unfold Deal.earmarks at hcov
      dsimp only
      omega))).of_eq rfl rfl rfl (by omega)
  have hclosable : Closable v := by
    refine ⟨⟨by omega, by omega⟩, ?_, ?_⟩
    · intro ha
      rw [show v.probeAccepted = s.probeAccepted from rfl, ht.unaccepted] at ha
      cases ha
    · apply rebate_lt hb hshape rfl
      rw [ht.tokensFinal]
      exact Nat.zero_le _
  have hzero : finalOwed v = 0 := by
    simp [finalOwed, v, burnShell, Deal.sendIf, ht.tokensFinal]
  have heq : sellerStopBody E s = payFinalAndClose E v := by
    have hfirst : (if s.pricePerTick ≤ s.sellerBond then s.pricePerTick else s.sellerBond) =
        cut s.pricePerTick s.sellerBond := by
      unfold cut
      split <;> split <;> omega
    have hforfeit : forfeitTrial s = v := by
      unfold forfeitTrial
      rw [hfirst]
    rw [sellerStopBody_record, sellerStopRecord_trial hb ht, hforfeit]
  have hmove := payFinalAndClose_moved (E := E) hclosable
    (by rw [hzero]; simp [chargeOf, valueOf, fee, u128])
  rw [hzero, Nat.add_zero, paidUp_nothing] at hmove
  have hrebate : cleanRebate v = 0 := by
    have := rebateDue_le true (recordDelivered v)
    rw [show (recordDelivered v).feeAccrued = s.feeAccrued from rfl, hfee] at this
    exact Nat.le_zero.mp this
  rw [heq]
  refine (hburn.trans hmove).of_eq ?_ ?_ ?_ ?_
  · change 0 + (s.deposit + s.probeTick + s.buyerBond) = _
    omega
  · change 0 + (s.finalizedOwed + (s.sellerBond - cut s.pricePerTick s.sellerBond) +
      cleanRebate v) = _
    omega
  · omega
  · change cut s.pricePerTick s.sellerBond + (s.feeAccrued - cleanRebate v) = _
    omega

/-! ## Dispute resolution -/

/-- Claims that stand after `_voidClaims`: the pending one only if it had matured. -/
def standing (s : Deal) : ℕ :=
  if s.lastClaimTime + claimPromoteWindow ≤ s.disputeTime then s.tokensPend else s.tokensFinal

/-- The record with the claim pipeline settled at `x` and the dispute over. -/
def voided (x : ℕ) (s : Deal) : Deal :=
  { s with tokensFinal := x, tokensPend := x, disputed := false }

theorem standing_le (hs : Streaming s) : standing s ≤ s.tokensPend := by
  unfold standing
  split
  · exact le_rfl
  · exact hs.final_le_pend

theorem tokensFinal_le_standing (hs : Streaming s) : s.tokensFinal ≤ standing s := by
  unfold standing
  split
  · exact hs.final_le_pend
  · exact le_rfl

theorem liftDispute_eq (hb : Base s) (hs : Streaming s) :
    liftDispute s = voided (standing s) s := by
  have hle := hs.final_le_pend
  have hwin := hb.promote_lt
  have hmark : (if s.tokensPend > s.tokensFinal ∧
      s.lastClaimTime + claimPromoteWindow ≤ s.disputeTime then s.tokensPend
      else s.tokensFinal) = standing s := by
    unfold standing
    by_cases h : s.lastClaimTime + claimPromoteWindow ≤ s.disputeTime
    · by_cases hgt : s.tokensPend > s.tokensFinal
      · simp [h, hgt]
      · simp [h, hgt]
        omega
    · simp [h]
  unfold liftDispute voidClaims
  simp only [Deal.check_pass (fun _ : s.tokensPend > s.tokensFinal => hwin), hmark]
  rfl

theorem liftDispute_settled (h : s.tokensPend = s.tokensFinal) :
    liftDispute s = voided s.tokensFinal s := by
  have hnot : ¬ s.tokensPend > s.tokensFinal := by omega
  have hchk : s.tokensPend > s.tokensFinal → s.lastClaimTime + claimPromoteWindow < u64 :=
    fun hgt => absurd hgt hnot
  have hmark : (if s.tokensPend > s.tokensFinal ∧
      s.lastClaimTime + claimPromoteWindow ≤ s.disputeTime then s.tokensPend
      else s.tokensFinal) = s.tokensFinal := if_neg (fun h => hnot h.1)
  unfold liftDispute voidClaims
  simp only [Deal.check_pass hchk, hmark]
  rfl

def disputeBooks (s : Deal) : Deal :=
  chargeWeek^[weeksElapsedAt s.disputeTime s - s.weekIndex] s

theorem disputeBooks_invariant (hb : Base s) (hs : Streaming s) (hd : s.disputed = true) :
    Base (disputeBooks s) ∧ Streaming (disputeBooks s) := by
  have hle : weeksElapsedAt s.disputeTime s ≤ (s.disputeTime - s.periodStart) / subWeekLen :=
    min_le_left _ _
  have hcap := weeksElapsedAt_le s.disputeTime s
  have hweeks := hs.weeks
  have hweek := hs.week_le hd
  have hnow := hs.now_le hd
  have hat : (s.weekIndex + (weeksElapsedAt s.disputeTime s - s.weekIndex)) * subWeekLen ≤
      s.disputeTime - s.periodStart := by
    rcases Nat.le_total (weeksElapsedAt s.disputeTime s) s.weekIndex with h | h
    · rw [Nat.sub_eq_zero_of_le h]
      exact hweek
    · rw [Nat.add_sub_cancel' h]
      exact (Nat.mul_le_mul_right _ hle).trans (Nat.div_mul_le_self _ _)
  exact books_invariant hb hs (by omega) (by omega) (fun _ => hat)

theorem disputeBooks_spec (hb : Base s) (hs : Streaming s) :
    ∃ c d o f p b, disputeBooks s = { s with
        clamped := c, deposit := d, finalizedOwed := o, feeAccrued := f
        tokensPaid := p
        weekIndex := s.weekIndex + (weeksElapsedAt s.disputeTime s - s.weekIndex)
        weekBaseTokens := b } ∧
      d + o + f = s.deposit + s.finalizedOwed + s.feeAccrued := by
  have h1 := hs.weeks
  have h2 := weeksElapsedAt_le s.disputeTime s
  obtain ⟨c, d, o, f, p, b, heq, hsum, -⟩ := chargeWeeks_spec hb.toBacked
    (Invariant.weekly hb hs) (weeksElapsedAt s.disputeTime s - s.weekIndex) (by omega)
  exact ⟨c, d, o, f, p, b, heq, hsum⟩

def BooksClosed (s : Deal) : Prop := weeksElapsedAt s.disputeTime s ≤ s.weekIndex

theorem disputeBooks_closed (hb : Base s) (hs : Streaming s) : BooksClosed (disputeBooks s) := by
  obtain ⟨c, d, o, f, p, b, heq, -⟩ := disputeBooks_spec hb hs
  unfold BooksClosed
  rw [heq]
  change weeksElapsedAt s.disputeTime s ≤ _
  dsimp only
  omega

theorem unstarted_le (hs : Streaming s) (hsub : s.subWeeks ≠ 0) :
    unstartedTokens s ≤ 3 * s.tokensPerWeek := by
  obtain ⟨ticks, hshape⟩ := hs.shape
  have hfour := (hshape.quarter hsub).1
  unfold unstartedTokens
  apply Nat.mul_le_mul_right
  have hle := weeksElapsedAt_le s.disputeTime s
  unfold weeksStartedAt
  split_ifs <;> omega

theorem voided_payable (hb : Base s) (hs : Streaming s) (hclosed : BooksClosed s)
    (hclock : s.periodStart ≤ s.disputeTime) {x : ℕ} (hx : x ≤ s.tokensPend) :
    Payable (voided x s) ∧ WeekFits (voided x s) := by
  obtain ⟨ticks, hshape⟩ := hs.shape
  have hfits := hshape.fits
  have howed : trustedOwed (voided x s) ≤ s.tokensPend - claimBase s := by
    have hbase : claimBase (voided x s) = claimBase s := rfl
    unfold trustedOwed
    rw [hbase]
    change (if x > claimBase s then x - claimBase s else 0) ≤ _
    split <;> omega
  refine ⟨{ hb.toBacked with
    probe := fun _ => hs.probeTick
    clock := hclock
    booked := ?_
    charge := ?_ }, ?_⟩
  · have heq := chargeWeeksThrough_eq (s := unfrozen (voided x s)) hs.accepted
      (weeksElapsedAt_le s.disputeTime s)
    rw [show (unfrozen (voided x s)).weekIndex = s.weekIndex from rfl,
      Nat.sub_eq_zero_of_le hclosed] at heq
    exact heq
  · by_cases hz : s.subWeeks = 0
    · apply unpaid_charge_lt hb hs
      have hbase : claimBase s = tickSize := by
        have hweeks := hs.weeks
        have hpaid := hs.paid
        rw [if_pos (by omega)] at hpaid
        simp [claimBase, isSubscription, hz, hpaid]
      omega
    · have hweek := unpaid_le_week hs hz
      have hquarter := hshape.quarter hz
      apply hb.charge_lt hshape
      omega
  · intro hkind
    have hsub : s.subWeeks ≠ 0 := by
      intro hz
      simp [isSubscription, voided, hz] at hkind
    have hquarter := hshape.quarter hsub
    have hun := unstarted_le hs hsub
    refine ⟨hclock, ?_, ?_⟩
    · change unstartedTokens s < u128
      omega
    · change chargeOf s.pricePerTick (unstartedTokens s) < u128
      apply hb.charge_lt hshape
      omega

theorem stake_fits (hb : Base s) (hs : Streaming s) (hsub : s.subWeeks ≠ 0) {x : ℕ}
    (hx : x ≤ s.tokensPend) : checkStake { s with tokensPend := x } = { s with tokensPend := x } := by
  obtain ⟨ticks, hshape⟩ := hs.shape
  have hquarter := hshape.quarter hsub
  have hweek := unpaid_le_week hs hsub
  have hunpaid : claimedUnpaid { s with tokensPend := x } ≤ s.tokensPerWeek := by
    have hbase : claimBase { s with tokensPend := x } = claimBase s := rfl
    unfold claimedUnpaid
    rw [hbase]
    dsimp only
    split <;> omega
  apply Deal.check_pass
  exact ⟨hb.charge_lt (n := claimedUnpaid { s with tokensPend := x }) hshape (by omega),
    hb.bond_lt⟩

theorem stake_fits_fresh (hb : bondAmount s.pricePerTick < u128) (hp : s.tokensPend = 0) :
    checkStake s = s := by
  have hzero : claimedUnpaid s = 0 := by
    simp [claimedUnpaid, hp]
  apply Deal.check_pass
  rw [hzero]
  exact ⟨by simp [chargeOf, valueOf, fee, u128], hb⟩

theorem disputed_start_le (hb : Base s) (hfr : Frozen s) (hd : s.disputed = true) :
    s.periodStart ≤ s.disputeTime := hb.start_le.trans (hfr.claim_le hd)

theorem disputeBooks_eq (hs : Streaming s) :
    chargeWeeksThrough (weeksElapsedAt s.disputeTime s) s = disputeBooks s :=
  chargeWeeksThrough_eq hs.accepted (weeksElapsedAt_le _ _)

def releaseStakes (v : Deal) : ℕ × ℕ :=
  if isSubscription v then (disputeStake v, 0) else (v.pricePerTick, v.pricePerTick)

theorem releaseDisputeBody_streaming (hb : Base s) (hs : Streaming s) (hd : s.disputed = true) :
    let v := voided (standing (disputeBooks s)) (disputeBooks s)
    releaseDisputeBody E s =
      settleTrustedAndClose E (releaseStakes v).1 (releaseStakes v).2 v := by
  intro v
  obtain ⟨hbb, hsb⟩ := disputeBooks_invariant hb hs hd
  have hvoid : liftDispute (disputeBooks s) = v := liftDispute_eq hbb hsb
  unfold releaseDisputeBody
  simp only [Deal.check_pass (disputed_start_le hb hs.toFrozen hd), disputeBooks_eq hs, hvoid]
  unfold releaseStakes
  by_cases hsub : isSubscription v = true
  · have hne : (disputeBooks s).subWeeks ≠ 0 := by
      simpa [isSubscription, v, voided] using hsub
    have hfits : checkStake v = v := by
      have := stake_fits hbb hsb hne (standing_le hsb)
      exact congrArg (fun u : Deal =>
        { u with tokensFinal := standing (disputeBooks s), disputed := false }) this
    rw [if_pos hsub, if_pos hsub, hfits]
  · rw [if_neg hsub, if_neg hsub]

theorem releaseDisputeBody_trial (hb : Base s) (ht : Trial s) (hd : s.disputed = true) :
    let v := voided s.tokensFinal s
    releaseDisputeBody E s =
      settleTrustedAndClose E (releaseStakes v).1 (releaseStakes v).2 v := by
  intro v
  have hvoid : liftDispute s = v := liftDispute_settled (ht.tokensPend.trans ht.tokensFinal.symm)
  have hweeks : chargeWeeksThrough (weeksElapsedAt s.disputeTime s) s = s := by
    simp [chargeWeeksThrough, ht.unaccepted]
  have hfits : checkStake v = v := stake_fits_fresh hb.bond_lt ht.tokensFinal
  unfold releaseDisputeBody
  simp only [Deal.check_pass (disputed_start_le hb ht.toFrozen hd), hweeks, hvoid]
  unfold releaseStakes
  by_cases hsub : isSubscription v = true
  · rw [if_pos hsub, if_pos hsub, hfits]
  · rw [if_neg hsub, if_neg hsub]

theorem trial_payable (hb : Base s) (ht : Trial s) (hd : s.disputed = true) :
    Payable (voided s.tokensFinal s) ∧ WeekFits (voided s.tokensFinal s) := by
  have hzero : trustedOwed (voided s.tokensFinal s) = 0 := by
    simp [trustedOwed, voided, ht.tokensFinal]
  have hclock := disputed_start_le hb ht.toFrozen hd
  refine ⟨{ hb.toBacked with
    probe := fun ha => ?_
    clock := hclock
    booked := ?_
    charge := ?_ }, ?_⟩
  · rw [show (voided s.tokensFinal s).probeAccepted = s.probeAccepted from rfl,
      ht.unaccepted] at ha
    cases ha
  · simp [chargeWeeksThrough, unfrozen, voided, ht.unaccepted]
  · rw [hzero]
    simp [chargeOf, valueOf, fee, u128]
  · intro hkind
    simp [voided, ht.unaccepted] at hkind

/-! ### The timeout -/

theorem resolveDisputeTimeoutBody_subscription (hb : Base s) (hs : Streaming s)
    (hd : s.disputed = true) (hsub : s.subWeeks ≠ 0) :
    resolveDisputeTimeoutBody E s =
      settleTrustedAndClose E (disputeStake (disputeBooks s)) (disputeStake (disputeBooks s))
        (voided (standing (disputeBooks s)) (disputeBooks s)) := by
  obtain ⟨hbb, hsb⟩ := disputeBooks_invariant hb hs hd
  obtain ⟨c, d, o, f, p, b, heq, -⟩ := disputeBooks_spec hb hs
  have hne : (disputeBooks s).subWeeks ≠ 0 := by
    rw [heq]
    exact hsub
  have hkind : isSubscription (disputeBooks s) = true := by simp [isSubscription, hne]
  have hfits : checkStake (disputeBooks s) = disputeBooks s := stake_fits hbb hsb hne le_rfl
  unfold resolveDisputeTimeoutBody
  simp only [Deal.check_pass (disputed_start_le hb hs.toFrozen hd), disputeBooks_eq hs, hkind,
    if_true, hfits, liftDispute_eq hbb hsb]

def burnPending (p : ℕ) (s : Deal) : Deal := burnShell p { s with deposit := s.deposit - p }

theorem burnPending_invariant (hb : Base s) (hs : Streaming s) {p : ℕ} (hp : p ≤ s.deposit) :
    Base (burnPending p s) ∧ Streaming (burnPending p s) := by
  have hcov := hb.covered
  have hlt := hb.balance_lt
  unfold Deal.earmarks at hcov
  refine ⟨{ hb with covered := ?_, balance_lt := ?_ },
    { hs with shape := hs.shape.imp fun _ h => { h with } }⟩
  · simp only [burnPending, burnShell, Deal.sendIf, Deal.earmarks]
    omega
  · simp only [burnPending, burnShell, Deal.sendIf]
    omega

theorem burnPending_moved (hb : Backed s) {p : ℕ} (hp : p ≤ s.deposit) :
    Moved s (burnPending p s) 0 0 0 p := by
  have hcov := hb.covered
  unfold Deal.earmarks at hcov
  have hstart : Moved s { s with deposit := s.deposit - p } 0 0 0 0 := .regroup rfl rfl
  exact (hstart.trans (burnShell_moved (by dsimp only; omega))).of_eq rfl rfl rfl (by omega)

theorem burnPending_slack (hb : Backed s) {p : ℕ} (hp : p ≤ s.deposit) :
    (burnPending p s).balance - (burnPending p s).earmarks = s.balance - s.earmarks := by
  have hcov := hb.covered
  simp only [burnPending, burnShell, Deal.sendIf, Deal.earmarks] at hcov ⊢
  omega

def pendingBurn (s : Deal) : ℕ := min (pendingCharge s) s.deposit

theorem pendingCharge_lt (hb : Base s) (hs : Streaming s) : pendingCharge s < u128 := by
  have hslot := hs.slot
  have hunit := hb.ticks_lt (n := 1) (by have := hb.two_le_maxTicks; omega)
  rw [Nat.one_mul] at hunit
  unfold pendingCharge
  split
  · exact (chargeOf_le_unit (by omega)).trans_lt hunit
  · decide

theorem resolveDisputeTimeoutBody_ordinary (hb : Base s) (hs : Streaming s)
    (hd : s.disputed = true) (hz : s.subWeeks = 0) :
    resolveDisputeTimeoutBody E s =
      settleTrustedAndClose E (bondAmount s.pricePerTick) (bondAmount s.pricePerTick)
        (voided (standing s) (burnPending (pendingBurn s) s)) := by
  have hkind : isSubscription s = false := by simp [isSubscription, hz]
  have hcut : (if pendingCharge s > s.deposit then s.deposit else pendingCharge s) =
      pendingBurn s := by
    unfold pendingBurn
    split <;> omega
  have hbond : 2 * s.pricePerTick < u128 := hb.bond_lt
  unfold resolveDisputeTimeoutBody
  simp only [Deal.check_pass (disputed_start_le hb hs.toFrozen hd), chargeWeeksThrough_ordinary hz,
    hkind, Bool.false_eq_true, if_false, Deal.check_pass (pendingCharge_lt hb hs),
    liftDispute_eq hb hs]
  rw [show (voided (standing s) s).deposit = s.deposit from rfl, hcut]
  change settleTrustedAndClose E (2 * s.pricePerTick) (2 * s.pricePerTick)
    (Deal.check (voided (standing s) (burnPending (pendingBurn s) s))
      (2 * s.pricePerTick < u128)) = _
  rw [Deal.check_pass hbond]
  rfl

def timeoutStake (s : Deal) : ℕ :=
  if isSubscription s then disputeStake s else bondAmount s.pricePerTick

theorem resolveDisputeTimeoutBody_trial (hb : Base s) (ht : Trial s) (hd : s.disputed = true) :
    resolveDisputeTimeoutBody E s =
      settleTrustedAndClose E (timeoutStake s) (timeoutStake s) (voided s.tokensFinal s) := by
  have hweeks : chargeWeeksThrough (weeksElapsedAt s.disputeTime s) s = s := by
    simp [chargeWeeksThrough, ht.unaccepted]
  have hvoid : liftDispute s = voided s.tokensFinal s :=
    liftDispute_settled (ht.tokensPend.trans ht.tokensFinal.symm)
  have hfits : checkStake s = s := stake_fits_fresh hb.bond_lt ht.tokensPend
  unfold resolveDisputeTimeoutBody timeoutStake
  simp only [Deal.check_pass (disputed_start_le hb ht.toFrozen hd), hweeks]
  by_cases hsub : isSubscription s = true
  · rw [if_pos hsub, if_pos hsub, hfits, hvoid]
  · have hzero : pendingCharge s = 0 := by simp [pendingCharge, ht.tokensPend]
    have hpass : (0 : ℕ) < u128 := by decide
    have hbond : 2 * s.pricePerTick < u128 := hb.bond_lt
    rw [if_neg hsub, if_neg hsub, hzero]
    simp only [Deal.check_pass hpass, hvoid, Nat.not_lt_zero, gt_iff_lt, if_false, Nat.sub_zero,
      burnShell_zero]
    change settleTrustedAndClose E (2 * s.pricePerTick) (2 * s.pricePerTick)
      (Deal.check (voided s.tokensFinal s) (2 * s.pricePerTick < u128)) = _
    rw [Deal.check_pass hbond]
    rfl

/-! ## `destroy` and `close` -/

theorem returnBond_moved (h : s.sellerBond ≤ s.balance) :
    Moved s (returnBond s) 0 s.sellerBond 0 0 ∧
      (returnBond s).balance = s.balance - s.sellerBond := by
  unfold returnBond
  by_cases hz : s.sellerBond = 0
  · rw [if_pos hz, hz]
    exact ⟨.regroup rfl rfl, by omega⟩
  · rw [if_neg hz]
    have hstart : Moved s { s with sellerBond := 0, sellerBondFunded := false } 0 0 0 0 :=
      .regroup rfl rfl
    have hpay := paySeller_moved (s := { s with sellerBond := 0, sellerBondFunded := false })
      (a := s.sellerBond) h s.sellerNote
    exact ⟨(hstart.trans hpay).of_eq rfl (by omega) rfl rfl, rfl⟩

theorem returnAndSweep_moved (h : s.sellerBond ≤ s.balance) :
    Moved s (sweepAndDie (returnBond s)) 0 s.sellerBond (s.balance - s.sellerBond) 0 := by
  obtain ⟨hmove, hbal⟩ := returnBond_moved h
  exact (hmove.trans sweepAndDie_moved).of_eq rfl rfl (by omega) rfl

theorem refundUnopened_spec (hb : Base s) (hi : Idle s) :
    Moved s (refundUnopened s) (s.deposit + s.buyerBond) 0 0 0 ∧
      (refundUnopened s).balance = s.balance - (s.deposit + s.buyerBond) ∧
      (refundUnopened s).sellerBond = s.sellerBond := by
  have hcov := hb.covered
  have hlt := hb.balance_lt
  unfold Deal.earmarks at hcov
  have hprobe : releaseProbe s = s := by
    simp [releaseProbe, hi.probeTick]
  have hbond := releaseBuyerBond_eq (s := s) (by omega)
  let v : Deal := { s with deposit := 0, buyerBond := 0, funded := false }
  have heq : refundUnopened s = payShell .buyer s.buyer (s.deposit + s.buyerBond) v := by
    unfold refundUnopened
    simp only [hprobe, hbond]
    rfl
  have hstart : Moved s v 0 0 0 0 := .regroup rfl rfl
  have hpay : Moved v (payShell .buyer s.buyer (s.deposit + s.buyerBond) v)
      (s.deposit + s.buyerBond) 0 0 0 := payBuyer_moved (by dsimp only [v]; omega) s.buyer
  rw [heq]
  exact ⟨(hstart.trans hpay).of_eq (by omega) rfl rfl rfl, rfl, rfl⟩

/-! ## All exits together -/

def Settles (s t : Deal) : Prop :=
  ∃ a b d, Moved s t a b
    (s.balance - s.earmarks + if s.funded then 0 else s.buyerBond) d

theorem settles_of_moved {a b d : ℕ} (hf : s.funded = true)
    (h : Moved s t a b (s.balance - s.earmarks) d) : Settles s t :=
  ⟨a, b, d, h.of_eq rfl rfl (by simp [hf]) rfl⟩

theorem stop_settles (h : Invariant s) (hok : stop E m s = .ok t) : Settles s t := by
  simp only [stop, require_bind_ok, pure_ok, Except.ok.injEq] at hok
  obtain ⟨ho, -, -, rfl⟩ := hok
  have hb := h.base
  have hfu := h.funded_of_opened ho
  rcases h.stage with hi | ht | hs
  · rw [hi.closed] at ho
    cases ho
  · have heq : stopBody E s = stopOnProbe s := by
      simp [stopBody, ht.unaccepted]
    rw [heq]
    exact settles_of_moved hfu ((stopOnProbe_moved hb.toBacked).of_eq rfl rfl
      (by rw [ht.feeAccrued, Nat.add_zero]) rfl)
  · by_cases hz : s.subWeeks = 0
    · rw [stopBody_ordinary hb hs hz]
      exact settles_of_moved hfu (ordinary_close_moved (x := s.tokensPend) (y := s.tokensPend)
        (B := s.pricePerTick) (S := 0) hb hs hz le_rfl
        (hs.tick_le_final.trans hs.final_le_pend))
    · have hweeks := hs.weeks
      have hcap := weeksStartedAt_le s.now s
      rw [stopBody_subscription hb hs hz]
      exact settles_of_moved hfu (weeks_close_moved (x := matured s)
        (k := weeksStarted s - s.weekIndex) hb hs hz (matured_le hs) (by
          unfold weeksStarted
          omega))

theorem sellerStop_settles (h : Invariant s) (hok : sellerStop E m s = .ok t) :
    Settles s t := by
  simp only [sellerStop, require_bind_ok, pure_ok, Except.ok.injEq] at hok
  obtain ⟨-, ho, -, rfl⟩ := hok
  have hb := h.base
  have hfu := h.funded_of_opened ho
  rcases h.stage with hi | ht | hs
  · rw [hi.closed] at ho
    cases ho
  · exact settles_of_moved hfu (sellerStopBody_trial_moved hb ht)
  · by_cases hz : s.subWeeks = 0
    · rw [sellerStopBody_ordinary hb hs hz]
      exact settles_of_moved hfu (ordinary_close_moved (x := matured s) (y := matured s)
        (B := 0) (S := s.pricePerTick) hb hs hz (matured_le hs)
        (hs.tick_le_final.trans (tokensFinal_le_matured hs)))
    · have hweeks := hs.weeks
      have hcap := weeksElapsedAt_le s.now s
      rw [sellerStopBody_subscription hb hs hz]
      exact settles_of_moved hfu (weeks_close_moved (x := matured s)
        (k := weeksElapsed s - s.weekIndex) hb hs hz (matured_le hs) (by
          unfold weeksElapsed
          omega))

theorem burnStakes_none (hb : Backed s) : burnStakes 0 0 s = s := by
  have hz : ∀ b : ℕ, cut 0 b = 0 := fun b => by simp [cut]
  rw [burnStakes_eq hb]
  simp [hz, burnShell_zero]

theorem finalize_close_moved (hb : Base s) (hs : Streaming s) (hz : s.subWeeks = 0) :
    let w := paidUp (s.tokensPend - tickSize) s.tokensPend (trusting s.tokensPend s)
    Moved s (payFinalAndClose E (trusting s.tokensPend s)) (w.deposit + s.buyerBond)
      (w.finalizedOwed + s.sellerBond + cleanRebate w) (s.balance - s.earmarks)
      (w.feeAccrued - cleanRebate w) := by
  intro w
  have hcut : ∀ b : ℕ, cut 0 b = 0 := fun b => by simp [cut]
  have hmove := ordinary_close_moved (E := E) (x := s.tokensPend) (y := s.tokensPend)
    (B := 0) (S := 0) hb hs hz le_rfl (hs.tick_le_final.trans hs.final_le_pend)
  have hback : Backed { trusting s.tokensPend s with tokensPend := s.tokensPend } :=
    { hb.toBacked with }
  rw [burnStakes_none hback] at hmove
  simp only [hcut, Nat.sub_zero, Nat.zero_add] at hmove
  exact hmove

theorem finalize_settles (h : Invariant s) (hok : finalize E s = .ok t) :
    t.fault = s.fault ∧ (t.destroyed = true → s.destroyed = true ∨ Settles s t) := by
  obtain ⟨ho, -, hp, -, rfl | ⟨hz, -, rfl⟩⟩ := finalize_ok hok h.base.promote_lt
  · exact ⟨rfl, fun hd => .inl hd⟩
  · have hs := h.streaming_of_pending hp
    have hmove := finalize_close_moved (E := E) h.base hs hz
    exact ⟨hmove.fault, fun _ => .inr (settles_of_moved (h.funded_of_opened ho) hmove)⟩

theorem booked_regroups (hb : Base s) (hs : Streaming s) (h : Booked (settledBooks s) u) :
    Moved s u 0 0 0 0 ∧ u.balance - u.earmarks = s.balance - s.earmarks ∧
      u.destroyed = s.destroyed := by
  obtain ⟨c, d, o, f, p, b, heq, hsum⟩ := settledBooks_spec hb hs
  have hq := h.toQuiet
  have hu := h.eq
  rw [heq] at hq hu
  refine ⟨⟨?_, hq.buyer, hq.seller, hq.residual, hq.burned, hq.withdrawn⟩, ?_, ?_⟩
  · rw [hu]
  · rw [hu]
    simp only [Deal.earmarks]
    omega
  · rw [hu]

theorem settleWeek_settles (h : Invariant s) (hok : settleWeek E s = .ok t) :
    t.fault = s.fault ∧ (t.destroyed = true → s.destroyed = true ∨ Settles s t) := by
  obtain ⟨hsub, hs, -, -, u, hu, hbu, hsu, hcase⟩ := settleWeek_inv h hok
  obtain ⟨hmove, hslack, hdead⟩ := booked_regroups h.base hs hu
  have hne : u.subWeeks ≠ 0 := by
    obtain ⟨c, d, o, f, p, b, heq, -⟩ := settledBooks_spec h.base hs
    rw [hu.eq, heq]
    exact hsub
  rcases hcase with ⟨rfl, -⟩ | ⟨-, -, rfl⟩
  · refine ⟨hmove.fault, fun hd => .inl ?_⟩
    rw [← hdead]
    exact hd
  · have hclose := weeks_close_moved (E := E) (x := u.tokensPend) (k := 0) hbu hsu hne le_rfl
      hsu.weeks
    have hall := (hmove.trans hclose).of_eq rfl rfl
      (show 0 + (u.balance - u.earmarks) = s.balance - s.earmarks by omega) rfl
    exact ⟨hall.fault, fun _ => .inr (settles_of_moved hs.funded hall)⟩

theorem disputeBooks_regroups (hb : Base s) (hs : Streaming s) :
    Moved s (disputeBooks s) 0 0 0 0 ∧
      (disputeBooks s).balance - (disputeBooks s).earmarks = s.balance - s.earmarks := by
  obtain ⟨c, d, o, f, p, b, heq, hsum⟩ := disputeBooks_spec hb hs
  rw [heq]
  refine ⟨.regroup rfl rfl, ?_⟩
  simp only [Deal.earmarks]
  omega

theorem resolution_settles {x B S : ℕ} (hfu : s.funded = true) (hsu : Moved s u 0 0 0 d)
    (hslack : u.balance - u.earmarks = s.balance - s.earmarks)
    (hpay : Payable (voided x u) ∧ WeekFits (voided x u)) :
    Settles s (settleTrustedAndClose E B S (voided x u)) := by
  have hmove := settleTrustedAndClose_moved (E := E) (B := B) (S := S) hpay.1 hpay.2
  have hstart : Moved u (voided x u) 0 0 0 0 := .regroup rfl rfl
  have hall := (hsu.trans hstart).trans hmove
  rw [show (voided x u).balance - (voided x u).earmarks = u.balance - u.earmarks from rfl,
    hslack] at hall
  exact settles_of_moved hfu (hall.of_eq rfl rfl (by omega) rfl)

theorem disputed_stage (h : Invariant s) (hd : s.disputed = true) : Trial s ∨ Streaming s := by
  rcases h.stage with hi | ht | hs
  · rw [hi.undisputed] at hd
    cases hd
  · exact .inl ht
  · exact .inr hs

theorem disputeTime_lt (h : Invariant s) (hd : s.disputed = true) :
    s.disputeTime + disputeWindow < u64 := by
  have hclock := h.base.clock
  have hnow : s.disputeTime ≤ s.now := by
    rcases disputed_stage h hd with ht | hs
    · exact ht.now_le hd
    · exact hs.now_le hd
  unfold u64 disputeWindow
  omega

theorem disputeBooks_clock (hb : Base s) (hs : Streaming s) (hd : s.disputed = true) :
    (disputeBooks s).periodStart ≤ (disputeBooks s).disputeTime := by
  obtain ⟨c, d, o, f, p, b, heq, -⟩ := disputeBooks_spec hb hs
  have hclock := disputed_start_le hb hs.toFrozen hd
  rw [heq]
  exact hclock

theorem releaseDispute_settles (h : Invariant s) (hok : releaseDispute E m s = .ok t) :
    Settles s t := by
  simp only [releaseDispute, require_bind_ok, pure_ok, Except.ok.injEq] at hok
  obtain ⟨-, hd, rfl⟩ := hok
  have hb := h.base
  rcases disputed_stage h hd with ht | hs
  · rw [releaseDisputeBody_trial hb ht hd]
    exact resolution_settles ht.funded (.regroup rfl rfl) rfl (trial_payable hb ht hd)
  · obtain ⟨hbb, hsb⟩ := disputeBooks_invariant hb hs hd
    obtain ⟨hmove, hslack⟩ := disputeBooks_regroups hb hs
    rw [releaseDisputeBody_streaming hb hs hd]
    exact resolution_settles hs.funded hmove hslack (voided_payable hbb hsb
      (disputeBooks_closed hb hs) (disputeBooks_clock hb hs hd) (standing_le hsb))

theorem resolveDisputeTimeout_settles (h : Invariant s)
    (hok : resolveDisputeTimeout E s = .ok t) : Settles s t := by
  simp only [resolveDisputeTimeout, require_bind_ok, pure_ok, Except.ok.injEq] at hok
  obtain ⟨hd, -, rfl⟩ := hok
  have hb := h.base
  rw [Deal.check_pass (disputeTime_lt h hd)]
  rcases disputed_stage h hd with ht | hs
  · rw [resolveDisputeTimeoutBody_trial hb ht hd]
    exact resolution_settles ht.funded (.regroup rfl rfl) rfl (trial_payable hb ht hd)
  · by_cases hz : s.subWeeks = 0
    · have hle : pendingBurn s ≤ s.deposit := min_le_right _ _
      obtain ⟨hbp, hsp⟩ := burnPending_invariant hb hs hle
      have hclosed : BooksClosed (burnPending (pendingBurn s) s) := by
        change weeksElapsedAt s.disputeTime s ≤ s.weekIndex
        have hcap := weeksElapsedAt_le s.disputeTime s
        omega
      have hclock := disputed_start_le hb hs.toFrozen hd
      rw [resolveDisputeTimeoutBody_ordinary hb hs hd hz]
      exact resolution_settles hs.funded (burnPending_moved hb.toBacked hle)
        (burnPending_slack hb.toBacked hle) (voided_payable hbp hsp hclosed hclock (standing_le hs))
    · obtain ⟨hbb, hsb⟩ := disputeBooks_invariant hb hs hd
      obtain ⟨hmove, hslack⟩ := disputeBooks_regroups hb hs
      rw [resolveDisputeTimeoutBody_subscription hb hs hd hz]
      exact resolution_settles hs.funded hmove hslack (voided_payable hbb hsb
        (disputeBooks_closed hb hs) (disputeBooks_clock hb hs hd) (standing_le hsb))

theorem destroy_settles (h : Invariant s) (hok : destroy m s = .ok t) : Settles s t := by
  simp only [destroy, require_bind_ok, pure_ok, Except.ok.injEq] at hok
  obtain ⟨-, ho, -, -, rfl⟩ := hok
  have hb := h.base
  have hi := h.idle ho
  have hcov := hb.covered
  have hprobe := hi.probeTick
  have howed := hi.finalizedOwed
  have hfee := hi.feeAccrued
  unfold Deal.earmarks at hcov
  cases hf : s.funded with
  | true =>
    rw [if_pos rfl]
    obtain ⟨hmove, hbal, hbond⟩ := refundUnopened_spec hb hi
    have hsweep := returnAndSweep_moved (s := refundUnopened s) (by omega)
    refine ⟨_, _, _, (hmove.trans hsweep).of_eq rfl rfl ?_ rfl⟩
    simp only [hf, if_true, Deal.earmarks]
    omega
  | false =>
    rw [if_neg (by simp)]
    have hdep := hi.unfunded hf
    refine ⟨_, _, _, (returnAndSweep_moved (by omega)).of_eq rfl rfl ?_ rfl⟩
    simp only [hf, Bool.false_eq_true, if_false, Deal.earmarks]
    omega

theorem close_settles (h : Invariant s) (hok : close m s = .ok t) : Settles s t := by
  simp only [close, require_bind_ok, pure_ok, Except.ok.injEq] at hok
  obtain ⟨-, hf, -, rfl⟩ := hok
  have hi := h.idle (h.closed_of_unfunded hf)
  have hcov := h.base.covered
  have hprobe := hi.probeTick
  have howed := hi.finalizedOwed
  have hfee := hi.feeAccrued
  have hdep := hi.unfunded hf
  unfold Deal.earmarks at hcov
  refine ⟨_, _, _, (returnAndSweep_moved (by omega)).of_eq rfl rfl ?_ rfl⟩
  simp only [hf, Bool.false_eq_true, if_false, Deal.earmarks]
  omega

theorem withdrawShell_settles {amount : ℕ} (h : Invariant s)
    (hok : withdrawShell amount m s = .ok t) : t = drawn amount s := by
  obtain ⟨hpos, howed, -, rfl | ⟨-, ho, -⟩⟩ := withdrawShell_ok hok
  · rfl
  · have hs := h.streaming_of_owed (hpos.trans_le howed)
    rw [hs.opened] at ho
    cases ho

def IsExit : Call → Prop
  | .stop | .sellerStop | .finalize | .settleWeek | .releaseDispute | .resolveDisputeTimeout
  | .cleanupUnopened | .withdrawShell _ | .close | .destroy => True
  | _ => False

theorem cleanup_fault (h : Invariant s) (hok : cleanupUnopened m s = .ok t)
    (hf : s.fault = false) : t.fault = false ↔ m.shellAttached < u64 := by
  obtain ⟨-, -, -, -, ht⟩ := cleanupUnopened_ok hok
  have hb := h.base
  have htime : s.fundedTime + matchOpenTimeout < u64 := by
    have h1 := hb.funded_le
    have h2 := hb.clock
    unfold u64 matchOpenTimeout
    omega
  rw [ht, cleanupUnopenedBody_eq hb.toBacked]
  simp [cleanupFault, hf, htime]

theorem exit_fault {c : Call} (h : Invariant s) (hf : s.fault = false) (hc : IsExit c)
    (hok : dispatch E m s c = .ok t) :
    t.fault = false ↔ (c = .cleanupUnopened → m.shellAttached < u64) := by
  have hsettles : c ≠ .cleanupUnopened → t.fault = false := by
    intro hne
    have hmoved : Settles s t → t.fault = false := by
      rintro ⟨a, b, d, hmove⟩
      rw [hmove.fault, hf]
    cases c with
    | stop => exact hmoved (stop_settles h hok)
    | sellerStop => exact hmoved (sellerStop_settles h hok)
    | finalize => rw [(finalize_settles h hok).1, hf]
    | settleWeek => rw [(settleWeek_settles h hok).1, hf]
    | releaseDispute => exact hmoved (releaseDispute_settles h hok)
    | resolveDisputeTimeout => exact hmoved (resolveDisputeTimeout_settles h hok)
    | cleanupUnopened => exact absurd rfl hne
    | withdrawShell a =>
      obtain ⟨-, -, hbal, -⟩ := withdrawShell_ok hok
      rw [withdrawShell_settles h hok, drawn_eq hbal]
      exact hf
    | close => exact hmoved (close_settles h hok)
    | destroy => exact hmoved (destroy_settles h hok)
    | _ => exact absurd hc (by simp [IsExit])
  by_cases hcl : c = .cleanupUnopened
  · subst hcl
    rw [cleanup_fault h hok hf]
    simp
  · simp [hcl, hsettles hcl]

theorem perform_ok {tx : Tx} (h : perform E tx s = .ok t) :
    s.destroyed = false ∧ dispatch E tx.msg (enter tx.msg s) tx.call = .ok t := by
  unfold perform at h
  cases hd : s.destroyed with
  | true => simp [hd] at h
  | false =>
    simp only [hd, Bool.false_eq_true, if_false] at h
    exact ⟨rfl, h⟩

/-- On every deal that can be reached, a settling call that met its guards runs to its end
without an arithmetic exception or a conversion that loses bits, except that the cleanup
narrows what its caller attached. -/
theorem settlement_arithmetic (s t : Deal) (tx : Tx) (h : Reachable E AnyTx s)
    (ha : Admissible s tx) (hc : IsExit tx.call) (hok : perform E tx s = .ok t) :
    t.fault = false ↔ (tx.call = .cleanupUnopened → tx.msg.shellAttached < u64) := by
  obtain ⟨hlive, hd⟩ := perform_ok hok
  have hinv := (reachable_invariant h hlive).enter ha.later ha.clock
  exact exit_fault hinv rfl hc hd

theorem exists_of_isOk {ε α : Type} {x : Except ε α} (h : x.isOk = true) : ∃ a, x = .ok a := by
  cases x with
  | error e => simp [Except.isOk, Except.toBool] at h
  | ok a => exact ⟨a, rfl⟩

def matchedSchedule : List Tx :=
  [noteTx 10 (.postFromNote 1 1 0 0 0), bookTx 20 (.fundFromOrderBook 4100000000 8 4 0)]

theorem settlement_arithmetic_cleanup :
    ∃ s t, Reachable sampleEnv AnyTx s ∧
      perform sampleEnv (buyerTx 30 .cleanupUnopened) s = .ok t ∧ t.fault = false := by
  have hplay : (played AnyTx matchedSchedule).any (fun s =>
      decide (Admissible s (buyerTx 30 .cleanupUnopened)) &&
        (perform sampleEnv (buyerTx 30 .cleanupUnopened) s).isOk) = true := by
    decide
  obtain ⟨s, hs, hp⟩ := played_reachable hplay
  simp only [Bool.and_eq_true, decide_eq_true_eq] at hp
  obtain ⟨t, ht⟩ := exists_of_isOk hp.2
  exact ⟨s, t, hs, ht, (settlement_arithmetic s t _ hs hp.1 trivial ht).mpr (fun _ => by decide)⟩

/-- The buyer's cleanup with `2 ^ 64` units attached: every guard passes and the conversion to
`uint64` loses them. -/
theorem cleanup_loses_attached_shell :
    ∃ s t, Reachable sampleEnv AnyTx s ∧
      perform sampleEnv ⟨{ sender := 8, pubkey := 0, now := 30, shellAttached := 2 ^ 64 },
        .cleanupUnopened⟩ s = .ok t ∧ t.fault = true := by
  have hplay : (played AnyTx matchedSchedule).any (fun s =>
      match perform sampleEnv ⟨{ sender := 8, pubkey := 0, now := 30, shellAttached := 2 ^ 64 },
        .cleanupUnopened⟩ s with
      | .ok t => t.fault
      | .error _ => false) = true := by
    decide
  obtain ⟨s, hs, hp⟩ := played_reachable hplay
  split at hp
  · rename_i t ht
    exact ⟨s, t, hs, ht, hp⟩
  · cases hp

end TokenContractExits
