import Dexdo.TokenContractDisputes

/-! # What a dispute costs the buyer of a subscription

`stop` charges the weeks started; a dispute books the weeks completed, pays the claims that
stand, burns the rest of the week under way and takes a stake. The two routes meet: past the
trial the dispute leaves the buyer exactly the stake below `stop`. -/
namespace TokenContractExitCost

open TokenContractState TokenContractCalls TokenContractCharges TokenContractPayouts
open TokenContractSteps TokenContractInvariant TokenContractExits TokenContractStreaming
open TokenContractClaims TokenContractLedger TokenContractSplit TokenContractDisputes

variable {E : Env} {m : Msg} {s t u v : Deal} {c : Call}

/-! ## The stake -/

def bookedBase (s : Deal) : ℕ :=
  if weeksElapsedAt s.disputeTime s = 0 then s.tokensPaid
  else if weeksElapsedAt s.disputeTime s = s.weekIndex then s.weekBaseTokens
  else s.tokensPend

/-- The stake a resolution by `c` burns from each bond it touches: the value of the claims beyond
that mark, at least one tick and at most the bond. A release voids the immature claim first. -/
def stakeOf (c : Call) (s : Deal) : ℕ :=
  let claimed := if c = .releaseDispute then standing s else s.tokensPend
  min (max s.pricePerTick (chargeOf s.pricePerTick (claimed - bookedBase s)))
    (bondAmount s.pricePerTick)

theorem stakeOf_bounds (c : Call) (s : Deal) :
    s.pricePerTick ≤ stakeOf c s ∧ stakeOf c s ≤ 2 * s.pricePerTick := by
  unfold stakeOf bondAmount
  dsimp only
  omega

theorem disputeStake_eq (hsub : s.subWeeks ≠ 0) (hb : s.buyerBond = bondAmount s.pricePerTick)
    (hsb : s.sellerBond = bondAmount s.pricePerTick) :
    disputeStake s = min (max s.pricePerTick
      (chargeOf s.pricePerTick (s.tokensPend - claimBase s))) (bondAmount s.pricePerTick) := by
  have hkind : isSubscription s = true := by simp [isSubscription, hsub]
  have hunpaid : claimedUnpaid s = s.tokensPend - claimBase s := by
    unfold claimedUnpaid
    split <;> omega
  unfold disputeStake
  simp only [hkind, if_true, hb, hsb, hunpaid]
  generalize chargeOf s.pricePerTick (s.tokensPend - claimBase s) = x
  unfold bondAmount
  split_ifs <;> omega

theorem disputeWeeks_ge (hs : Streaming s) (hd : s.disputed = true) :
    s.weekIndex ≤ weeksElapsedAt s.disputeTime s := by
  have hweek := hs.week_le hd
  exact le_min ((Nat.le_div_iff_mul_le (by decide)).mpr hweek) hs.weeks

/-- The books at the dispute, with the marks they hold. -/
theorem disputeBooks_marks (hb : Base s) (hs : Streaming s) (hd : s.disputed = true)
    (hsub : s.subWeeks ≠ 0) :
    ∃ c d o f p b, disputeBooks s = { s with
        clamped := c, deposit := d, finalizedOwed := o, feeAccrued := f
        tokensPaid := p, weekIndex := weeksElapsedAt s.disputeTime s, weekBaseTokens := b } ∧
      claimBase (disputeBooks s) = bookedBase s := by
  have hge := disputeWeeks_ge hs hd
  have hle := weeksElapsedAt_le s.disputeTime s
  obtain ⟨c, d, o, f, p, b, heq, -, hzero, hpos⟩ := chargeWeeks_spec hb.toBacked
    (Invariant.weekly hb hs) (weeksElapsedAt s.disputeTime s - s.weekIndex) (by omega)
  rw [Nat.add_sub_cancel' hge] at heq
  have hbooks : disputeBooks s = { s with
      clamped := c, deposit := d, finalizedOwed := o, feeAccrued := f
      tokensPaid := p, weekIndex := weeksElapsedAt s.disputeTime s, weekBaseTokens := b } := heq
  refine ⟨c, d, o, f, p, b, hbooks, ?_⟩
  rw [hbooks]
  have hkind : (s.subWeeks != 0) = true := by simp [hsub]
  unfold bookedBase
  simp only [claimBase, isSubscription, hkind, Bool.true_and, decide_eq_true_eq]
  by_cases h0 : weeksElapsedAt s.disputeTime s = 0
  · have hp := (hzero (by omega)).1
    simp [h0, hp]
  · by_cases h1 : weeksElapsedAt s.disputeTime s = s.weekIndex
    · have hb' := (hzero (by omega)).2
      have hne : s.weekIndex ≠ 0 := by omega
      simp only [h1, hne, if_false, if_true]
      simp [Nat.pos_of_ne_zero hne, hb']
    · have hb' := (hpos (by omega)).2
      rw [max_eq_right hs.final_le_pend] at hb'
      simp [h0, h1, Nat.pos_of_ne_zero h0, hb']

/-- Both resolutions take the stake that the frozen record fixes. -/
theorem stake_taken (hb : Base s) (hs : Streaming s) (hd : s.disputed = true)
    (hbond : s.buyerBond = bondAmount s.pricePerTick) (hsub : s.subWeeks ≠ 0) :
    disputeStake (disputeBooks s) = stakeOf .resolveDisputeTimeout s ∧
    disputeStake (voided (standing (disputeBooks s)) (disputeBooks s)) =
      stakeOf .releaseDispute s := by
  obtain ⟨cl, d, o, f, p, b, heq, hbase⟩ := disputeBooks_marks hb hs hd hsub
  have hsbond : s.sellerBond = bondAmount s.pricePerTick := by
    rw [hb.sellerBond, hs.bonded]
    rfl
  have hstand := standing_disputeBooks hb hs
  have hfields : (disputeBooks s).subWeeks = s.subWeeks ∧
      (disputeBooks s).buyerBond = s.buyerBond ∧ (disputeBooks s).sellerBond = s.sellerBond ∧
      (disputeBooks s).pricePerTick = s.pricePerTick ∧
      (disputeBooks s).tokensPend = s.tokensPend := by
    rw [heq]
    exact ⟨rfl, rfl, rfl, rfl, rfl⟩
  obtain ⟨h1, h2, h3, h4, h5⟩ := hfields
  refine ⟨?_, ?_⟩
  · rw [disputeStake_eq (by rw [h1]; exact hsub) (by rw [h2, h4, hbond]) (by rw [h3, h4, hsbond]),
      hbase, h4, h5]
    rfl
  · have hv : claimBase (voided (standing (disputeBooks s)) (disputeBooks s)) = bookedBase s :=
      hbase
    rw [disputeStake_eq (s := voided (standing (disputeBooks s)) (disputeBooks s))
      (by change (disputeBooks s).subWeeks ≠ 0; rw [h1]; exact hsub)
      (by change (disputeBooks s).buyerBond = bondAmount (disputeBooks s).pricePerTick
          rw [h2, h4, hbond])
      (by change (disputeBooks s).sellerBond = bondAmount (disputeBooks s).pricePerTick
          rw [h3, h4, hsbond]), hv]
    change min (max (disputeBooks s).pricePerTick (chargeOf (disputeBooks s).pricePerTick
      (standing (disputeBooks s) - bookedBase s))) (bondAmount (disputeBooks s).pricePerTick) = _
    rw [h4, hstand]
    rfl

/-! ## The refund -/

theorem standing_in_week (hs : Streaming s) (hw : Whole s) (hsub : s.subWeeks ≠ 0) {x : ℕ}
    (hx : x ≤ s.tokensPend) :
    s.tokensPaid + (x - claimBase s) ≤ (s.weekIndex + 1) * s.tokensPerWeek := by
  have hquota := hs.quota hsub
  have htick := hw.quota hsub
  have hkind : (s.subWeeks != 0) = true := by simp [hsub]
  have hsplit : (s.weekIndex + 1) * s.tokensPerWeek =
      s.weekIndex * s.tokensPerWeek + s.tokensPerWeek := by ring
  rw [hsplit, hs.paid]
  simp only [claimBase, isSubscription, hkind, Bool.true_and, decide_eq_true_eq]
  by_cases hz : s.weekIndex = 0
  · have hpaid := hs.paid
    have hbase := hs.base_zero hz
    rw [if_pos hz] at hpaid
    simp only [hz, hpaid, if_true, gt_iff_lt, lt_self_iff_false, if_false]
    omega
  · have hbase := hs.base_pos hz
    simp only [hz, if_false, gt_iff_lt, Nat.pos_of_ne_zero hz, if_true]
    omega

theorem unstarted_split (ts : ℕ) (hd : ts = s.disputeTime) :
    weeksStartedAt ts s * s.tokensPerWeek + unstartedTokens s = s.subWeeks * s.tokensPerWeek := by
  subst hd
  have hle := weeksStartedAt_le s.disputeTime s
  unfold unstartedTokens
  dsimp only
  rw [← Nat.add_mul]
  split
  · rw [Nat.add_sub_cancel' hle]
  · rw [Nat.add_zero, show weeksStartedAt s.disputeTime s = s.subWeeks by omega]

/-- The refund of a resolved dispute is the escrow of the weeks not started. -/
theorem refund_eq (hb : Base s) (hs : Streaming s) (hd : s.disputed = true) (hw : Whole s)
    (hp : Paying s) (hsub : s.subWeeks ≠ 0) {x k : ℕ} (hx : x ≤ s.tokensPend) :
    let r := voided x (disputeBooks s)
    disputeRefund (paidUp (trustedOwed r) k (unfrozen r)) = unstartedCharge s := by
  intro r
  have hge := disputeWeeks_ge hs hd
  have hle := weeksElapsedAt_le s.disputeTime s
  obtain ⟨hbb, hsb⟩ := disputeBooks_invariant hb hs hd
  obtain ⟨hwb, hpb, -⟩ := chargeWeeks_paying hb hs hw hp
    (k := weeksElapsedAt s.disputeTime s - s.weekIndex) (by omega)
  obtain ⟨cl, d, o, f, p, b, heq, -⟩ := disputeBooks_marks hb hs hd hsub
  have hfields : (disputeBooks s).subWeeks = s.subWeeks ∧
      (disputeBooks s).tokensPerWeek = s.tokensPerWeek ∧
      (disputeBooks s).weekIndex = weeksElapsedAt s.disputeTime s ∧
      (disputeBooks s).pricePerTick = s.pricePerTick ∧
      (disputeBooks s).fundedTokens = s.fundedTokens ∧
      (disputeBooks s).tokensPend = s.tokensPend ∧ (disputeBooks s).probeTick = s.probeTick ∧
      (disputeBooks s).probeAccepted = s.probeAccepted ∧
      unstartedCharge (disputeBooks s) = unstartedCharge s := by
    rw [heq]
    exact ⟨rfl, rfl, rfl, rfl, rfl, rfl, rfl, rfl, rfl⟩
  obtain ⟨h1, h2, h3, h4, h5, h6, h7, h8, h9⟩ := hfields
  have howed : trustedOwed r = x - claimBase (disputeBooks s) := by
    have hbase : claimBase r = claimBase (disputeBooks s) := rfl
    unfold trustedOwed
    rw [hbase]
    change (if x > claimBase (disputeBooks s) then x - claimBase (disputeBooks s) else 0) = _
    split <;> omega
  have hweek := standing_in_week hsb hwb (by rw [h1]; exact hsub) (x := x) (by rw [h6]; exact hx)
  -- what is left of the deposit covers the weeks not started
  have hcover : unstartedCharge s ≤ (disputeBooks s).deposit - taken (trustedOwed r) r := by
    have hterm := hw.term hsub
    have hsplit := unstarted_split (s := s) s.disputeTime rfl
    have hescrow := hpb.escrow
    change (disputeBooks s).deposit + _ = _ at hescrow
    have htaken : taken (trustedOwed r) r ≤ chargeOf s.pricePerTick (trustedOwed r) := by
      have hmin : taken (trustedOwed r) r ≤ chargeOf r.pricePerTick (trustedOwed r) :=
        min_le_left _ _
      rw [show r.pricePerTick = s.pricePerTick from h4] at hmin
      exact hmin
    unfold unstartedCharge
    by_cases hlast : weeksElapsedAt s.disputeTime s < s.subWeeks
    · have hstarted : weeksStartedAt s.disputeTime s = weeksElapsedAt s.disputeTime s + 1 := by
        unfold weeksStartedAt
        rw [if_pos hlast]
      have hsum : (disputeBooks s).tokensPaid + trustedOwed r + unstartedTokens s ≤
          s.fundedTokens := by
        rw [howed, ← hterm, ← hsplit, hstarted]
        rw [h3, h2] at hweek
        omega
      have hmono := chargeOf_mono s.pricePerTick hsum
      rw [chargeOf_add hw.step, chargeOf_add hw.step] at hmono
      rw [show (chargeWeek^[weeksElapsedAt s.disputeTime s - s.weekIndex] s).pricePerTick =
        s.pricePerTick from h4,
        show (chargeWeek^[weeksElapsedAt s.disputeTime s - s.weekIndex] s).fundedTokens =
        s.fundedTokens from h5] at hescrow
      change (disputeBooks s).deposit + chargeOf s.pricePerTick (disputeBooks s).tokensPaid = _
        at hescrow
      omega
    · have hzero : unstartedTokens s = 0 := by
        unfold unstartedTokens weeksStartedAt
        dsimp only
        rw [if_neg hlast, if_neg (by omega), Nat.zero_mul]
      rw [hzero]
      simp [chargeOf, valueOf, fee]
  have hkind : (isSubscription (disputeBooks s) && (disputeBooks s).probeAccepted) = true := by
    simp [isSubscription, h1, hsub, h8, hs.accepted]
  have hprobe : unfrozen r = r := by
    have hz : r.probeTick = 0 := h7.trans hs.probeTick
    unfold unfrozen
    rw [hz]
    simp only [Nat.add_zero]
    rw [← hz]
  have hrefund : ∀ n : ℕ, disputeRefund (paidUp n k r) =
      min (unstartedCharge (disputeBooks s)) ((disputeBooks s).deposit - taken n r) := by
    intro n
    unfold disputeRefund
    exact if_pos hkind
  rw [hprobe, hrefund, h9]
  exact min_eq_left hcover

/-- What a resolved dispute credits the buyer of a subscription past its trial. -/
theorem resolution_credit (hb : Base s) (hs : Streaming s) (hd : s.disputed = true) (hl : Ledger s)
    (hsub : s.subWeeks ≠ 0) {B S : ℕ} (hbs : B ≤ bondAmount s.pricePerTick) :
    (settleTrustedAndClose E B S
      (voided (standing (disputeBooks s)) (disputeBooks s))).credited .buyer + B =
      s.credited .buyer + unstartedCharge s + bondAmount s.pricePerTick := by
  have hw := hl.whole hs.funded
  obtain ⟨hbb, hsb⟩ := disputeBooks_invariant hb hs hd
  obtain ⟨hmove, -⟩ := disputeBooks_regroups hb hs
  obtain ⟨cl, d, o, f, p, b, heq, -⟩ := disputeBooks_marks hb hs hd hsub
  have hfields : (disputeBooks s).buyerBond = s.buyerBond ∧
      (disputeBooks s).tokensPend = s.tokensPend := by
    rw [heq]
    exact ⟨rfl, rfl⟩
  have hstand := standing_le hsb
  rw [hfields.2] at hstand
  have hpay := voided_payable hbb hsb (disputeBooks_closed hb hs) (disputeBooks_clock hb hs hd)
    (standing_le hsb)
  have hclose := settleTrustedAndClose_moved (E := E) (B := B) (S := S) hpay.1 hpay.2
  have hstart : Moved (disputeBooks s) (voided (standing (disputeBooks s)) (disputeBooks s))
    0 0 0 0 := .regroup rfl rfl
  have hbuyer := ((hmove.trans hstart).trans hclose).buyer
  rw [refund_eq hb hs hd hw (hl.paying hs.accepted) hsub hstand] at hbuyer
  change _ = s.credited .buyer + (0 + 0 + (unstartedCharge s +
    ((disputeBooks s).buyerBond - cut B (disputeBooks s).buyerBond))) at hbuyer
  have hcut : cut B (bondAmount s.pricePerTick) = B := if_neg (by omega)
  rw [hfields.1, (hw.bond hsub).1, hcut] at hbuyer
  omega

/-- What `stop` credits him. -/
theorem stop_credit_subscription (hi : Invariant s) (hs : Streaming s) (hl : Ledger s)
    (hsub : s.subWeeks ≠ 0) (hok : stop E m s = .ok t) :
    paidOut .buyer s t + chargeOf s.pricePerTick (weeksStarted s * s.tokensPerWeek) =
      chargeOf s.pricePerTick s.fundedTokens + bondAmount s.pricePerTick := by
  have hw := hl.whole hs.funded
  have hsplit := (stop_split hi hs hl (hw.bond hsub).1 hok).buyer
  have hquota := hw.quota hsub
  have hone : 1 ≤ weeksStarted s := by
    unfold weeksStarted weeksStartedAt
    split <;> omega
  have hsettled : settledTokens .stop s = weeksStarted s * s.tokensPerWeek := by
    have hle := Nat.mul_le_mul_right s.tokensPerWeek hone
    have hweeks : settledWeeks .stop s = weeksStarted s := rfl
    unfold settledTokens
    rw [if_neg hsub, hweeks]
    exact max_eq_right (by omega)
  have hback : buyerBack .stop s = bondAmount s.pricePerTick := by
    simp [buyerBack, hsub]
  rw [hsettled, hback, escrow_eq hs hw] at hsplit
  unfold chargeOf at hsplit ⊢
  omega

/-! ## During the trial -/

/-- A dispute raised during the trial gives the frozen tick back and takes the stake. -/
theorem trial_credit (hb : Base s) (ht : Trial s) (hd : s.disputed = true) {B S : ℕ} :
    (settleTrustedAndClose E B S (voided s.tokensFinal s)).credited .buyer =
      s.credited .buyer +
        (s.deposit + s.pricePerTick + (s.buyerBond - cut B s.buyerBond)) := by
  obtain ⟨hpay, hweek⟩ := trial_payable hb ht hd
  have hclose := settleTrustedAndClose_moved (E := E) (B := B) (S := S) hpay hweek
  have hzero : trustedOwed (voided s.tokensFinal s) = 0 := by
    simp [trustedOwed, voided, ht.tokensFinal]
  have hbuyer := hclose.buyer
  rw [hzero] at hbuyer
  have hrefund : ∀ k : ℕ, disputeRefund (paidUp 0 k (unfrozen (voided s.tokensFinal s))) =
      s.deposit + s.pricePerTick := by
    intro k
    have hdep : (paidUp 0 k (unfrozen (voided s.tokensFinal s))).deposit =
        s.deposit + s.probeTick - taken 0 (unfrozen (voided s.tokensFinal s)) := rfl
    unfold disputeRefund
    rw [if_neg, hdep, taken_zero, ht.probeTick, Nat.sub_zero]
    have hacc : (paidUp 0 k (unfrozen (voided s.tokensFinal s))).probeAccepted = false :=
      ht.unaccepted
    simp [hacc]
  rw [hrefund] at hbuyer
  exact hbuyer

theorem trial_stake (hb : Base s) (ht : Trial s)
    (hbond : s.buyerBond = bondAmount s.pricePerTick) (hsub : s.subWeeks ≠ 0) :
    s.pricePerTick ≤ disputeStake s ∧
      disputeStake (voided s.tokensFinal s) = disputeStake s := by
  have hsbond : s.sellerBond = bondAmount s.pricePerTick := by
    rw [hb.sellerBond, ht.bonded]
    rfl
  refine ⟨?_, ?_⟩
  · rw [disputeStake_eq hsub hbond hsbond]
    unfold bondAmount
    omega
  · have hpend : (voided s.tokensFinal s).tokensPend = s.tokensPend :=
      ht.tokensFinal.trans ht.tokensPend.symm
    have hsame : claimedUnpaid (voided s.tokensFinal s) = claimedUnpaid s := by
      have hbase : claimBase (voided s.tokensFinal s) = claimBase s := rfl
      unfold claimedUnpaid
      rw [hpend, hbase]
    unfold disputeStake
    rw [hsame]
    rfl

/-! ## Both routes compared -/

theorem weeksStarted_dispute {s₀ : Deal} {d : Msg} (h : Waiting s₀ d s) :
    weeksStarted (enter d s₀) = weeksStartedAt s.disputeTime s ∧
    (enter d s₀).tokensPerWeek = s.tokensPerWeek ∧ s₀.subWeeks = s.subWeeks ∧
    s₀.fundedTokens = s.fundedTokens ∧ s₀.pricePerTick = s.pricePerTick ∧
    s₀.probeAccepted = s.probeAccepted ∧ s.disputed = true ∧ s₀.deposit = s.deposit ∧
    s₀.buyerBond = s.buyerBond := by
  rw [h.eq]
  exact ⟨rfl, rfl, rfl, rfl, rfl, rfl, rfl, rfl, rfl⟩

theorem stakeOf_held (h : Held s t) (c : Call) : stakeOf c t = stakeOf c s := by
  rw [h.eq]
  rfl

def resolutionBody (E : Env) (c : Call) (s : Deal) : Deal :=
  if c = .releaseDispute then releaseDisputeBody E s else resolveDisputeTimeoutBody E s

theorem accepted_cost {s₀ : Deal} {d : Msg} (h : Waiting s₀ d s) (hadm : Admissible s ⟨m, c⟩)
    (hsub : s₀.subWeeks ≠ 0) (hacc : s₀.probeAccepted = true)
    (hstop : stop E d (enter d s₀) = .ok v) :
    paidOut .buyer s (resolutionBody E c (enter m s)) + stakeOf
      (if c = .releaseDispute then .releaseDispute else .resolveDisputeTimeout) s =
      paidOut .buyer s₀ v := by
  obtain ⟨e1, e2, e3, e4, e5, e6, e7, -, -⟩ := weeksStarted_dispute h
  have hi : Invariant (enter m s) := h.now.enter hadm.later hadm.clock
  have hs : Streaming (enter m s) := hi.streaming (e6.symm.trans hacc)
  have hne : (enter m s).subWeeks ≠ 0 := by
    change s.subWeeks ≠ 0
    rwa [← e3]
  have hl := enter_ledger h.ledger m
  have hw := hl.whole hs.funded
  have hcredit := stop_credit_subscription h.before (h.before.streaming hacc)
    (enter_ledger h.ledger₀ d) hsub hstop
  change paidOut .buyer s₀ v + chargeOf s₀.pricePerTick _ =
    chargeOf s₀.pricePerTick s₀.fundedTokens + bondAmount s₀.pricePerTick at hcredit
  rw [e1, e2, e4, e5] at hcredit
  -- the weeks not started are what both routes give back
  have hterm := hw.term hne
  have hsplit := unstarted_split (s := s) s.disputeTime rfl
  have hcharge : chargeOf s.pricePerTick s.fundedTokens =
      chargeOf s.pricePerTick (weeksStartedAt s.disputeTime s * s.tokensPerWeek) +
        unstartedCharge s := by
    change s.subWeeks * s.tokensPerWeek = s.fundedTokens at hterm
    rw [← hterm, ← hsplit]
    exact chargeOf_add hw.step _ _
  obtain ⟨htime, hrel⟩ := stake_taken hi.base hs e7 (hw.bond hne).1 hne
  have hcap := (stakeOf_bounds .releaseDispute s).2
  have hcap' := (stakeOf_bounds .resolveDisputeTimeout s).2
  have hbond : bondAmount s.pricePerTick = 2 * s.pricePerTick := rfl
  unfold resolutionBody
  by_cases hc : c = .releaseDispute
  · rw [if_pos hc, if_pos hc, releaseDisputeBody_streaming hi.base hs e7]
    have hkind : isSubscription (voided (standing (disputeBooks (enter m s)))
        (disputeBooks (enter m s))) = true := by
      obtain ⟨_, _, _, _, _, _, heq, -⟩ := disputeBooks_marks hi.base hs e7 hne
      rw [heq]
      change (s.subWeeks != 0) = true
      simpa [enter] using hne
    have hstakes : releaseStakes (voided (standing (disputeBooks (enter m s)))
        (disputeBooks (enter m s))) = (stakeOf .releaseDispute (enter m s), 0) := by
      unfold releaseStakes
      rw [if_pos hkind, hrel]
    rw [hstakes]
    have hpaid := resolution_credit (E := E)
      (B := stakeOf .releaseDispute (enter m s)) (S := 0) hi.base hs e7 hl hne hcap
    change _ + stakeOf .releaseDispute s = s.credited .buyer + unstartedCharge s +
      bondAmount s.pricePerTick at hpaid
    unfold paidOut at hcredit ⊢
    dsimp only
    omega
  · rw [if_neg hc, if_neg hc, resolveDisputeTimeoutBody_subscription hi.base hs e7 hne, htime]
    have hpaid := resolution_credit (E := E)
      (B := stakeOf .resolveDisputeTimeout (enter m s))
      (S := stakeOf .resolveDisputeTimeout (enter m s)) hi.base hs e7 hl hne hcap'
    change _ + stakeOf .resolveDisputeTimeout s = s.credited .buyer + unstartedCharge s +
      bondAmount s.pricePerTick at hpaid
    unfold paidOut at hcredit ⊢
    omega

theorem trial_cost {s₀ : Deal} {d : Msg} (h : Waiting s₀ d s) (hadm : Admissible s ⟨m, c⟩)
    (hsub : s₀.subWeeks ≠ 0) (hacc : s₀.probeAccepted = false)
    (hv : v = stopBody E (enter d s₀)) :
    paidOut .buyer s (resolutionBody E c (enter m s)) ≤ paidOut .buyer s₀ v := by
  obtain ⟨-, -, e3, -, e5, e6, e7, e8, e9⟩ := weeksStarted_dispute h
  have hi : Invariant (enter m s) := h.now.enter hadm.later hadm.clock
  have ho : s.opened = true := by
    rw [h.eq]
    exact h.opened
  have ht : Trial (enter m s) := hi.trial ho (e6.symm.trans hacc)
  have ht₀ : Trial (enter d s₀) := h.before.trial h.opened hacc
  have hne : (enter m s).subWeeks ≠ 0 := by
    change s.subWeeks ≠ 0
    rwa [← e3]
  have hw := (enter_ledger h.ledger m).whole ht.funded
  have hbond : s.buyerBond = bondAmount s.pricePerTick := (hw.bond hne).1
  obtain ⟨hstake, hvoid⟩ := trial_stake hi.base ht hbond hne
  have hkind : isSubscription (enter m s) = true := by
    simp [isSubscription, hne]
  have heq : resolutionBody E c (enter m s) = settleTrustedAndClose E
      (disputeStake (enter m s)) (if c = .releaseDispute then 0 else disputeStake (enter m s))
      (voided (enter m s).tokensFinal (enter m s)) := by
    unfold resolutionBody
    by_cases hc : c = .releaseDispute
    · have hstakes : releaseStakes (voided (enter m s).tokensFinal (enter m s)) =
          (disputeStake (enter m s), 0) := by
        unfold releaseStakes
        rw [← hvoid]
        exact if_pos hkind
      rw [if_pos hc, if_pos hc, releaseDisputeBody_trial hi.base ht e7, hstakes]
    · rw [if_neg hc, if_neg hc, resolveDisputeTimeoutBody_trial hi.base ht e7]
      unfold timeoutStake
      rw [if_pos hkind]
  have hcredit := trial_credit (E := E) (B := disputeStake (enter m s))
    (S := if c = .releaseDispute then 0 else disputeStake (enter m s)) hi.base ht e7
  rw [← heq] at hcredit
  change _ = s.credited .buyer + (s.deposit + s.pricePerTick +
    (s.buyerBond - cut (disputeStake (enter m s)) s.buyerBond)) at hcredit
  have hstop : v.credited .buyer = s₀.credited .buyer + (s₀.deposit + s₀.buyerBond) := by
    have hbody : stopBody E (enter d s₀) = stopOnProbe (enter d s₀) := by
      simp [stopBody, ht₀.unaccepted]
    rw [hv, hbody]
    exact (stopOnProbe_moved h.before.base.toBacked).buyer
  -- the stake is at least the frozen tick the dispute gives back
  have hcut : s.pricePerTick ≤ cut (disputeStake (enter m s)) s.buyerBond := by
    change s.pricePerTick ≤ disputeStake (enter m s) at hstake
    rw [hbond]
    unfold cut bondAmount
    split <;> omega
  have hle := cut_le (disputeStake (enter m s)) s.buyerBond
  unfold paidOut
  omega

/-- Take any book-funded subscription that is open and undisputed, and any time. However the
dispute raised then is resolved, by release or by timeout, after whatever else happened and
however late, the buyer's credit past the trial is what `stop` would have credited him less a
stake that the dispute itself fixed, between one tick and two; during the trial it is no more
than what `stop` would have credited. -/
theorem dispute_never_cheaper (E : Env) (s₀ s₁ s : Deal) (d m : Msg) (c : Call) (l : History)
    (h : Reachable E (BookFill E) s₀) (hadm : Admissible s₀ ⟨d, .dispute⟩)
    (hsub : s₀.subWeeks ≠ 0) (hdis : exec E ⟨d, .dispute⟩ s₀ = .ok s₁)
    (hrun : DealRun E (BookFill E) s₁ l s) (hlive : s.destroyed = false)
    (hlate : Admissible s ⟨m, c⟩)
    (hc : c = .releaseDispute ∧ m.pubkey = s.sellerPubkey ∨
      c = .resolveDisputeTimeout ∧ d.now + disputeWindow ≤ m.now) :
    ∃ t v, exec E ⟨m, c⟩ s = .ok t ∧ exec E ⟨d, .stop⟩ s₀ = .ok v ∧
      (s₀.probeAccepted = true →
        s₀.pricePerTick ≤ stakeOf c s₁ ∧ stakeOf c s₁ ≤ 2 * s₀.pricePerTick ∧
        paidOut .buyer s t + stakeOf c s₁ = paidOut .buyer s₀ v) ∧
      (s₀.probeAccepted = false → paidOut .buyer s t ≤ paidOut .buyer s₀ v) := by
  have hwait := waiting_of_run h hadm hdis hrun hlive
  obtain ⟨v, hv, hstop⟩ := hwait.stop (E := E)
  have hdispatch : stop E d (enter d s₀) = .ok v := (exec_ok hstop).2.1
  have hexec : exec E ⟨m, c⟩ s = .ok (resolutionBody E c (enter m s)) := by
    rcases hc with ⟨rfl, hkey⟩ | ⟨rfl, hwin⟩
    · exact hwait.release hlate hkey
    · exact hwait.timeout hlate hwin
  have hcall : (if c = .releaseDispute then Call.releaseDispute else .resolveDisputeTimeout) = c := by
    rcases hc with ⟨rfl, -⟩ | ⟨rfl, -⟩
    · rfl
    · rfl
  -- the stake was fixed when the dispute rose
  have hstake : stakeOf c s = stakeOf c s₁ ∧ s₁.pricePerTick = s₀.pricePerTick := by
    obtain ⟨hlive₀, hd, -⟩ := exec_ok hdis
    obtain ⟨-, -, -, -, heq⟩ := dispute_ok hd
    have hlive₁ : s₁.destroyed = false := by
      rw [heq]
      exact hlive₀
    have hd₁ : s₁.disputed = true := by rw [heq]
    have hi₁ := exec_invariant (reachable_invariant h hlive₀) hadm hdis hlive₁
    refine ⟨stakeOf_held (held_run hi₁ hd₁ hrun hlive).2 c, ?_⟩
    rw [heq]
    rfl
  refine ⟨_, v, hexec, hstop, fun hacc => ?_, fun hacc => trial_cost hwait hlate hsub hacc hv⟩
  have hcost := accepted_cost hwait hlate hsub hacc hdispatch
  obtain ⟨hlo, hhi⟩ := stakeOf_bounds c s₁
  rw [hcall, hstake.1] at hcost
  rw [hstake.2] at hlo hhi
  exact ⟨hlo, hhi, hcost⟩

/-- A subscription of eight ticks disputed in its first week and released two weeks later. -/
theorem dispute_never_cheaper_released :
    ∃ s₀ s t v, Reachable sampleEnv (BookFill sampleEnv) s₀ ∧ s₀.probeAccepted = true ∧
      exec sampleEnv (buyerTx 500 .dispute) s₀ = .ok s ∧
      exec sampleEnv (sellerTx 1300000 .releaseDispute) s = .ok t ∧
      exec sampleEnv (buyerTx 500 .stop) s₀ = .ok v ∧
      paidOut .buyer s t + stakeOf .releaseDispute s = paidOut .buyer s₀ v := by
  have hplay : (played (BookFill sampleEnv)
      (subscribedSchedule ++ [sellerTx 400 (.claimTokens 1500000)])).any (fun s =>
        s.probeAccepted && decide (s.subWeeks ≠ 0) &&
        decide (Admissible s (buyerTx 500 .dispute)) &&
        (exec sampleEnv (buyerTx 500 .dispute) s).toOption.any (fun u => !u.destroyed &&
          decide (u.sellerPubkey = 1) &&
          decide (Admissible u (sellerTx 1300000 .releaseDispute)))) = true := by
    decide
  obtain ⟨s₀, h, hp⟩ := played_reachable hplay
  simp only [Bool.and_eq_true, decide_eq_true_eq] at hp
  obtain ⟨⟨⟨hacc, hsub⟩, hadm⟩, hexec⟩ := hp
  obtain ⟨s, hdis, hq⟩ := exec_of_any hexec
  simp only [Bool.and_eq_true, Bool.not_eq_true', decide_eq_true_eq] at hq
  obtain ⟨t, v, ht, hv, hcost, -⟩ := dispute_never_cheaper sampleEnv s₀ s s
    (buyerTx 500 .dispute).msg (sellerTx 1300000 .releaseDispute).msg .releaseDispute [] h hadm
    hsub hdis .nil hq.1.1 hq.2 (.inl ⟨rfl, hq.1.2.symm⟩)
  exact ⟨s₀, s, t, v, h, hacc, hdis, ht, hv, (hcost hacc).2.2⟩

end TokenContractExitCost
