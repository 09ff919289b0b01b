import Dexdo.TokenContractExits

/-! # A deal, step by step

What one accepted call can do to a deal before and after its trial tick is accepted, and what each
closing call leaves as the trusted record. -/
namespace TokenContractStreaming

open TokenContractState TokenContractCalls TokenContractCharges TokenContractPayouts
open TokenContractSteps TokenContractInvariant TokenContractExits

/-- The calls that leave a streaming deal alive. -/
inductive StreamStep (s : Deal) : Call → Deal → Prop where
  | relisted {c t} (hc : ∀ n, c ≠ .claimTokens n) (ha : c ≠ .acceptProbe) (hd : c ≠ .dispute)
      (h : Relisted s t) : StreamStep s c t
  | unchanged (n) : n = s.tokensPend → StreamStep s (.claimTokens n) s
  | claimed {t} (n u) : s.disputed = false → s.tokensPend < n → Base u → Streaming u →
      Claimed n s u t → StreamStep s (.claimTokens n) t
  | promoted : s.disputed = false → s.tokensFinal < s.tokensPend →
      s.lastClaimTime + claimPromoteWindow ≤ s.now →
      StreamStep s .finalize { s with tokensFinal := s.tokensPend }
  | settled {t} : s.disputed = false → s.subWeeks ≠ 0 → Booked (settledBooks s) t →
      ¬ (t.subWeeks ≤ t.weekIndex ∧ t.lastClaimTime + claimPromoteWindow ≤ t.now) →
      StreamStep s .settleWeek t
  | disputed {t} : s.disputed = false → Quiet s t →
      t = { s with disputed := true, everDisputed := true, disputeTime := s.now, out := t.out } →
      StreamStep s .dispute t
  | drew (amount) : amount ≤ s.finalizedOwed → amount ≤ s.balance →
      StreamStep s (.withdrawShell amount) (drawn amount s)

/-- The calls that leave a deal without an accepted trial alive. -/
inductive FreshStep (env : Env) (m : Msg) (s : Deal) : Call → Deal → Prop where
  | relisted {c t} (hc : ∀ n, c ≠ .claimTokens n) (ha : c ≠ .acceptProbe) (hd : c ≠ .dispute)
      (h : Relisted s t) : FreshStep env m s c t
  | filled {t} (paid b k f) : m.sender = orderBook env s → Filled paid b k f s t →
      FreshStep env m s (.fundFromOrderBook paid b k f) t
  | sellerBonded {t} (a c) : s.opened = false → s.sellerBondFunded = false → Quiet s t →
      t = { s with
        balance := s.balance + bondAmount s.pricePerTick
        sellerBond := bondAmount s.pricePerTick, sellerBondFunded := true
        endpointCipher := t.endpointCipher, out := t.out } →
      FreshStep env m s (.fundDeal a c) t
  | buyerBonded {t} (a) : s.opened = false → s.buyerBondFunded = false → Quiet s t →
      t = { s with
        balance := s.balance + bondAmount s.pricePerTick
        buyerBond := bondAmount s.pricePerTick, buyerBondFunded := true, out := t.out } →
      FreshStep env m s (.fundBuyerBond a) t
  | opened {t} (c) : s.funded = true → s.opened = false → s.pricePerTick ≤ s.deposit →
      Quiet s t →
      t = { s with
        probeTick := s.pricePerTick, deposit := s.deposit - s.pricePerTick
        probeAccepted := false, probeTime := s.now, lastClaimTime := s.now
        opened := true, everOpened := true
        endpointCipher := t.endpointCipher, out := t.out } →
      FreshStep env m s (.openDeal c) t
  | accepted {t} : s.opened = true → s.disputed = false → Quiet s t →
      t = { s with
        finalizedOwed := s.finalizedOwed + s.probeTick
        feeAccrued := s.feeAccrued +
          (if fee s.pricePerTick > s.deposit then s.deposit else fee s.pricePerTick)
        deposit := s.deposit -
          (if fee s.pricePerTick > s.deposit then s.deposit else fee s.pricePerTick)
        probeTick := 0, probeAccepted := true, periodStart := s.now
        tokensPaid := tickSize, tokensFinal := tickSize, tokensPend := tickSize
        weekBaseTokens := 0, ticksFinalized := 1, lastClaimTime := s.now, out := t.out } →
      FreshStep env m s .acceptProbe t
  | disputed {t} : s.disputed = false → Quiet s t →
      t = { s with disputed := true, everDisputed := true, disputeTime := s.now, out := t.out } →
      FreshStep env m s .dispute t
  | cleaned : s.opened = false →
      cleanupUnopenedBody m s = { s with
        balance := 0, deposit := 0, buyerBond := 0, sellerBond := 0, funded := false
        sellerBondFunded := false, buyerBondFunded := false, offerPosted := false
        endpointCipher := [], fault := s.fault || cleanupFault m s
        out := (cleanupUnopenedBody m s).out } →
      FreshStep env m s .cleanupUnopened (cleanupUnopenedBody m s)

variable {env : Env} {m : Msg} {s t u : Deal} {c : Call}

theorem stream_step (h : Invariant s) (hs : Streaming s) (hok : dispatch env m s c = .ok t)
    (hf : t.fault = false) (hlive : t.destroyed = false) : StreamStep s c t := by
  have hopen : s.opened = false → StreamStep s c t := by
    intro ho
    rw [hs.opened] at ho
    cases ho
  have hend := ending_call hok
  rw [hlive] at hend
  cases c with
  | fundFromOrderBook p b k f =>
    rcases fundFromOrderBook_ok hok hf with hr | ⟨-, hfill⟩
    · exact .relisted (by simp) (by simp) (by simp) hr
    · have hfu := hfill.unfunded
      rw [hs.funded] at hfu
      cases hfu
  | postFromNote a b c d e => exact .relisted (by simp) (by simp) (by simp) (postFromNote_ok hok)
  | onSellClosed => exact .relisted (by simp) (by simp) (by simp) (onSellClosed_ok hok)
  | close => simp at hend
  | fundDeal a c => exact hopen (fundDeal_ok hok hf).1
  | fundBuyerBond a => exact hopen (fundBuyerBond_ok hok hf).2.1
  | openDeal c => exact hopen (openDeal_ok hok).2.1
  | acceptProbe =>
    have ha := (acceptProbe_ok hok hf).2.2.1
    rw [hs.accepted] at ha
    cases ha
  | claimTokens n =>
    obtain ⟨-, -, hd, -, ⟨hn, rfl⟩ | ⟨hn, u, hclaim⟩⟩ := claimTokens_ok hok hf h.base.start_le_now
    · exact .unchanged n hn
    · obtain ⟨hbu, hsu⟩ := claim_books h.base hs hd hclaim.booked
      exact .claimed n u hd hn hbu hsu hclaim
  | finalize =>
    obtain ⟨-, hd, hp, hw, rfl | ⟨-, -, rfl⟩⟩ := finalize_ok hok h.base.promote_lt
    · exact .promoted hd hp hw
    · rw [payFinalAndClose_destroyed] at hlive
      cases hlive
  | settleWeek =>
    obtain ⟨hsub, -, hd, -, u, hu, -, -, ⟨rfl, hnot⟩ | ⟨-, -, rfl⟩⟩ := settleWeek_inv h hok
    · exact .settled hd hsub hu hnot
    · rw [payFinalAndClose_destroyed] at hlive
      cases hlive
  | stop => simp at hend
  | sellerStop => simp at hend
  | dispute =>
    obtain ⟨-, -, hd, hq, heq⟩ := dispute_ok hok
    exact .disputed hd hq heq
  | releaseDispute => simp at hend
  | resolveDisputeTimeout => simp at hend
  | cleanupUnopened => exact hopen (cleanupUnopened_ok hok).2.1
  | withdrawShell a =>
    obtain ⟨-, howed, hbal, -⟩ := withdrawShell_ok hok
    rw [withdrawShell_settles h hok]
    exact .drew a howed hbal
  | destroy => simp at hend
  | touchDeal => exact .relisted (by simp) (by simp) (by simp) (touchDeal_ok hok)

/-! ## Before the trial tick is accepted -/

theorem Invariant.fresh (hi : Invariant s) (ha : s.probeAccepted = false) : Fresh s := by
  rcases hi.stage with hi | ht | hs
  · exact hi.toFresh
  · exact ht.toFresh
  · rw [hs.accepted] at ha
    cases ha

theorem fresh_step (hi : Invariant s) (ha : s.probeAccepted = false)
    (hok : dispatch env m s c = .ok t) (hf : t.fault = false) (hlive : t.destroyed = false) :
    FreshStep env m s c t := by
  have hfresh := Invariant.fresh hi ha
  have hend := ending_call hok
  rw [hlive] at hend
  cases c with
  | fundFromOrderBook p b k f =>
    rcases fundFromOrderBook_ok hok hf with hr | ⟨hm, hfill⟩
    · exact .relisted (by simp) (by simp) (by simp) hr
    · exact .filled p b k f hm hfill
  | postFromNote a b c d e => exact .relisted (by simp) (by simp) (by simp) (postFromNote_ok hok)
  | onSellClosed => exact .relisted (by simp) (by simp) (by simp) (onSellClosed_ok hok)
  | close => simp at hend
  | fundDeal a c =>
    obtain ⟨ho, hb, -, -, hq, heq⟩ := fundDeal_ok hok hf
    exact .sellerBonded a c ho hb hq heq
  | fundBuyerBond a =>
    obtain ⟨-, ho, hb, -, -, hq, heq⟩ := fundBuyerBond_ok hok hf
    exact .buyerBonded a ho hb hq heq
  | openDeal c =>
    obtain ⟨hfu, ho, -, -, hle, hq, heq⟩ := openDeal_ok hok
    exact .opened c hfu ho hle hq heq
  | acceptProbe =>
    obtain ⟨ho, hd, -, -, hq, heq⟩ := acceptProbe_ok hok hf
    exact .accepted ho hd hq heq
  | claimTokens n =>
    have hacc := (claimTokens_ok hok hf hi.base.start_le_now).2.2.2.1
    rw [ha] at hacc
    cases hacc
  | finalize =>
    have hp := (finalize_ok hok hi.base.promote_lt).2.2.1
    rw [hfresh.tokensPend] at hp
    omega
  | settleWeek =>
    have hst := (settleWeek_inv hi hok).2.1
    rw [hst.accepted] at ha
    cases ha
  | stop => simp at hend
  | sellerStop => simp at hend
  | dispute =>
    obtain ⟨-, -, hd, hq, heq⟩ := dispute_ok hok
    exact .disputed hd hq heq
  | releaseDispute => simp at hend
  | resolveDisputeTimeout => simp at hend
  | cleanupUnopened =>
    obtain ⟨-, ho, -, -, rfl⟩ := cleanupUnopened_ok hok
    exact .cleaned ho (cleanupUnopenedBody_eq hi.base.toBacked)
  | withdrawShell a =>
    obtain ⟨hpos, howed, -, -⟩ := withdrawShell_ok hok
    rw [hfresh.finalizedOwed] at howed
    omega
  | destroy => simp at hend
  | touchDeal => exact .relisted (by simp) (by simp) (by simp) (touchDeal_ok hok)

/-! ## What a step leaves alone -/

theorem booked_fields (hb : Base s) (hs : Streaming s) (h : Booked (settledBooks s) u) :
    ∃ c d o f p b, u = { s with
        clamped := c, deposit := d, finalizedOwed := o, feeAccrued := f, tokensPaid := p
        weekIndex := s.weekIndex + (weeksElapsed s - s.weekIndex), weekBaseTokens := b
        ticksFinalized := u.ticksFinalized, out := u.out } ∧
      d + o + f = s.deposit + s.finalizedOwed + s.feeAccrued := by
  obtain ⟨c, d, o, f, p, b, heq, hsum⟩ := settledBooks_spec hb hs
  have hu := h.eq
  rw [heq] at hu
  exact ⟨c, d, o, f, p, b, hu, hsum⟩

theorem weeksElapsed_ge (hs : Streaming s) : s.weekIndex ≤ weeksElapsed s := by
  have hweeks := hs.weeks
  have helapsed := hs.elapsed
  unfold weeksElapsed weeksElapsedAt
  exact le_min ((Nat.le_div_iff_mul_le (by decide)).mpr helapsed) hweeks

theorem weeksStarted_ge (hs : Streaming s) : s.weekIndex ≤ weeksStarted s := by
  have h := weeksElapsed_ge hs
  unfold weeksElapsed at h
  unfold weeksStarted weeksStartedAt
  split <;> omega

/-- A call that leaves the deal alive does not touch the clock. -/
theorem dispatch_now (hi : Invariant s) (hok : dispatch env m s c = .ok t) (hf : t.fault = false)
    (hlive : t.destroyed = false) : t.now = s.now := by
  cases ha : s.probeAccepted with
  | true =>
    have hs := hi.streaming ha
    cases stream_step hi hs hok hf hlive with
    | relisted _ _ _ hr => rw [hr.eq]
    | unchanged n hn => rfl
    | claimed n u hd hn hbu hsu hclaim =>
      obtain ⟨c, d, o, f, p, b, heq, -⟩ := booked_fields hi.base hs hclaim.booked
      rw [hclaim.eq, heq]
    | promoted => rfl
    | settled hd hsub hb hnot =>
      obtain ⟨c, d, o, f, p, b, heq, -⟩ := booked_fields hi.base hs hb
      rw [heq]
    | disputed hd hq heq => rw [heq]
    | drew a howed hbal => rfl
  | false =>
    cases fresh_step hi ha hok hf hlive with
    | relisted _ _ _ hr => rw [hr.eq]
    | filled p b k f hm hfill => rw [hfill.eq]
    | sellerBonded a c ho hb hq heq => rw [heq]
    | buyerBonded a ho hb hq heq => rw [heq]
    | opened c hfu ho hle hq heq => rw [heq]
    | accepted ho hd hq heq => rw [heq]
    | disputed hd hq heq => rw [heq]
    | cleaned ho heq => rw [heq]

/-- The term of a streaming deal is fixed, and so is a dispute once raised. -/
structure SameTerm (s t : Deal) : Prop where
  accepted : t.probeAccepted = s.probeAccepted
  price : t.pricePerTick = s.pricePerTick
  buyer : t.buyer = s.buyer
  buyerBond : t.buyerBond = s.buyerBond
  sellerBond : t.sellerBond = s.sellerBond
  periodStart : t.periodStart = s.periodStart
  subWeeks : t.subWeeks = s.subWeeks
  tokensPerWeek : t.tokensPerWeek = s.tokensPerWeek
  fundedTokens : t.fundedTokens = s.fundedTokens

theorem StreamStep.sameTerm (hb : Base s) (hs : Streaming s) (h : StreamStep s c t) :
    SameTerm s t := by
  cases h with
  | relisted _ _ _ hr =>
    rw [hr.eq]
    exact ⟨rfl, rfl, rfl, rfl, rfl, rfl, rfl, rfl, rfl⟩
  | unchanged n _ => exact ⟨rfl, rfl, rfl, rfl, rfl, rfl, rfl, rfl, rfl⟩
  | claimed n u _ _ _ _ hclaim =>
    obtain ⟨_, _, _, _, _, _, hu, -⟩ := booked_fields hb hs hclaim.booked
    rw [hclaim.eq, hu]
    exact ⟨rfl, rfl, rfl, rfl, rfl, rfl, rfl, rfl, rfl⟩
  | promoted _ _ _ => exact ⟨rfl, rfl, rfl, rfl, rfl, rfl, rfl, rfl, rfl⟩
  | settled _ _ hu _ =>
    obtain ⟨_, _, _, _, _, _, hu, -⟩ := booked_fields hb hs hu
    rw [hu]
    exact ⟨rfl, rfl, rfl, rfl, rfl, rfl, rfl, rfl, rfl⟩
  | disputed _ _ heq =>
    rw [heq]
    exact ⟨rfl, rfl, rfl, rfl, rfl, rfl, rfl, rfl, rfl⟩
  | drew a _ hbal =>
    rw [drawn_eq hbal]
    exact ⟨rfl, rfl, rfl, rfl, rfl, rfl, rfl, rfl, rfl⟩

/-! ## The trusted record a closing call leaves -/

theorem releaseProbe_tokensFinal : (releaseProbe s).tokensFinal = s.tokensFinal := by
  unfold releaseProbe
  split
  · rfl
  · rfl

theorem closeClean_tokensFinal : (closeClean env s).tokensFinal = s.tokensFinal := by
  have h := releaseProbe_tokensFinal (s := s)
  unfold closeClean
  generalize releaseProbe s = r at h ⊢
  rw [← h]
  rfl

theorem payFinalAndClose_tokensFinal : (payFinalAndClose env s).tokensFinal = s.tokensFinal := by
  unfold payFinalAndClose
  dsimp only
  rw [closeClean_tokensFinal]
  split
  · rfl
  · rfl

theorem chargeWeeks_tokensFinal (k : ℕ) : (chargeWeek^[k] s).tokensFinal = s.tokensFinal := by
  induction k with
  | zero => rfl
  | succ k ih =>
    rw [Function.iterate_succ_apply']
    exact ih

theorem chargeWeeksThrough_tokensFinal (k : ℕ) :
    (chargeWeeksThrough k s).tokensFinal = s.tokensFinal := by
  unfold chargeWeeksThrough
  split
  · exact chargeWeeks_tokensFinal _
  · rfl

theorem payTrusted_tokensFinal : (payTrusted s).tokensFinal = s.tokensFinal := by
  have h := releaseProbe_tokensFinal (s := s)
  unfold payTrusted
  generalize releaseProbe s = r at h ⊢
  rw [← h]
  have hk := chargeWeeksThrough_tokensFinal (s := r.check (r.periodStart ≤ r.disputeTime))
    (weeksElapsedAt r.disputeTime r)
  exact hk

theorem burnUnearned_tokensFinal : (burnUnearned s).1.tokensFinal = s.tokensFinal := by
  unfold burnUnearned
  split
  · dsimp only
    split
    · rfl
    · rfl
  · rfl

theorem settleTrustedAndClose_tokensFinal {bs ss : ℕ} :
    (settleTrustedAndClose env bs ss s).tokensFinal = s.tokensFinal := by
  have h := payTrusted_tokensFinal (s := s)
  unfold settleTrustedAndClose closeDisputed
  generalize payTrusted s = r at h ⊢
  have hu := burnUnearned_tokensFinal (s := burnStakes bs ss r)
  rw [show (burnStakes bs ss r).tokensFinal = r.tokensFinal from rfl, h] at hu
  generalize burnUnearned (burnStakes bs ss r) = v at hu ⊢
  rw [← hu]
  rfl

theorem refundUnopened_tokensFinal : (refundUnopened s).tokensFinal = s.tokensFinal :=
  releaseProbe_tokensFinal

theorem returnBond_tokensFinal : (returnBond s).tokensFinal = s.tokensFinal := by
  unfold returnBond
  split
  · rfl
  · rfl

/-- Why the trusted record may move up to the pending claim: the claim had waited out its window,
undisputed, or the buyer himself stops an ordinary deal. -/
def Ripe (m : Msg) (c : Call) (s : Deal) : Prop :=
  c = .stop ∧ s.subWeeks = 0 ∧ m.sender = s.buyer ∨
  s.disputed = false ∧ s.lastClaimTime + claimPromoteWindow ≤ s.now ∨
  s.disputed = true ∧ s.lastClaimTime + claimPromoteWindow ≤ s.disputeTime

def TrustStep (m : Msg) (c : Call) (s t : Deal) : Prop :=
  t.tokensFinal = s.tokensFinal ∨ t.tokensFinal = s.tokensPend ∧ Ripe m c s

theorem matured_trust (hd : s.disputed = false) (h : t.tokensFinal = matured s) :
    TrustStep m c s t := by
  unfold matured at h
  split at h
  · rename_i hw
    exact .inr ⟨h, .inr (.inl ⟨hd, hw⟩)⟩
  · exact .inl h

theorem standing_trust (hd : s.disputed = true) (h : t.tokensFinal = standing s) :
    TrustStep m c s t := by
  unfold standing at h
  split at h
  · rename_i hw
    exact .inr ⟨h, .inr (.inr ⟨hd, hw⟩)⟩
  · exact .inl h

theorem stop_trust (h : Invariant s) (hok : stop env m s = .ok t) : TrustStep m .stop s t := by
  simp only [stop, require_bind_ok, pure_ok, Except.ok.injEq] at hok
  obtain ⟨ho, hm, hd, rfl⟩ := hok
  have hb := h.base
  rcases h.stage with hi | ht | hs
  · rw [hi.closed] at ho
    cases ho
  · left
    have heq : stopBody env s = stopOnProbe s := by simp [stopBody, ht.unaccepted]
    rw [heq]
    rfl
  · by_cases hz : s.subWeeks = 0
    · right
      rw [stopBody_ordinary hb hs hz, payFinalAndClose_tokensFinal]
      exact ⟨rfl, .inl ⟨rfl, hz, hm⟩⟩
    · rw [stopBody_subscription hb hs hz]
      apply matured_trust hd
      rw [payFinalAndClose_tokensFinal, chargeWeeks_tokensFinal]
      rfl

theorem sellerStop_trust (h : Invariant s) (hok : sellerStop env m s = .ok t) :
    TrustStep m c s t := by
  simp only [sellerStop, require_bind_ok, pure_ok, Except.ok.injEq] at hok
  obtain ⟨-, ho, hd, rfl⟩ := hok
  have hb := h.base
  rcases h.stage with hi | ht | hs
  · rw [hi.closed] at ho
    cases ho
  · left
    have hpro : promoteDue (forfeitTrial s) = forfeitTrial s :=
      promoteDue_settled hb.promote_lt (ht.tokensPend.trans ht.tokensFinal.symm)
    have hacc : (forfeitTrial s).probeAccepted = false := ht.unaccepted
    unfold sellerStopBody sellerExit
    simp only [ht.unaccepted, Bool.not_false, if_true, hpro, hacc, Bool.false_and,
      Bool.false_eq_true, if_false]
    rw [payFinalAndClose_tokensFinal, chargeWeeksThrough_tokensFinal]
    rfl
  · apply matured_trust hd
    by_cases hz : s.subWeeks = 0
    · rw [sellerStopBody_ordinary hb hs hz, payFinalAndClose_tokensFinal]
      rfl
    · rw [sellerStopBody_subscription hb hs hz, payFinalAndClose_tokensFinal,
        chargeWeeks_tokensFinal]
      rfl

theorem standing_disputeBooks (hb : Base s) (hs : Streaming s) :
    standing (disputeBooks s) = standing s := by
  obtain ⟨c, d, o, f, p, b, heq, -⟩ := disputeBooks_spec hb hs
  rw [heq]
  rfl

theorem releaseDispute_trust (h : Invariant s) (hok : releaseDispute env m s = .ok t) :
    TrustStep m c s t := by
  simp only [releaseDispute, require_bind_ok, pure_ok, Except.ok.injEq] at hok
  obtain ⟨-, hd, rfl⟩ := hok
  have hb := h.base
  rcases disputed_stage h hd with ht | hs
  · left
    rw [releaseDisputeBody_trial hb ht hd, settleTrustedAndClose_tokensFinal]
    rfl
  · apply standing_trust hd
    rw [releaseDisputeBody_streaming hb hs hd, settleTrustedAndClose_tokensFinal,
      ← standing_disputeBooks hb hs]
    rfl

theorem resolveDisputeTimeout_trust (h : Invariant s)
    (hok : resolveDisputeTimeout env s = .ok t) : TrustStep m c s t := by
  simp only [resolveDisputeTimeout, require_bind_ok, pure_ok, Except.ok.injEq] at hok
  obtain ⟨hd, -, rfl⟩ := hok
  have hb := h.base
  rw [Deal.check_pass (disputeTime_lt h hd)]
  rcases disputed_stage h hd with ht | hs
  · left
    rw [resolveDisputeTimeoutBody_trial hb ht hd, settleTrustedAndClose_tokensFinal]
    rfl
  · apply standing_trust hd
    by_cases hz : s.subWeeks = 0
    · rw [resolveDisputeTimeoutBody_ordinary hb hs hd hz, settleTrustedAndClose_tokensFinal]
      rfl
    · rw [resolveDisputeTimeoutBody_subscription hb hs hd hz, settleTrustedAndClose_tokensFinal,
        ← standing_disputeBooks hb hs]
      rfl

theorem sweep_trust (r : Deal) : (sweepAndDie (returnBond r)).tokensFinal = r.tokensFinal :=
  returnBond_tokensFinal

theorem claimTokens_trust {n : ℕ} (h : Invariant s) (hok : claimTokens env n m s = .ok t)
    (hf : t.fault = false) : TrustStep m c s t := by
  obtain ⟨-, -, hd, ha, ⟨-, rfl⟩ | ⟨-, u, hclaim⟩⟩ := claimTokens_ok hok hf h.base.start_le_now
  · exact .inl rfl
  · obtain ⟨_, _, _, _, _, _, hu, -⟩ := booked_fields h.base (h.streaming ha) hclaim.booked
    have hwait := hclaim.interval
    have hnow := h.base.claim_le
    have hsame : u.tokensPend = s.tokensPend ∧ u.lastClaimTime = s.lastClaimTime ∧
        u.now = s.now := by
      rw [hu]
      exact ⟨rfl, rfl, rfl⟩
    rw [hsame.2.1, hsame.2.2] at hwait
    refine .inr ⟨?_, .inr (.inl ⟨hd, ?_⟩)⟩
    · rw [hclaim.eq]
      exact hsame.1
    · unfold minClaimInterval at hwait
      unfold claimPromoteWindow
      omega

/-- Over every call: the trusted record moves only at `acceptProbe` or for a reason of `Ripe`. -/
theorem dispatch_trust (h : Invariant s) (hok : dispatch env m s c = .ok t)
    (hf : t.fault = false) : c = .acceptProbe ∨ TrustStep m c s t := by
  cases c with
  | fundFromOrderBook p b k f =>
    right; left
    rcases fundFromOrderBook_ok hok hf with hr | ⟨-, hfill⟩
    · rw [hr.eq]
    · rw [hfill.eq]
  | postFromNote a b c d e =>
    right; left
    rw [(postFromNote_ok hok).eq]
  | onSellClosed =>
    right; left
    rw [(onSellClosed_ok hok).eq]
  | close =>
    simp only [dispatch, close, require_bind_ok, pure_ok, Except.ok.injEq] at hok
    obtain ⟨-, -, -, rfl⟩ := hok
    exact .inr (.inl (sweep_trust s))
  | fundDeal a c =>
    right; left
    rw [(fundDeal_ok hok hf).2.2.2.2.2]
  | fundBuyerBond a =>
    right; left
    rw [(fundBuyerBond_ok hok hf).2.2.2.2.2.2]
  | openDeal c =>
    right; left
    rw [(openDeal_ok hok).2.2.2.2.2.2]
  | acceptProbe => exact .inl rfl
  | claimTokens n => exact .inr (claimTokens_trust h hok hf)
  | finalize =>
    obtain ⟨-, hd, -, hw, heq⟩ := finalize_ok hok h.base.promote_lt
    refine .inr (.inr ⟨?_, .inr (.inl ⟨hd, hw⟩)⟩)
    rcases heq with rfl | ⟨-, -, rfl⟩
    · rfl
    · rw [payFinalAndClose_tokensFinal]
  | settleWeek =>
    obtain ⟨-, hst, hd, -, u, hu, -, -, hcase⟩ := settleWeek_inv h hok
    obtain ⟨_, _, _, _, _, _, hueq, -⟩ := booked_fields h.base hst hu
    rcases hcase with ⟨rfl, -⟩ | ⟨-, hw, rfl⟩
    · right; left
      rw [hueq]
    · refine .inr (.inr ⟨?_, .inr (.inl ⟨hd, ?_⟩)⟩)
      · rw [payFinalAndClose_tokensFinal, hueq]
      · rw [hueq] at hw
        exact hw
  | stop => exact .inr (stop_trust h hok)
  | sellerStop => exact .inr (sellerStop_trust h hok)
  | dispute =>
    right; left
    rw [(dispute_ok hok).2.2.2.2]
  | releaseDispute => exact .inr (releaseDispute_trust h hok)
  | resolveDisputeTimeout => exact .inr (resolveDisputeTimeout_trust h hok)
  | cleanupUnopened =>
    obtain ⟨-, -, -, -, rfl⟩ := cleanupUnopened_ok hok
    right; left
    rw [cleanupUnopenedBody_eq h.base.toBacked]
  | withdrawShell a =>
    right; left
    rw [withdrawShell_settles h hok]
    rfl
  | destroy =>
    simp only [dispatch, destroy, require_bind_ok, pure_ok, Except.ok.injEq] at hok
    obtain ⟨-, -, -, -, rfl⟩ := hok
    right; left
    rw [sweep_trust]
    split
    · exact refundUnopened_tokensFinal
    · rfl
  | touchDeal =>
    right; left
    rw [(touchDeal_ok hok).eq]

end TokenContractStreaming
