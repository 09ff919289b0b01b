import Dexdo.TokenContractSplit
import Dexdo.TokenContractQuota

/-! # The rebate of a clean close

The volume rebate is measured on the delivered ticks, the fee it is paid from on the tokens
charged. -/
namespace TokenContractRebate

open TokenContractState TokenContractCalls TokenContractCharges TokenContractPayouts
open TokenContractSteps TokenContractInvariant TokenContractExits TokenContractStreaming
open TokenContractLedger TokenContractQuota TokenContractSplit

variable {E : Env} {m : Msg} {s t u v : Deal} {c : Call}

/-! ## The record a close settles its fees on -/

def atFees (s : Deal) : Deal :=
  let s := recordDelivered (releaseBuyerBond (releaseProbe s))
  { creditSellerBond { s with deposit := 0 } with opened := false }

def afterFees (refund : ℕ) (s : Deal) : Deal :=
  let s := payShell .buyer s.buyer refund s
  payOwedAndDie (s.send (.streamStopped s.buyer s.finalizedOwed refund))

def exitRecord (E : Env) (c : Call) (s : Deal) : Deal :=
  match c with
  | .finalize => promoteDue s
  | .settleWeek => promoteDue (settleWeekBooks E s)
  | .stop => stopRecord s
  | _ => sellerStopRecord s

def feeRecord (E : Env) (c : Call) (s : Deal) : Deal := atFees (payFinal (exitRecord E c s))

def Rebated (x : Deal) : Prop :=
  0 < x.ticksFinalized → rebate x.pricePerTick x.ticksFinalized < x.feeAccrued

theorem releaseProbe_figures (s : Deal) :
    (releaseProbe s).pricePerTick = s.pricePerTick ∧ (releaseProbe s).feeAccrued = s.feeAccrued ∧
    (releaseProbe s).tokensFinal = s.tokensFinal ∧
    (releaseProbe s).probeAccepted = s.probeAccepted := by
  unfold releaseProbe
  split
  · exact ⟨rfl, rfl, rfl, rfl⟩
  · exact ⟨rfl, rfl, rfl, rfl⟩

theorem payFinal_figures (s : Deal) :
    (payFinal s).pricePerTick = s.pricePerTick ∧
    (payFinal s).feeAccrued = s.feeAccrued + feePart (finalOwed s) s ∧
    (payFinal s).tokensFinal = s.tokensFinal ∧ (payFinal s).probeAccepted = s.probeAccepted := by
  unfold payFinal
  dsimp only
  split
  · exact ⟨rfl, rfl, rfl, rfl⟩
  · exact ⟨rfl, rfl, rfl, rfl⟩

theorem atFees_figures (s : Deal) :
    (atFees s).pricePerTick = s.pricePerTick ∧ (atFees s).feeAccrued = s.feeAccrued ∧
    (atFees s).ticksFinalized = (recordDelivered s).ticksFinalized := by
  obtain ⟨h1, h2, h3, h4⟩ := releaseProbe_figures s
  refine ⟨h1, h2, ?_⟩
  change (recordDelivered (releaseProbe s)).ticksFinalized = _
  unfold recordDelivered
  rw [h3, h4]

/-! ## The rebate against the fee -/

section Rates

variable {p : ℕ} (hp : priceStep ∣ p) (hpos : 0 < p)

include hp hpos

theorem rebate_lt_fee_iff (n k : ℕ) :
    rebate p n < fee (valueOf p k) ↔
      min (rebateSlopeBps * n) rebateMaxBps * n * tickSize < platformFeeBps * k := by
  obtain ⟨q, rfl⟩ := hp
  have hq : 0 < q := Nat.pos_of_mul_pos_left hpos
  have hrebate : rebate (priceStep * q) n =
      min (rebateSlopeBps * n) rebateMaxBps * n * (100000 * q) := by
    have hmul : min (rebateSlopeBps * n) rebateMaxBps * n * (priceStep * q) =
        min (rebateSlopeBps * n) rebateMaxBps * n * (100000 * q) * bpsDenominator := by
      unfold priceStep bpsDenominator
      ring
    unfold rebate
    rw [hmul, Nat.mul_div_cancel _ (by decide)]
  rw [hrebate, fee_step]
  generalize min (rebateSlopeBps * n) rebateMaxBps * n = r
  have hleft : r * (100000 * q) = 25 * q * (4000 * r) := by ring
  rw [hleft, Nat.mul_lt_mul_left (by omega)]
  unfold tickSize platformFeeBps
  omega

theorem rebate_lt_fee {x k : ℕ} (hx : x ≤ k) (htick : tickSize ≤ x) :
    rebate p (x / tickSize) < fee (valueOf p k) := by
  rw [rebate_lt_fee_iff hp hpos]
  have hrate : min (rebateSlopeBps * (x / tickSize)) rebateMaxBps ≤ 200 := min_le_right _ _
  have hwhole : x / tickSize * tickSize ≤ x := Nat.div_mul_le_self _ _
  have hpos : 0 < tickSize := by decide
  calc min (rebateSlopeBps * (x / tickSize)) rebateMaxBps * (x / tickSize) * tickSize
      = min (rebateSlopeBps * (x / tickSize)) rebateMaxBps * (x / tickSize * tickSize) := by ring
    _ ≤ 200 * x := Nat.mul_le_mul hrate hwhole
    _ < platformFeeBps * k := by
      unfold platformFeeBps
      omega

end Rates

/-! ## What was claimed stays within the weeks -/

def Drawn (s : Deal) : Prop :=
  s.probeAccepted = true → s.subWeeks ≠ 0 → s.weekBaseTokens ≤ s.weekIndex * s.tokensPerWeek

theorem Drawn.pend_le (h : Drawn s) (hs : Streaming s) (hw : Whole s) (hsub : s.subWeeks ≠ 0) :
    s.tokensPend ≤ (s.weekIndex + 1) * s.tokensPerWeek := by
  have hbase := h hs.accepted hsub
  have hquota := hs.quota hsub
  have htick := hw.quota hsub
  have hsplit : (s.weekIndex + 1) * s.tokensPerWeek =
      s.weekIndex * s.tokensPerWeek + s.tokensPerWeek := by ring
  omega

theorem Drawn.kept (h : Drawn s) (hsame : t.probeAccepted = s.probeAccepted ∧
    t.subWeeks = s.subWeeks ∧ t.weekBaseTokens = s.weekBaseTokens ∧
    t.weekIndex = s.weekIndex ∧ t.tokensPerWeek = s.tokensPerWeek) : Drawn t := by
  obtain ⟨h1, h2, h3, h4, h5⟩ := hsame
  intro ha hsub
  rw [h3, h4, h5]
  exact h (h1 ▸ ha) (h2 ▸ hsub)

theorem drawn_unaccepted (h : s.probeAccepted = false) : Drawn s := by
  intro ha
  rw [h] at ha
  cases ha

theorem Drawn.booked (h : Drawn s) (hb : Base s) (hs : Streaming s) (hw : Whole s)
    (hu : Booked (settledBooks s) u) : Drawn u := by
  obtain ⟨c, d, o, f, p, b, heq, hsame, hnew⟩ := booked_marks hb hs hu
  have hge := weeksElapsed_ge hs
  intro _ hsub
  rw [heq] at hsub ⊢
  change b ≤ weeksElapsed s * s.tokensPerWeek
  rcases Nat.eq_or_lt_of_le hge with he | hlt
  · rw [hsame he.symm, ← he]
    exact h hs.accepted hsub
  · rw [hnew hlt]
    exact (h.pend_le hs hw hsub).trans (Nat.mul_le_mul_right _ hlt)

theorem FreshStep.drawn (ha : s.probeAccepted = false) (h : FreshStep E m s c t) : Drawn t := by
  cases h with
  | relisted _ _ _ hr =>
    apply drawn_unaccepted
    rw [hr.eq]
    exact ha
  | filled p b k f _ hfill =>
    apply drawn_unaccepted
    rw [hfill.eq]
    exact ha
  | sellerBonded a c _ _ _ heq =>
    apply drawn_unaccepted
    rw [heq]
    exact ha
  | buyerBonded a _ _ _ heq =>
    apply drawn_unaccepted
    rw [heq]
    exact ha
  | opened c _ _ _ _ heq =>
    apply drawn_unaccepted
    rw [heq]
  | accepted _ _ _ heq =>
    intro _ _
    rw [heq]
    exact Nat.zero_le _
  | disputed _ _ heq =>
    apply drawn_unaccepted
    rw [heq]
    exact ha
  | cleaned _ heq =>
    apply drawn_unaccepted
    rw [heq]
    exact ha

theorem StreamStep.drawn (hb : Base s) (hs : Streaming s) (hl : Ledger s) (hdr : Drawn s)
    (h : StreamStep s c t) : Drawn t := by
  have hw := hl.whole hs.funded
  cases h with
  | relisted _ _ _ hr =>
    rw [hr.eq]
    exact hdr.kept ⟨rfl, rfl, rfl, rfl, rfl⟩
  | unchanged n _ => exact hdr
  | claimed n u _ _ _ _ hclaim =>
    rw [hclaim.eq]
    exact (hdr.booked hb hs hw hclaim.booked).kept ⟨rfl, rfl, rfl, rfl, rfl⟩
  | promoted _ _ _ => exact hdr.kept ⟨rfl, rfl, rfl, rfl, rfl⟩
  | settled _ _ hu _ => exact hdr.booked hb hs hw hu
  | disputed _ _ heq =>
    rw [heq]
    exact hdr.kept ⟨rfl, rfl, rfl, rfl, rfl⟩
  | drew a _ hbal =>
    rw [drawn_eq hbal]
    exact hdr.kept ⟨rfl, rfl, rfl, rfl, rfl⟩

theorem constructed_drawn (h : Constructed E s) : Drawn s := by
  obtain ⟨m, a, -, h⟩ := h
  simp only [construct, require_bind_ok, pure_ok, Except.ok.injEq] at h
  obtain ⟨-, -, -, -, -, -, -, -, rfl⟩ := h
  apply drawn_unaccepted
  simp [Deal.send]

theorem reachable_drawn (h : Reachable E (BookFill E) s) (hlive : s.destroyed = false) :
    Invariant s ∧ Ledger s ∧ Drawn s := by
  revert hlive
  refine TransactionSystem.Reachable.invariant
    (I := fun s => s.destroyed = false → Invariant s ∧ Ledger s ∧ Drawn s)
    (fun s h _ => ⟨constructed_invariant h, constructed_ledger h, constructed_drawn h⟩) ?_ h
  intro s a t ih hadm hok hlive
  obtain ⟨hlives, hd, hf⟩ := exec_ok hok
  obtain ⟨hi, hl, hdr⟩ := ih hlives
  have hin : Invariant (enter a.msg s) := hi.enter hadm.1.later hadm.1.clock
  have hlin := enter_ledger hl a.msg
  have hdin : Drawn (enter a.msg s) := hdr.kept ⟨rfl, rfl, rfl, rfl, rfl⟩
  refine ⟨exec_invariant hi hadm.1 hok hlive, dispatch_ledger hin hlin hadm.2 hd hf hlive, ?_⟩
  cases ha : (enter a.msg s).probeAccepted with
  | true =>
    have hs := hin.streaming ha
    exact StreamStep.drawn hin.base hs hlin hdin (stream_step hin hs hd hf hlive)
  | false => exact FreshStep.drawn ha (fresh_step hin ha hd hf hlive)

/-! ## What each exit charges and rebates -/

/-- The figures `_settleFees` reads, as functions of the deal before the call. -/
structure Charged (c : Call) (s x : Deal) : Prop where
  price : x.pricePerTick = s.pricePerTick
  fees : x.feeAccrued = fee (valueOf s.pricePerTick (settledTokens c s))
  ticks : x.ticksFinalized = trustedTokens c s / tickSize

theorem charged_of (hprice : v.pricePerTick = s.pricePerTick)
    (hfinal : v.tokensFinal = trustedTokens c s) (htick : tickSize ≤ trustedTokens c s)
    (hfees : v.feeAccrued + feePart (finalOwed v) v =
      fee (valueOf s.pricePerTick (settledTokens c s))) :
    Charged c s (atFees (payFinal v)) := by
  obtain ⟨h1, h2, h3, -⟩ := payFinal_figures v
  obtain ⟨g1, g2, g3⟩ := atFees_figures (payFinal v)
  refine ⟨g1.trans (h1.trans hprice), g2.trans (h2.trans hfees), ?_⟩
  have hfull : ¬ trustedTokens c s < tickSize := by omega
  rw [g3]
  unfold recordDelivered
  simp [h3, hfinal, hfull]

theorem weeks_charged {n : ℕ} (hb : Base s) (hs : Streaming s) (hl : Ledger s)
    (hsub : s.subWeeks ≠ 0) (htick : tickSize ≤ trustedTokens c s) (hn : n = settledWeeks c s)
    (hlo : s.weekIndex ≤ n) (hhi : n ≤ s.subWeeks) :
    Charged c s (atFees (payFinal
      (chargeWeek^[n - s.weekIndex] (trusting (trustedTokens c s) s)))) := by
  obtain ⟨hpaying, -, hpaid, cl, d, o, f, p, b, heq⟩ :=
    weeks_settled (x := trustedTokens c s) hb hs hl hsub hn hlo hhi
  generalize chargeWeek^[n - s.weekIndex] (trusting (trustedTokens c s) s) = v at *
  have hprice : v.pricePerTick = s.pricePerTick := by
    rw [heq]
    rfl
  have howed : finalOwed v = 0 := by
    apply finalOwed_subscription
    rw [heq]
    exact hsub
  refine charged_of hprice ?_ htick ?_
  · rw [heq]
    rfl
  · rw [howed, feePart_zero, Nat.add_zero, hpaying.fees, hprice, hpaid]

/-- An ordinary deal charged up to the trusted mark. -/
theorem ordinary_charged (hs : Streaming s) (hl : Ledger s) (hz : s.subWeeks = 0)
    (hv : v.pricePerTick = s.pricePerTick ∧ v.feeAccrued = s.feeAccrued ∧
      v.deposit = s.deposit ∧ v.tokensPaid = s.tokensPaid ∧ v.subWeeks = s.subWeeks ∧
      v.tokensFinal = trustedTokens c s)
    (hpaid : trustedTokens c s = settledTokens c s) (hxle : trustedTokens c s ≤ s.tokensPend)
    (htick : tickSize ≤ trustedTokens c s) : Charged c s (atFees (payFinal v)) := by
  obtain ⟨h1, h2, h3, h4, h5, h6⟩ := hv
  have hw := hl.whole hs.funded
  have hp := hl.paying hs.accepted
  have htp : s.tokensPaid = tickSize := by
    have hweeks := hs.weeks
    exact hs.paid.trans (if_pos (by omega))
  have howed : finalOwed v = trustedTokens c s - tickSize := by
    unfold finalOwed isSubscription
    rw [h4, h5, h6, htp, hz]
    by_cases hgt : trustedTokens c s > tickSize
    · simp [hgt]
    · simp [hgt]
      omega
  have hroom : s.tokensPaid + (trustedTokens c s - tickSize) ≤ s.fundedTokens := by
    have hfunded := hs.pend_le_funded
    omega
  have hle := charge_le_deposit hw hp hroom
  have hpart : feePart (finalOwed v) v =
      fee (valueOf s.pricePerTick (trustedTokens c s - tickSize)) := by
    rw [howed, feePart_whole (by rw [h1, h3]; exact hle), h1]
  refine charged_of h1 h6 htick ?_
  rw [hpart, h2, hp.fees, htp, ← fee_valueOf_add hw.step, ← hpaid, Nat.add_sub_cancel' htick]

theorem finalize_charged (hi : Invariant s) (hs : Streaming s) (hl : Ledger s)
    (hlive : s.destroyed = false) (hok : finalize E s = .ok t) (hdead : t.destroyed = true) :
    Charged .finalize s (feeRecord E .finalize s) := by
  obtain ⟨-, hd, hp, hwin, rfl | ⟨hz, -, ht⟩⟩ := finalize_ok hok hi.base.promote_lt
  · rw [hlive] at hdead
    cases hdead
  · have hpro : promoteDue s = trusting s.tokensPend s := by
      rw [promoteDue_matured hi.base hs]
      unfold matured
      rw [if_pos hwin]
      rfl
    have hfig := ordinary_charged (c := .finalize) (v := trusting s.tokensPend s) hs hl hz
      ⟨rfl, rfl, rfl, rfl, rfl, rfl⟩ (by simp [trustedTokens, settledTokens, hz]) le_rfl
      (hs.tick_le_final.trans hs.final_le_pend)
    unfold feeRecord
    change Charged .finalize s (atFees (payFinal (promoteDue s)))
    rw [hpro]
    exact hfig

theorem settleWeekBooks_booked (hi : Invariant s) (hs : Streaming s) :
    Booked (settledBooks s) (settleWeekBooks E s) := by
  have hbooked := settleBoundaries_booked (E := E) hs.accepted
  have hlast : (settleBoundaries E (weeksElapsed s) s).lastClaimTime = s.lastClaimTime := by
    obtain ⟨_, _, _, _, _, _, heq, -⟩ := booked_fields hi.base hs hbooked
    rw [heq]
  have hwin := hi.base.promote_lt
  unfold settleWeekBooks
  simp only [Deal.check_pass hi.base.start_le_now]
  rw [Deal.check_pass]
  · exact hbooked
  · intro _
    rw [hlast]
    exact hwin

theorem settleWeekBooks_destroyed (hi : Invariant s) (hs : Streaming s) :
    (settleWeekBooks E s).destroyed = s.destroyed := by
  obtain ⟨_, _, _, _, _, _, heq, -⟩ :=
    booked_fields hi.base hs (settleWeekBooks_booked (E := E) hi hs)
  rw [heq]

/-- `settleWeek` closes on books that hold the whole term. -/
theorem settleWeek_charged (hi : Invariant s) (hs : Streaming s) (hl : Ledger s)
    (hd : s.disputed = false) (hsub : s.subWeeks ≠ 0)
    (hall : (settleWeekBooks E s).subWeeks ≤ (settleWeekBooks E s).weekIndex)
    (hwin : (settleWeekBooks E s).lastClaimTime + claimPromoteWindow ≤
      (settleWeekBooks E s).now) :
    Charged .settleWeek s (feeRecord E .settleWeek s) := by
  have hu := settleWeekBooks_booked (E := E) hi hs
  unfold feeRecord
  change Charged .settleWeek s (atFees (payFinal (promoteDue (settleWeekBooks E s))))
  generalize settleWeekBooks E s = u at *
  obtain ⟨hbu, hsu⟩ := claim_books hi.base hs hd hu
  obtain ⟨hwu, hpu, hcu⟩ := booked_ledger hi.base hs (hl.whole hs.funded)
    (hl.paying hs.accepted) hu
  have hlu := ledger_accepted hsu.accepted (hcu.trans hl.unclamped) hwu hpu
  obtain ⟨_, _, _, _, _, _, heq, -⟩ := booked_fields hi.base hs hu
  have hsame : u.subWeeks = s.subWeeks ∧ u.pricePerTick = s.pricePerTick ∧
      settledTokens .settleWeek u = settledTokens .settleWeek s ∧
      trustedTokens .settleWeek u = trustedTokens .settleWeek s := by
    rw [heq]
    exact ⟨rfl, rfl, rfl, rfl⟩
  obtain ⟨h1, h2, h3, h4⟩ := hsame
  have hpro : promoteDue u = trusting u.tokensPend u := by
    rw [promoteDue_matured hbu hsu]
    unfold matured
    rw [if_pos hwin]
    rfl
  have hfig := weeks_charged (c := .settleWeek) (n := u.subWeeks) hbu hsu hlu (by rwa [h1])
    (hsu.tick_le_final.trans hsu.final_le_pend) rfl hsu.weeks le_rfl
  rw [show u.subWeeks - u.weekIndex = 0 by omega] at hfig
  change Charged .settleWeek u (atFees (payFinal (trusting u.tokensPend u))) at hfig
  rw [hpro]
  exact ⟨hfig.price.trans h2, by rw [hfig.fees, h2, h3], by rw [hfig.ticks, h4]⟩

theorem stop_charged (hi : Invariant s) (hs : Streaming s) (hl : Ledger s) :
    Charged .stop s (feeRecord E .stop s) := by
  have htick := hs.tick_le_final
  unfold feeRecord
  change Charged .stop s (atFees (payFinal (stopRecord s)))
  by_cases hz : s.subWeeks = 0
  · have hfinal : trustedTokens .stop s = s.tokensPend := by simp [trustedTokens, hz]
    rw [stopRecord_ordinary hi.base hs hz]
    refine ordinary_charged hs hl hz ⟨rfl, rfl, rfl, rfl, rfl, hfinal.symm⟩
      (by simp [trustedTokens, settledTokens, hz]) hfinal.le ?_
    rw [hfinal]
    exact htick.trans hs.final_le_pend
  · have hfinal : trustedTokens .stop s = matured s := by simp [trustedTokens, hz]
    rw [stopRecord_subscription hi.base hs hz, ← hfinal]
    refine weeks_charged hi.base hs hl hz ?_ rfl (weeksStarted_ge hs) (weeksStartedAt_le _ _)
    rw [hfinal]
    exact htick.trans (tokensFinal_le_matured hs)

theorem sellerStop_charged (hi : Invariant s) (hs : Streaming s) (hl : Ledger s) :
    Charged .sellerStop s (feeRecord E .sellerStop s) := by
  have htick : tickSize ≤ trustedTokens .sellerStop s :=
    hs.tick_le_final.trans (tokensFinal_le_matured hs)
  unfold feeRecord
  change Charged .sellerStop s (atFees (payFinal (sellerStopRecord s)))
  by_cases hz : s.subWeeks = 0
  · rw [sellerStopRecord_ordinary hi.base hs hz]
    exact ordinary_charged hs hl hz ⟨rfl, rfl, rfl, rfl, rfl, rfl⟩
      (by simp [trustedTokens, settledTokens, hz]) (matured_le hs) htick
  · rw [sellerStopRecord_subscription hi.base hs hz]
    exact weeks_charged hi.base hs hl hz htick rfl (weeksElapsed_ge hs) (weeksElapsedAt_le _ _)

/-! ## Every clean close -/

/-- A close past the trial runs `_closeClean` on the record of its exit. -/
theorem exit_closes (hi : Invariant s) (hs : Streaming s) (hlive : s.destroyed = false)
    (hc : IsClean c) (hok : dispatch E m s c = .ok t) (hdead : t.destroyed = true) :
    t = closeClean E (payFinal (exitRecord E c s)) := by
  cases c with
  | finalize =>
    change finalize E s = .ok t at hok
    simp only [finalize, require_bind_ok] at hok
    obtain ⟨-, -, hok⟩ := hok
    split at hok
    · simp only [pure_ok, Except.ok.injEq] at hok
      exact hok.symm
    · simp only [pure_ok, Except.ok.injEq] at hok
      have hkeep : (promoteDue s).destroyed = s.destroyed := by
        rw [promoteDue_matured hi.base hs]
      rw [← hok, hkeep, hlive] at hdead
      cases hdead
  | settleWeek =>
    change settleWeek E s = .ok t at hok
    simp only [settleWeek, require_bind_ok] at hok
    obtain ⟨-, -, -, -, hok⟩ := hok
    split at hok
    · simp only [pure_ok, Except.ok.injEq] at hok
      exact hok.symm
    · simp only [pure_ok, Except.ok.injEq] at hok
      rw [← hok, settleWeekBooks_destroyed hi hs, hlive] at hdead
      cases hdead
  | stop =>
    change stop E m s = .ok t at hok
    simp only [stop, require_bind_ok, pure_ok, Except.ok.injEq] at hok
    rw [← hok.2.2.2, stopBody_record hs.accepted]
    rfl
  | sellerStop =>
    change sellerStop E m s = .ok t at hok
    simp only [sellerStop, require_bind_ok, pure_ok, Except.ok.injEq] at hok
    exact hok.2.2.2.symm
  | _ => exact absurd hc (by simp [IsClean])

/-- The seller stops a subscription, and the rebate on the delivered ticks reaches the fee on the
weeks completed (or on the trial tick, before the first boundary). -/
def Outpaid (c : Call) (s : Deal) : Prop :=
  c = .sellerStop ∧ s.probeAccepted = true ∧ s.subWeeks ≠ 0 ∧
    platformFeeBps * max tickSize (weeksElapsed s * s.tokensPerWeek) ≤
      min (rebateSlopeBps * (matured s / tickSize)) rebateMaxBps * (matured s / tickSize) * tickSize

instance (c : Call) (s : Deal) : Decidable (Outpaid c s) := by
  unfold Outpaid
  infer_instance

theorem clean_guards (hc : IsClean c) (hok : dispatch E m s c = .ok t) :
    s.opened = true ∧ s.disputed = false := by
  cases c with
  | finalize =>
    change finalize E s = .ok t at hok
    simp only [finalize, require_bind_ok] at hok
    exact hok.1
  | settleWeek =>
    change settleWeek E s = .ok t at hok
    simp only [settleWeek, require_bind_ok] at hok
    exact hok.2.1
  | stop =>
    change stop E m s = .ok t at hok
    simp only [stop, require_bind_ok] at hok
    exact ⟨hok.1, hok.2.2.1⟩
  | sellerStop =>
    change sellerStop E m s = .ok t at hok
    simp only [sellerStop, require_bind_ok] at hok
    exact ⟨hok.2.1, hok.2.2.1⟩
  | _ => exact absurd hc (by simp [IsClean])

theorem exit_charged (hi : Invariant s) (hs : Streaming s) (hl : Ledger s)
    (hlive : s.destroyed = false) (hc : IsClean c) (hok : dispatch E m s c = .ok t)
    (hdead : t.destroyed = true) : Charged c s (feeRecord E c s) := by
  obtain ⟨-, hund⟩ := clean_guards hc hok
  cases c with
  | finalize => exact finalize_charged hi hs hl hlive hok hdead
  | settleWeek =>
    change settleWeek E s = .ok t at hok
    simp only [settleWeek, require_bind_ok] at hok
    obtain ⟨hkind, -, -, -, hok⟩ := hok
    split at hok
    · rename_i hend
      exact settleWeek_charged hi hs hl hund (by simpa [isSubscription] using hkind) hend.1 hend.2
    · simp only [pure_ok, Except.ok.injEq] at hok
      rw [← hok, settleWeekBooks_destroyed hi hs, hlive] at hdead
      cases hdead
  | stop => exact stop_charged hi hs hl
  | sellerStop => exact sellerStop_charged hi hs hl
  | _ => exact absurd hc (by simp [IsClean])

/-- Every other exit charges at least what was delivered. -/
theorem delivered_le_charged (hs : Streaming s) (hw : Whole s) (hdr : Drawn s)
    (hc : s.subWeeks = 0 ∨ c ≠ .sellerStop) : trustedTokens c s ≤ settledTokens c s := by
  have hmat := matured_le hs
  by_cases hz : s.subWeeks = 0
  · have hsame : trustedTokens c s = settledTokens c s := by
      cases c <;> simp [trustedTokens, settledTokens, hz]
    exact hsame.le
  · have hterm := hw.term hz
    have hfunded := hs.pend_le_funded
    rcases hc with h | hc
    · exact absurd h hz
    unfold settledTokens
    rw [if_neg hz]
    refine le_max_of_le_right ?_
    by_cases hstop : c = .stop
    · subst hstop
      have hpend := hdr.pend_le hs hw hz
      have htrust : trustedTokens .stop s = matured s := by simp [trustedTokens, hz]
      rw [htrust]
      change matured s ≤ weeksStarted s * s.tokensPerWeek
      by_cases hlast : s.weekIndex < s.subWeeks
      · have hstarted : s.weekIndex + 1 ≤ weeksStarted s := by
          have hge := weeksElapsed_ge hs
          unfold weeksElapsed at hge
          unfold weeksStarted weeksStartedAt
          split <;> omega
        exact (hmat.trans hpend).trans (Nat.mul_le_mul_right _ hstarted)
      · have hge := weeksStarted_ge hs
        have hall : s.subWeeks ≤ weeksStarted s := by omega
        calc matured s ≤ s.fundedTokens := hmat.trans hfunded
          _ = s.subWeeks * s.tokensPerWeek := hterm.symm
          _ ≤ weeksStarted s * s.tokensPerWeek := Nat.mul_le_mul_right _ hall
    · have hweeks : settledWeeks c s = s.subWeeks := by
        unfold settledWeeks
        split
        · exact absurd rfl hstop
        · exact absurd rfl hc
        · rfl
      have htrust : trustedTokens c s = s.tokensPend := by
        unfold trustedTokens
        split
        · exact absurd rfl hc
        · exact absurd rfl hstop
        · rfl
      rw [hweeks, htrust, hterm]
      exact hfunded

theorem rebated_iff (hi : Invariant s) (hs : Streaming s) (hl : Ledger s) (hdr : Drawn s)
    {x : Deal} (hx : Charged c s x) : Rebated x ↔ ¬ Outpaid c s := by
  have hw := hl.whole hs.funded
  have hpos := hi.base.price_pos
  have hmat := hs.tick_le_final.trans (tokensFinal_le_matured hs)
  have htick : tickSize ≤ trustedTokens c s := by
    have hpend := hmat.trans (matured_le hs)
    unfold trustedTokens
    split
    · exact hmat
    · split
      · exact hpend
      · exact hmat
    · exact hpend
  have hticks : 0 < x.ticksFinalized := by
    rw [hx.ticks]
    exact Nat.div_pos htick (by decide)
  have hreb : Rebated x ↔
      rebate s.pricePerTick (trustedTokens c s / tickSize) <
        fee (valueOf s.pricePerTick (settledTokens c s)) := by
    unfold Rebated
    rw [hx.price, hx.fees, hx.ticks]
    rw [hx.ticks] at hticks
    exact ⟨fun h => h hticks, fun h _ => h⟩
  rw [hreb]
  by_cases hseller : c = .sellerStop ∧ s.subWeeks ≠ 0
  · obtain ⟨rfl, hsub⟩ := hseller
    have hcharged : settledTokens .sellerStop s =
        max tickSize (weeksElapsed s * s.tokensPerWeek) := if_neg hsub
    rw [rebate_lt_fee_iff hw.step hpos, hcharged]
    change _ < _ ↔ ¬ (_ ∧ _ ∧ _ ∧ _ ≤ _)
    rw [← not_le]
    apply not_congr
    exact ⟨fun h => ⟨rfl, hs.accepted, hsub, h⟩, fun h => h.2.2.2⟩
  · have hle := delivered_le_charged (c := c) hs hw hdr (by
      by_cases hz : s.subWeeks = 0
      · exact .inl hz
      · exact .inr fun hc => hseller ⟨hc, hz⟩)
    apply iff_of_true
    · exact rebate_lt_fee hw.step hpos hle htick
    · rintro ⟨hc, -, hsub, -⟩
      exact hseller ⟨hc, hsub⟩

theorem trial_rebated (hb : Base s) (ht : Trial s) :
    Rebated (feeRecord E .sellerStop s) := by
  intro hticks
  have hrecord : sellerStopRecord s = forfeitTrial s := sellerStopRecord_trial hb ht
  obtain ⟨-, -, h3, h4⟩ := payFinal_figures (forfeitTrial s)
  obtain ⟨-, -, g3⟩ := atFees_figures (payFinal (forfeitTrial s))
  have hnone : (feeRecord E .sellerStop s).ticksFinalized = 0 := by
    unfold feeRecord
    change (atFees (payFinal (sellerStopRecord s))).ticksFinalized = 0
    have hzero : (forfeitTrial s).tokensFinal = 0 := ht.tokensFinal
    have hacc : (forfeitTrial s).probeAccepted = false := ht.unaccepted
    rw [hrecord, g3]
    unfold recordDelivered
    simp [h3, h4, hzero, hacc]
  omega

/-- However a deal funded by the book closes cleanly, the rebate is strictly below the accrued
fee once a tick is finalized, exactly where the seller's stop of a subscription is not outpaid by
its deliveries; only the buyer's walk out of the trial settles no fee at all. -/
theorem clean_close_rebates_below_fee_iff (E : Env) (s t : Deal) (tx : Tx)
    (h : Reachable E (BookFill E) s) (hadm : Admissible s tx) (hc : IsClean tx.call)
    (hok : exec E tx s = .ok t) (hdead : t.destroyed = true) :
    (tx.call = .stop ∧ t = stopOnProbe (enter tx.msg s)) ∨
    t = closeClean E (payFinal (exitRecord E tx.call (enter tx.msg s))) ∧
      (Rebated (feeRecord E tx.call (enter tx.msg s)) ↔ ¬ Outpaid tx.call (enter tx.msg s)) := by
  obtain ⟨hlive, hd, -⟩ := exec_ok hok
  obtain ⟨hi, hl, hdr⟩ := reachable_drawn h hlive
  have hin : Invariant (enter tx.msg s) := hi.enter hadm.later hadm.clock
  have hlin := enter_ledger hl tx.msg
  have hdin : Drawn (enter tx.msg s) := hdr.kept ⟨rfl, rfl, rfl, rfl, rfl⟩
  obtain ⟨m, c⟩ := tx
  dsimp only at *
  obtain ⟨hopen, hund⟩ := clean_guards hc hd
  have hlive' : (enter m s).destroyed = false := hlive
  generalize enter m s = u at *
  cases ha : u.probeAccepted with
  | true =>
    have hs := hin.streaming ha
    exact .inr ⟨exit_closes hin hs hlive' hc hd hdead,
      rebated_iff hin hs hlin hdin (exit_charged hin hs hlin hlive' hc hd hdead)⟩
  | false =>
    have ht := hin.trial hopen ha
    cases c with
    | finalize =>
      obtain ⟨-, -, hp, -⟩ := finalize_ok hd hin.base.promote_lt
      rw [ht.tokensPend] at hp
      omega
    | settleWeek =>
      change settleWeek E u = .ok t at hd
      simp only [settleWeek, require_bind_ok] at hd
      rw [ha] at hd
      cases hd.2.2.1
    | stop =>
      change stop E m u = .ok t at hd
      simp only [stop, require_bind_ok, pure_ok, Except.ok.injEq] at hd
      refine .inl ⟨rfl, ?_⟩
      rw [← hd.2.2.2]
      simp [stopBody, ha]
    | sellerStop =>
      change sellerStop E m u = .ok t at hd
      simp only [sellerStop, require_bind_ok, pure_ok, Except.ok.injEq] at hd
      refine .inr ⟨hd.2.2.2.symm, iff_of_true (trial_rebated hin.base ht) ?_⟩
      rintro ⟨-, hacc, -⟩
      rw [ha] at hacc
      cases hacc
    | _ => exact absurd hc (by simp [IsClean])

/-- The seller leaves an ordinary deal after one and a half ticks. -/
theorem clean_close_rebates_below_fee : ∃ s t, Reachable sampleEnv (BookFill sampleEnv) s ∧
    exec sampleEnv (sellerTx 500 .sellerStop) s = .ok t ∧
    Rebated (feeRecord sampleEnv .sellerStop (enter (sellerTx 500 .sellerStop).msg s)) := by
  have hplay : (played (BookFill sampleEnv)
      (openedSchedule ++ [sellerTx 400 (.claimTokens 1500000)])).any (fun s =>
        decide (Admissible s (sellerTx 500 .sellerStop)) &&
        !decide (Outpaid .sellerStop (enter (sellerTx 500 .sellerStop).msg s)) &&
        (exec sampleEnv (sellerTx 500 .sellerStop) s).toOption.any (fun t => t.destroyed)) =
      true := by
    decide
  obtain ⟨s, h, hp⟩ := played_reachable hplay
  simp only [Bool.and_eq_true, Bool.not_eq_true', decide_eq_true_eq, decide_eq_false_iff_not] at hp
  obtain ⟨⟨hadm, hout⟩, hexec⟩ := hp
  obtain ⟨t, ht, hdead⟩ := exec_of_any hexec
  rcases clean_close_rebates_below_fee_iff sampleEnv s t (sellerTx 500 .sellerStop) h hadm trivial
    ht hdead with ⟨hstop, -⟩ | ⟨-, hiff⟩
  · cases hstop
  · exact ⟨s, t, h, ht, hiff.mpr hout⟩

/-- A deal with room for eight ticks a week. -/
def longDeal : Deal :=
  (({ sellerPubkey := 1, rootModelAddress := 3, nonce := 0, modelName := "m", modelHash := 5
      pricePerTick := 10 ^ 9, maxTicks := 32, sellerNote := 7, now := 0 } : Deal).send
    .contractDeployed).send (.registerTokenContract 3)

theorem longDeal_constructed : Constructed sampleEnv longDeal := by
  refine ⟨{ sender := 7, pubkey := 0, now := 0 }, { sampleArgs with maxTicks := 32 }, by decide, ?_⟩
  simp only [construct, require_bind_ok]
  exact ⟨rfl, rfl, by decide, by decide, by decide, by decide,
    by decide, rfl, rfl⟩

/-- A subscription of eight ticks a week whose first week is delivered in full. -/
def firstWeekSchedule : List Tx :=
  [noteTx 10 (.postFromNote 1 1 0 0 0), bookTx 20 (.fundFromOrderBook 34800000000 8 4 0x40),
    noteTx 31 (.fundDeal 2000000000 none), sellerTx 40 (.openDeal [1]),
    sellerTx 300 .acceptProbe, sellerTx 400 (.claimTokens 2000000),
    sellerTx 500 (.claimTokens 3000000), sellerTx 600 (.claimTokens 4000000),
    sellerTx 700 (.claimTokens 5000000), sellerTx 800 (.claimTokens 6000000),
    sellerTx 900 (.claimTokens 7000000), sellerTx 1000 (.claimTokens 8000000)]

/-- The seller stops before the first boundary: the fee of one tick accrued, eight were delivered,
and the clamp of the rebate leaves nothing to burn. -/
theorem first_week_rebate_takes_fee : ∃ s t, Reachable sampleEnv (BookFill sampleEnv) s ∧
    s.everDisputed = false ∧ exec sampleEnv (sellerTx 1100 .sellerStop) s = .ok t ∧
    t.destroyed = true ∧
    (let x := feeRecord sampleEnv .sellerStop (enter (sellerTx 1100 .sellerStop).msg s)
     x.ticksFinalized = 8 ∧ x.feeAccrued = 25000000 ∧
      rebate x.pricePerTick x.ticksFinalized = 25600000 ∧ rebateDue true x = x.feeAccrued) := by
  have hplay : (TransactionSystem.play (exec sampleEnv)
      (fun s tx => Admissible s tx ∧ BookFill sampleEnv s tx) firstWeekSchedule longDeal).any
        (fun s => !s.everDisputed &&
          (let x := feeRecord sampleEnv .sellerStop (enter (sellerTx 1100 .sellerStop).msg s)
           decide (x.ticksFinalized = 8) && decide (x.feeAccrued = 25000000) &&
            decide (rebate x.pricePerTick x.ticksFinalized = 25600000) &&
            decide (rebateDue true x = x.feeAccrued)) &&
          (exec sampleEnv (sellerTx 1100 .sellerStop) s).toOption.any (fun t => t.destroyed)) =
      true := by
    decide
  obtain ⟨s, hs, hp⟩ := (Option.any_eq_true _ _).mp hplay
  have h : Reachable sampleEnv (BookFill sampleEnv) s :=
    (TransactionSystem.Reachable.start longDeal_constructed).play hs
  simp only [Bool.and_eq_true, Bool.not_eq_true', decide_eq_true_eq] at hp
  obtain ⟨⟨hever, ⟨⟨h1, h2⟩, h3⟩, h4⟩, hexec⟩ := hp
  obtain ⟨t, ht, hdead⟩ := exec_of_any hexec
  exact ⟨s, t, h, hever, ht, hdead, h1, h2, h3, h4⟩

end TokenContractRebate
