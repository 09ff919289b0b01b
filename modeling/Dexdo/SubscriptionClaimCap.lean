import Dexdo.TokenContractRebate
import Dexdo.TokenContractGetters

/-! # The claim ceiling outside the contract

The client computes the weekly ceiling of a subscription from the books as stored; the contract
books every boundary that has passed before it measures a claim. -/
namespace SubscriptionClaimCap

open TokenContractState TokenContractCalls TokenContractCharges TokenContractPayouts
open TokenContractSteps TokenContractInvariant TokenContractExits TokenContractStreaming
open TokenContractLedger TokenContractGetters DealGetters

/-! ## The client's figures -/

inductive CapError where
  | notSubscription
  | overflows
  | claimExceeds (tokensPending cap : ℕ)
  deriving DecidableEq, Repr

def CapError.text : CapError → String
  | .notSubscription =>
    "deal is not a subscription; it has no weekly claim ceiling to compute"
  | .overflows => "subscription weekBaseTokens + tokensPerWeek overflows uint128"
  | .claimExceeds claim cap => "subscription cumulative claim " ++ toString claim ++
    " exceeds the recorded week claim ceiling " ++ toString cap

def termIsOver (d : DealSubscription) : Bool :=
  d.isSubscription && decide (d.weekIndex ≥ d.subWeeks)

def subscriptionClaimCapAt (state : DealChainState) (d : DealSubscription) :
    Except CapError ℕ :=
  if !d.isSubscription then .error .notSubscription
  else if termIsOver d then .ok state.tokensPending
  else if d.weekBaseTokens + d.tokensPerWeek < u128 then
    .ok (min (d.weekBaseTokens + d.tokensPerWeek) d.fundedTokens)
  else .error .overflows

def subscriptionCurrentWeekHeadroom (state : DealChainState) (d : DealSubscription) :
    Except CapError ℕ := do
  let cap ← subscriptionClaimCapAt state d
  if state.tokensPending ≤ cap then .ok (cap - state.tokensPending)
  else .error (.claimExceeds state.tokensPending cap)

/-! ## The contract's ceiling at a block time -/

def atTime (t : ℕ) (s : Deal) : Deal := { s with now := t }

def ceilingAt (env : Env) (t : ℕ) (s : Deal) : ℕ := claimCap (settleToClock env (atTime t s))

def boundary (s : Deal) (j : ℕ) : ℕ := s.periodStart + j * subWeekLen

variable {env : Env} {m : Msg} {s u v : Deal} {t : ℕ} {c : Call}

theorem elapsed_le (h : t < boundary s (s.weekIndex + 1)) :
    weeksElapsedAt t s ≤ s.weekIndex := by
  unfold boundary at h
  have hdiv : (t - s.periodStart) / subWeekLen < s.weekIndex + 1 := by
    rw [Nat.div_lt_iff_lt_mul (by decide)]
    unfold subWeekLen at h ⊢
    omega
  exact (min_le_left _ _).trans (Nat.le_of_lt_succ hdiv)

theorem lt_elapsed (h : boundary s (s.weekIndex + 1) ≤ t) (hrun : s.weekIndex < s.subWeeks) :
    s.weekIndex < weeksElapsedAt t s := by
  unfold boundary at h
  have hdiv : s.weekIndex + 1 ≤ (t - s.periodStart) / subWeekLen := by
    rw [Nat.le_div_iff_mul_le (by decide)]
    omega
  exact lt_min hdiv hrun

theorem elapsed_lt (h : t < boundary s s.subWeeks) (hsub : s.subWeeks ≠ 0) :
    weeksElapsedAt t s < s.subWeeks := by
  unfold boundary at h
  have hdiv : (t - s.periodStart) / subWeekLen < s.subWeeks := by
    rw [Nat.div_lt_iff_lt_mul (by decide)]
    unfold subWeekLen at h ⊢
    omega
  exact (min_le_left _ _).trans_lt hdiv

theorem elapsed_eq (h : boundary s s.subWeeks ≤ t) : weeksElapsedAt t s = s.subWeeks := by
  unfold boundary at h
  apply min_eq_right
  rw [Nat.le_div_iff_mul_le (by decide)]
  omega

/-! ## The books as `claimTokens` brings them up to the clock -/

def settledAt (env : Env) (t : ℕ) (s : Deal) : Deal :=
  settleBoundaries env (weeksElapsedAt t s) (atTime t s)

theorem settleToClock_eq (hstart : s.periodStart ≤ t) :
    settleToClock env (atTime t s) = (settledAt env t s).check
      ((settledAt env t s).weekBaseTokens + (settledAt env t s).tokensPerWeek < u128 ∧
        (settledAt env t s).lastClaimTime ≤ (settledAt env t s).now) := by
  have hclock : (atTime t s).periodStart ≤ (atTime t s).now := hstart
  simp only [settleToClock, Deal.check_pass hclock]
  rfl

theorem ceilingAt_eq (hstart : s.periodStart ≤ t) :
    ceilingAt env t s = claimCap (settledAt env t s) := by
  unfold ceilingAt
  rw [settleToClock_eq hstart]
  rfl

theorem settled_trial (env : Env) (t : ℕ) (ha : s.probeAccepted = false) :
    settledAt env t s = atTime t s ∨
      settledAt env t s = reportFinalized env (recordDelivered
        ((atTime t s).send (.tickFinalized s.finalizedOwed s.deposit))) := by
  have hcharge : chargeWeeksThrough (weeksElapsedAt t s) (atTime t s) = atTime t s := by
    have haccepted : (atTime t s).probeAccepted = false := ha
    simp [chargeWeeksThrough, haccepted]
  unfold settledAt settleBoundaries
  split
  · exact .inl rfl
  · rw [hcharge]
    exact .inr rfl

theorem ceiling_trial (ha : s.probeAccepted = false) (hstart : s.periodStart ≤ t) :
    ceilingAt env t s = claimCap s := by
  rw [ceilingAt_eq hstart]
  rcases settled_trial env t ha with h | h
  · rw [h]
    rfl
  · rw [h]
    rfl

/-- After the trial every boundary that has passed is charged, and the last one re-bases the week
on the cumulative claim. -/
theorem settled_books (hb : Base s) (hs : Streaming s) :
    ∃ cl d o f p b, settledBooks (atTime t s) = { atTime t s with
        clamped := cl, deposit := d, finalizedOwed := o, feeAccrued := f, tokensPaid := p
        weekIndex := max s.weekIndex (weeksElapsedAt t s), weekBaseTokens := b } ∧
      b = if s.weekIndex < weeksElapsedAt t s then s.tokensPend else s.weekBaseTokens := by
  have hweekly := Invariant.weekly hb hs
  have hcap : weeksElapsedAt t s ≤ s.subWeeks := weeksElapsedAt_le _ _
  have hweeks := hs.weeks
  have hbacked : Backed (atTime t s) := { hb.toBacked with }
  have hweekly' : Weekly (atTime t s) := { hweekly with }
  obtain ⟨cl, d, o, f, p, b, heq, -, hzero, hpos⟩ :=
    chargeWeeks_spec hbacked hweekly' (weeksElapsedAt t s - s.weekIndex) (by
      change s.weekIndex + (weeksElapsedAt t s - s.weekIndex) ≤ s.subWeeks
      omega)
  have hindex : s.weekIndex + (weeksElapsedAt t s - s.weekIndex) =
      max s.weekIndex (weeksElapsedAt t s) := by omega
  refine ⟨cl, d, o, f, p, b, ?_, ?_⟩
  · rw [← hindex]
    exact heq
  · split
    · rename_i hlt
      rw [(hpos (by omega)).2]
      exact max_eq_right hs.final_le_pend
    · rename_i hlt
      exact (hzero (by omega)).2

theorem settled_accepted (env : Env) (t : ℕ) (hb : Base s) (hs : Streaming s) :
    ∃ cl d o f p k out, settledAt env t s = { atTime t s with
        clamped := cl, deposit := d, finalizedOwed := o, feeAccrued := f, tokensPaid := p
        weekIndex := max s.weekIndex (weeksElapsedAt t s)
        weekBaseTokens :=
          if s.weekIndex < weeksElapsedAt t s then s.tokensPend else s.weekBaseTokens
        ticksFinalized := k, out := out } := by
  obtain ⟨cl, d, o, f, p, b, heq, rfl⟩ := settled_books (t := t) hb hs
  have haccepted : (atTime t s).probeAccepted = true := hs.accepted
  have hbooked := (settleBoundaries_booked (E := env) haccepted).eq
  rw [heq] at hbooked
  exact ⟨cl, d, o, f, p, _, _, hbooked⟩

theorem ceiling_accepted (env : Env) (hb : Base s) (hs : Streaming s) (hsub : s.subWeeks ≠ 0)
    (hstart : s.periodStart ≤ t) :
    ceilingAt env t s =
      if s.subWeeks ≤ max s.weekIndex (weeksElapsedAt t s) then s.tokensPend
      else min ((if s.weekIndex < weeksElapsedAt t s then s.tokensPend else s.weekBaseTokens) +
        s.tokensPerWeek) s.fundedTokens := by
  obtain ⟨cl, d, o, f, p, k, out, heq⟩ := settled_accepted env t hb hs
  rw [ceilingAt_eq hstart, heq]
  simp [claimCap, isSubscription, atTime, hsub]

/-! ## The client's ceiling is the stored one -/

theorem funded_small (hb : Base s) (hw : Whole s) (hshape : ∃ ticks, Shape ticks s) :
    2 * s.fundedTokens < u128 := by
  obtain ⟨ticks, hshape⟩ := hshape
  have hprice : priceStep ≤ s.pricePerTick := Nat.le_of_dvd hb.price_pos hw.step
  have hfits : ticks * s.pricePerTick < u128 := hb.ticks_price_lt hshape.high
  have hvolume : 2 * s.fundedTokens ≤ ticks * priceStep := by
    rw [hshape.tokens]
    unfold tickSize priceStep
    omega
  exact hvolume.trans_lt ((Nat.mul_le_mul_left _ hprice).trans_lt hfits)

theorem cap_ok (hsub : s.subWeeks ≠ 0) (hfits : s.weekBaseTokens + s.tokensPerWeek < u128) :
    subscriptionClaimCapAt (chainState s) (TokenContractGetters.subscription s) =
      .ok (claimCap s) := by
  have hkind : (TokenContractGetters.subscription s).isSubscription = true := by
    simp [DealSubscription.isSubscription, TokenContractGetters.subscription, hsub]
  unfold subscriptionClaimCapAt termIsOver claimCap
  rw [hkind]
  simp [isSubscription, hsub, TokenContractGetters.subscription, chainState, hfits]
  split <;> rfl

theorem headroom_ok {cap : ℕ} (state : DealChainState) (d : DealSubscription)
    (h : subscriptionClaimCapAt state d = .ok cap) (hle : state.tokensPending ≤ cap) :
    subscriptionCurrentWeekHeadroom state d = .ok (cap - state.tokensPending) := by
  unfold subscriptionCurrentWeekHeadroom
  rw [h]
  exact if_pos hle

/-! ## Before the trial is accepted no week has a mark -/

def Unmarked (s : Deal) : Prop := s.probeAccepted = false → s.weekBaseTokens = 0

theorem FreshStep.unmarked (hz : s.weekBaseTokens = 0)
    (h : FreshStep env m s c u) : u.weekBaseTokens = 0 := by
  cases h with
  | relisted _ _ _ hr =>
    rw [hr.eq]
    exact hz
  | filled p b k f _ hfill =>
    rw [hfill.eq]
    exact hz
  | sellerBonded a c _ _ _ heq =>
    rw [heq]
    exact hz
  | buyerBonded a _ _ _ heq =>
    rw [heq]
    exact hz
  | opened c _ _ _ _ heq =>
    rw [heq]
    exact hz
  | accepted _ _ _ heq => rw [heq]
  | disputed _ _ heq =>
    rw [heq]
    exact hz
  | cleaned _ heq =>
    rw [heq]
    exact hz

theorem Unmarked.enter (h : Unmarked s) (m : Msg) : Unmarked (enter m s) := h

theorem reachable_unmarked {Φ : Deal → Tx → Prop} (h : Reachable env Φ s)
    (hlive : s.destroyed = false) : Invariant s ∧ Unmarked s := by
  revert hlive
  refine TransactionSystem.Reachable.invariant
    (I := fun s => s.destroyed = false → Invariant s ∧ Unmarked s) ?_ ?_ h
  · intro s h _
    refine ⟨constructed_invariant h, fun _ => ?_⟩
    obtain ⟨m, a, -, h⟩ := h
    simp only [construct, require_bind_ok, pure_ok, Except.ok.injEq] at h
    obtain ⟨-, -, -, -, -, -, -, -, rfl⟩ := h
    rfl
  · intro s a u ih hadm hok hlive
    obtain ⟨hlives, hd, hf⟩ := exec_ok hok
    obtain ⟨hi, hz⟩ := ih hlives
    have hin : Invariant (enter a.msg s) := hi.enter hadm.1.later hadm.1.clock
    refine ⟨exec_invariant hi hadm.1 hok hlive, fun hu => ?_⟩
    cases ha : (enter a.msg s).probeAccepted with
    | false =>
      have hstep := fresh_step hin ha hd hf hlive
      exact FreshStep.unmarked (hz.enter a.msg ha) hstep
    | true =>
      -- an accepted trial is not taken back
      have hs := hin.streaming ha
      have hsame := (StreamStep.sameTerm hin.base hs (stream_step hin hs hd hf hlive)).accepted
      rw [hsame, ha] at hu
      cases hu

/-! ## The phases of the term -/

theorem claimCap_running (hsub : s.subWeeks ≠ 0) (hrun : s.weekIndex < s.subWeeks) :
    claimCap s = min (s.weekBaseTokens + s.tokensPerWeek) s.fundedTokens := by
  have hrunning : ¬ s.weekIndex ≥ s.subWeeks := Nat.not_le.mpr hrun
  simp [claimCap, isSubscription, hsub, hrunning]

theorem claimCap_over (hsub : s.subWeeks ≠ 0) (hover : s.subWeeks ≤ s.weekIndex) :
    claimCap s = s.tokensPend := by
  simp [claimCap, isSubscription, hsub, hover]

theorem mark_le_pend (hs : Streaming s) : s.weekBaseTokens ≤ s.tokensPend := by
  by_cases hz : s.weekIndex = 0
  · rw [hs.base_zero hz]
    exact Nat.zero_le _
  · exact (hs.base_pos hz).2

theorem pend_le_cap (hs : Streaming s) (hw : Whole s) (hsub : s.subWeeks ≠ 0) :
    s.tokensPend ≤ claimCap s := by
  rcases Nat.lt_or_ge s.weekIndex s.subWeeks with hrun | hover
  · rw [claimCap_running hsub hrun]
    have hquota := hs.quota hsub
    have htick := hw.quota hsub
    exact le_min (by omega) hs.pend_le_funded
  · exact (claimCap_over hsub hover).ge

/-- How the stored ceiling stands to the applied one. -/
structure Phases (env : Env) (t cap : ℕ) (s : Deal) : Prop where
  booked : t < boundary s (s.weekIndex + 1) ∨ s.subWeeks ≤ s.weekIndex → cap = ceilingAt env t s
  behind : boundary s (s.weekIndex + 1) ≤ t → t < boundary s s.subWeeks → cap ≤ ceilingAt env t s
  past : s.weekIndex < s.subWeeks → boundary s s.subWeeks ≤ t → ceilingAt env t s ≤ cap

theorem phases_trial (ha : s.probeAccepted = false) (hstart : s.periodStart ≤ t) :
    Phases env t (claimCap s) s := by
  have heq : ceilingAt env t s = claimCap s := ceiling_trial ha hstart
  exact ⟨fun _ => heq.symm, fun _ _ => heq.ge, fun _ _ => heq.le⟩

theorem phases_accepted (hb : Base s) (hs : Streaming s) (hw : Whole s) (hsub : s.subWeeks ≠ 0)
    (hstart : s.periodStart ≤ t) : Phases env t (claimCap s) s := by
  have hceiling := ceiling_accepted env hb hs hsub hstart
  have hcap : weeksElapsedAt t s ≤ s.subWeeks := weeksElapsedAt_le _ _
  have hweeks := hs.weeks
  refine ⟨fun h => ?_, fun hdue hrun => ?_, fun hrun hover => ?_⟩
  · rw [hceiling]
    rcases Nat.lt_or_ge s.weekIndex s.subWeeks with hrun | hover
    · -- the clock is still in the week the books stand in
      have hin := h.resolve_right (Nat.not_le.mpr hrun)
      have helapsed := elapsed_le hin
      rw [max_eq_left helapsed, if_neg (Nat.not_le.mpr hrun), if_neg (Nat.not_lt.mpr helapsed)]
      exact claimCap_running hsub hrun
    · rw [if_pos (hover.trans (le_max_left _ _))]
      exact claimCap_over hsub hover
  · have hlast := elapsed_lt hrun hsub
    have hindex : s.weekIndex < s.subWeeks := by
      by_contra hnot
      have hend : s.weekIndex = s.subWeeks := by omega
      unfold boundary at hdue hrun
      rw [hend, Nat.add_mul] at hdue
      omega
    have hlate := lt_elapsed hdue hindex
    rw [hceiling, max_eq_right hlate.le, if_neg (Nat.not_le.mpr hlast), if_pos hlate,
      claimCap_running hsub hindex]
    exact min_le_min_right _ (Nat.add_le_add_right (mark_le_pend hs) _)
  · rw [hceiling, elapsed_eq hover, if_pos (le_max_right _ _)]
    exact pend_le_cap hs hw hsub

/-! ## Every open subscription -/

theorem fits_stored (hi : Invariant s) (hz : Unmarked s) (hw : Whole s) (hopen : s.opened = true)
    (hsub : s.subWeeks ≠ 0) :
    s.tokensPend + s.tokensPerWeek < u128 ∧ s.weekBaseTokens + s.tokensPerWeek < u128 := by
  have hquota : s.tokensPerWeek ≤ s.fundedTokens := by
    rw [← hw.term hsub]
    exact Nat.le_mul_of_pos_left _ (Nat.pos_of_ne_zero hsub)
  cases ha : s.probeAccepted with
  | false =>
    have ht := hi.trial hopen ha
    have hsmall := funded_small hi.base hw ht.shape
    have hbase := hz ha
    have hpend := ht.tokensPend
    omega
  | true =>
    have hs := hi.streaming ha
    have hsmall := funded_small hi.base hw hs.shape
    have hmark := mark_le_pend hs
    have hpend := hs.pend_le_funded
    omega

theorem check_fault {p : Prop} [Decidable p] (h : p) : (s.check p).fault = s.fault := by
  rw [Deal.check_pass h]

theorem settle_quiet (hi : Invariant s) (hz : Unmarked s) (hw : Whole s) (hopen : s.opened = true)
    (hsub : s.subWeeks ≠ 0) (hle : s.now ≤ t) :
    (settleToClock env (atTime t s)).fault = s.fault := by
  obtain ⟨hpend, hbase⟩ := fits_stored hi hz hw hopen hsub
  have hclaim : s.lastClaimTime ≤ t := hi.base.claim_le.trans hle
  have hstart : s.periodStart ≤ t := hi.base.start_le.trans hclaim
  rw [settleToClock_eq hstart]
  cases ha : s.probeAccepted with
  | false =>
    rcases settled_trial env t ha with h | h
    all_goals
      rw [h]
      exact check_fault ⟨hbase, hclaim⟩
  | true =>
    obtain ⟨cl, d, o, f, p, k, out, heq⟩ :=
      settled_accepted env t hi.base (hi.streaming ha)
    rw [heq]
    refine check_fault ⟨?_, hclaim⟩
    dsimp only [atTime]
    split
    · exact hpend
    · exact hbase

/-- For every open subscription the book funded and every block time from its last transaction on,
the client's ceiling is the one the contract applies, below it or above it as the phase says, and
the headroom it leaves above the cumulative claim is never refused. -/
theorem client_cap_by_phase (env : Env) (s : Deal) (h : Reachable env (BookFill env) s)
    (hlive : s.destroyed = false) (hopen : s.opened = true) (hsub : s.subWeeks ≠ 0) (t : ℕ)
    (hle : s.now ≤ t) :
    ∃ cap headroom,
      subscriptionClaimCapAt (chainState s) (TokenContractGetters.subscription s) = .ok cap ∧
      subscriptionCurrentWeekHeadroom (chainState s) (TokenContractGetters.subscription s) =
        .ok headroom ∧
      s.tokensPend + headroom = cap ∧
      Phases env t cap s ∧
      (settleToClock env (atTime t s)).fault = s.fault := by
  obtain ⟨hi, hl⟩ := reachable_ledger (fun _ _ h => h) h hlive
  obtain ⟨-, hz⟩ := reachable_unmarked h hlive
  have hw := hl.whole (hi.funded_of_opened hopen)
  have hstart : s.periodStart ≤ t := hi.base.start_le.trans (hi.base.claim_le.trans hle)
  have hcap := cap_ok hsub (fits_stored hi hz hw hopen hsub).2
  have hphases : Phases env t (claimCap s) s ∧ s.tokensPend ≤ claimCap s := by
    cases ha : s.probeAccepted with
    | false =>
      refine ⟨phases_trial ha hstart, ?_⟩
      rw [(hi.trial hopen ha).tokensPend]
      exact Nat.zero_le _
    | true =>
      have hs := hi.streaming ha
      exact ⟨phases_accepted hi.base hs hw hsub hstart, pend_le_cap hs hw hsub⟩
  exact ⟨claimCap s, claimCap s - s.tokensPend, hcap, headroom_ok _ _ hcap hphases.2,
    Nat.add_sub_cancel' hphases.2, hphases.1, settle_quiet hi hz hw hopen hsub hle⟩

/-- Half a tick claimed beyond the trial, in the first of four weeks of two ticks each. Just past the
first boundary the client still reads two ticks where the contract admits three and a half; past the
last one it reads two where the contract stands at one and a half. -/
theorem client_cap_by_phase_subscribed :
    ∃ s, Reachable sampleEnv (BookFill sampleEnv) s ∧
      subscriptionClaimCapAt (chainState s) (TokenContractGetters.subscription s) = .ok 2000000 ∧
      ceilingAt sampleEnv 605110 s = 3500000 ∧ ceilingAt sampleEnv 3000000 s = 1500000 ∧
      ∀ t, s.now ≤ t → ∃ cap, Phases sampleEnv t cap s := by
  have hplay : (played (BookFill sampleEnv) (subscribedSchedule ++
      [sellerTx 400 (.claimTokens 1500000)])).any (fun s =>
        !s.destroyed && s.opened && decide (s.subWeeks ≠ 0) &&
          decide (subscriptionClaimCapAt (chainState s) (TokenContractGetters.subscription s) =
            .ok 2000000) &&
          decide (ceilingAt sampleEnv 605110 s = 3500000) &&
          decide (ceilingAt sampleEnv 3000000 s = 1500000)) = true := by
    decide
  obtain ⟨s, hs, hp⟩ := played_reachable hplay
  simp only [Bool.and_eq_true, Bool.not_eq_true', decide_eq_true_eq] at hp
  obtain ⟨⟨⟨⟨⟨hlive, hopen⟩, hsub⟩, hcap⟩, hfirst⟩, hlast⟩ := hp
  refine ⟨s, hs, hcap, hfirst, hlast, fun t hle => ?_⟩
  obtain ⟨cap, -, -, -, -, hphases, -⟩ :=
    client_cap_by_phase sampleEnv s hs hlive hopen hsub t hle
  exact ⟨cap, hphases⟩

end SubscriptionClaimCap
