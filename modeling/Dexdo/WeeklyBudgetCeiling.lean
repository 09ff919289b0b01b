import Dexdo.RouteBudgetRuns
import Dexdo.SubscriptionKeeperChain
import Dexdo.WeeklyBudget

/-! # The contract's ceiling and the route's

The quota on the books of a running term never falls, and it is what a claim would be measured
against as long as the term lasts. -/
namespace WeeklyBudget

open TokenContractState TokenContractCalls TokenContractGetters DealGetters RouteBudget
open TokenContractSteps TokenContractInvariant TokenContractStreaming TokenContractQuota
open SubscriptionKeeper SubscriptionKeeperPlan SubscriptionKeeperChain TokenContractLedger

variable {env : Env} {s t : Deal} {now anchor c : ℕ}

/-! ## The books -/

def quota (s : Deal) : ℕ := min (s.weekBaseTokens + s.tokensPerWeek) s.fundedTokens

/-- The ceiling `claimTokens` applies at block time `now`, after the boundaries it books. -/
def claimCeiling (env : Env) (now : ℕ) (s : Deal) : ℕ :=
  claimCap (settleToClock env { s with now := now, fault := false })

theorem quota_le (h : Onward s t) : quota s ≤ quota t := by
  have hbase := h.base_le
  unfold quota
  rw [h.tokensPerWeek, h.fundedTokens]
  omega

theorem tick_le_quota (h : OpenSubscription s) : tickSize ≤ quota s := by
  have hweek := h.sched.week h.sub
  have hshape : ∃ ticks, Shape ticks s := by
    cases ha : s.probeAccepted with
    | true => exact (h.streaming ha).shape
    | false => exact (h.trial ha).shape
  obtain ⟨ticks, hshape⟩ := hshape
  have htokens := hshape.tokens
  have hlow := hshape.low
  have hfunded : tickSize ≤ s.fundedTokens := by
    rw [htokens]
    exact Nat.le_mul_of_pos_left _ (by omega)
  unfold quota
  omega

theorem pend_le_quota (h : OpenSubscription s) : s.tokensPend ≤ quota s := by
  cases ha : s.probeAccepted with
  | true =>
    have hs := h.streaming ha
    have hquota := hs.quota h.sub
    have hfunded := hs.pend_le_funded
    have hweek := h.sched.week h.sub
    unfold quota
    omega
  | false =>
    rw [(h.trial ha).tokensPend]
    exact Nat.zero_le _

theorem base_le_booked {u : Deal} (h : OpenSubscription s) (hs : Streaming s)
    (hu : Booked (settledBooks s) u) :
    s.weekBaseTokens ≤ u.weekBaseTokens ∧ u.weekIndex = weeksElapsed s ∧
      u.tokensPerWeek = s.tokensPerWeek ∧ u.fundedTokens = s.fundedTokens ∧
      u.subWeeks = s.subWeeks := by
  obtain ⟨c, d, o, f, p, b, heq, hsame, hnew⟩ := booked_marks h.inv.base hs hu
  have hpend := h.base_le_pend
  have hbase : s.weekBaseTokens ≤ b := by
    rcases Nat.eq_or_lt_of_le (weeksElapsed_ge hs) with he | hlt
    · exact (hsame he.symm).ge
    · rw [hnew hlt]
      exact hpend
  rw [heq]
  exact ⟨hbase, rfl, rfl, rfl, rfl⟩

/-- Until the term ends a claim is measured against at least the quota on the books. -/
theorem quota_le_claimCeiling (h : OpenSubscription s) (ha : s.probeAccepted = true)
    (hnow : s.now ≤ now) (hclock : now < 2 ^ 63) (hterm : weeksElapsedAt now s < s.subWeeks) :
    quota s ≤ claimCeiling env now s := by
  let m : Msg := ⟨0, 0, now, 0⟩
  have hin : OpenSubscription (enter m s) := h.enter (c := .finalize) ⟨hnow, hclock⟩
  have hs : Streaming (enter m s) := hin.streaming ha
  obtain ⟨hbase, hindex, hweek, hfunded, hsub⟩ := base_le_booked hin hs
    (settleBoundaries_booked (E := env) hs.accepted)
  change s.weekBaseTokens ≤ _ at hbase
  change _ = s.tokensPerWeek at hweek
  change _ = s.fundedTokens at hfunded
  change _ = s.subWeeks at hsub
  change _ = weeksElapsedAt now s at hindex
  have hkind : isSubscription (settleBoundaries env (weeksElapsed (enter m s)) (enter m s)) =
      true := by
    unfold isSubscription
    rw [hsub]
    simp [h.sub]
  have hstart : (enter m s).check ((enter m s).periodStart ≤ (enter m s).now) = enter m s :=
    Deal.check_pass (hin.inv.base.start_le.trans hin.inv.base.claim_le)
  have hcap : claimCeiling env now s =
      claimCap (settleBoundaries env (weeksElapsed (enter m s)) (enter m s)) := by
    change claimCap (settleToClock env (enter m s)) = _
    unfold settleToClock
    rw [hstart]
    rfl
  rw [hcap]
  unfold claimCap
  rw [hkind, if_neg (by simp), if_neg (by omega), hweek, hfunded]
  unfold quota
  omega

/-! ## What a snapshot says -/

theorem claimCapAt_quota (hterm : termIsOver (keeperView s).subscription = false)
    (h : subscriptionClaimCapAt (keeperView s).deal (keeperView s).subscription = some c) :
    c = quota s := by
  unfold subscriptionClaimCapAt at h
  rw [hterm] at h
  split at h
  · cases h
  · simp only [Bool.false_eq_true, if_false] at h
    split at h
    · exact (Option.some.inj h).symm
    · cases h

theorem localCeiling_quota (hterm : termIsOver (keeperView s).subscription = false)
    (h : localCeiling (keeperView s) anchor = some c) : c + anchor = quota s ∧ c < u64 := by
  unfold localCeiling at h
  split at h
  · rename_i cap hcap
    have hquota := claimCapAt_quota hterm hcap
    split at h
    · rename_i hle
      cases h
      omega
    · cases h
  · cases h

theorem headroom_quota (h : OpenSubscription s)
    (hroom : currentWeekHeadroom (chainState s) (subscription s) = some c) :
    c + s.tokensPend ≤ quota s := by
  unfold currentWeekHeadroom at hroom
  split at hroom
  · rename_i cap hcap
    split at hroom
    · rename_i hle
      have hpend : (chainState s).tokensPending = s.tokensPend := rfl
      rw [hpend] at hroom hle
      cases hroom
      cases hterm : termIsOver (keeperView s).subscription with
      | false =>
        have hquota : cap = quota s := claimCapAt_quota hterm hcap
        omega
      | true =>
        have hcapped : cap = s.tokensPend := by
          unfold subscriptionClaimCapAt at hcap
          split at hcap
          · cases hcap
          · rw [if_pos (show termIsOver (subscription s) = true from hterm)] at hcap
            exact (Option.some.inj hcap).symm
        have hbound := pend_le_quota h
        omega
    · cases hroom
  · cases hroom

/-! ## Before the cutover -/

section Trial

variable {gate : ContentGate} {x y : RouteBudget.State} {a : RouteBudget.Action}

def EarlyPhase : RouteBudget.Phase → Prop
  | .unanchored _ _ => False
  | .sized _ _ c => c ≤ probeTickTokens
  | .exchanging _ _ c _ => c ≤ probeTickTokens
  | _ => True

structure Early (x : RouteBudget.State) : Prop where
  reserved : x.reservedTokens ≤ probeTickTokens
  phases : ∀ i, EarlyPhase (x.at' i)

theorem early_put {u : RouteBudget.State} {p : RouteBudget.Phase} {i : ℕ}
    (h : ∀ j, EarlyPhase (x.at' j)) (hreq : u.requests = x.requests) (hp : EarlyPhase p) :
    ∀ j, EarlyPhase ((u.put i p).at' j) := by
  intro j
  by_cases hj : j = i
  · subst hj
    rw [at_put]
    exact hp
  · rw [at_put_ne hj, State.at', hreq]
    exact h j

/-- While the route is anchored before the probe it hands out no more than the trial tick. -/
theorem Early.move (hs : RouteBudget.Sound gate x) (h : Early x)
    (hx : x.anchoredBeforeProbe = true) (hm : Move gate x a y)
    (hy : y.anchoredBeforeProbe = true) : Early y := by
  cases hm with
  | cutover => cases hy
  | overdrawn hat => exact h
  | published hc => exact ⟨h.reserved, h.phases⟩
  | unanchored hat hflag =>
    rw [hx] at hflag
    cases hflag
  | @loadCeiling i asked res hat =>
    have hown := h.phases i
    rw [hat] at hown
    exact hown.elim
  | anchored hat hflag => exact ⟨h.reserved, early_put h.phases rfl le_rfl⟩
  | @sized i asked res c g hat hfloor hle =>
    have hown := h.phases i
    rw [hat] at hown
    exact ⟨h.reserved, early_put h.phases rfl hown⟩
  | @granted i asked res c g hat hres =>
    have hown := h.phases i
    have hbound := hs.phases i
    rw [hat] at hown hbound
    obtain ⟨hle, hlt, -⟩ := hbound
    change c ≤ probeTickTokens at hown
    refine ⟨?_, early_put (p := .holding ⟨g, 0⟩ .admitted none) h.phases rfl trivial⟩
    change saturatingAdd res g ≤ probeTickTokens
    rw [saturatingAdd_exact (by omega)]
    omega
  | @dropped i r stage hat hstage =>
    have hheld := held_le (s := x) (i := i)
    have hbal := hs.balanced
    rw [hat] at hheld
    simp only [RouteBudget.Phase.held] at hheld
    refine ⟨?_, early_put (p := .idle) h.phases rfl trivial⟩
    change wrappingSub x.reservedTokens r.remaining ≤ probeTickTokens
    rw [wrappingSub_exact (by omega) hs.fits]
    have hres := h.reserved
    omega
  | @droppedBody i r layer left hat =>
    have hheld := held_le (s := x) (i := i)
    have hbal := hs.balanced
    rw [hat] at hheld
    simp only [RouteBudget.Phase.held] at hheld
    refine ⟨?_, early_put (p := .idle) h.phases rfl trivial⟩
    change wrappingSub x.reservedTokens r.remaining ≤ probeTickTokens
    rw [wrappingSub_exact (by omega) hs.fits]
    have hres := h.reserved
    omega
  | _ => exact ⟨h.reserved, early_put h.phases rfl trivial⟩

theorem delivered_le_tick (hs : RouteBudget.Sound gate x) (h : Early x) :
    x.deliveredTokens ≤ tickSize := by
  have hbal := hs.balanced
  have hres : x.reservedTokens ≤ tickSize := h.reserved
  omega

end Trial

end WeeklyBudget
