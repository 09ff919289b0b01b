import Dexdo.SubscriptionKeeper
import Dexdo.TokenContractGetters
import Dexdo.TokenContractLedger

/-! # What the keeper plans

The keeper plans from the getters of a subscription. On every subscription that can be reached
its checks pass, and its plan is the contract's own schedule. -/
namespace SubscriptionKeeperPlan

open TokenContractState TokenContractCalls TokenContractCharges TokenContractPayouts
open TokenContractSteps TokenContractInvariant TokenContractExits TokenContractStreaming
open TokenContractLedger TokenContractGetters SubscriptionKeeper

variable {env : Env} {m : Msg} {s t u : Deal} {c : Call} {now : ℕ}

def keeperView (s : Deal) : KeeperSnapshot := ⟨chainState s, subscription s⟩

def readDeal (s : Deal) : Option KeeperSnapshot := if s.destroyed then none else some (keeperView s)

def contractBounds : ClaimBounds := .fromConfig minClaimInterval minSecondsPerTick

/-! ## The subscriptions a keeper serves -/

structure Scheduled (s : Deal) : Prop where
  week : s.subWeeks ≠ 0 → tickSize ≤ s.tokensPerWeek
  start : s.probeAccepted = true → 0 < s.periodStart
  base : s.probeAccepted = false → s.weekBaseTokens = 0

theorem filled_scheduled {paid : ℕ} {b : Address} {k f : ℕ} (hi : Invariant s) (h : Scheduled s)
    (hfill : Filled paid b k f s t) (hwhole : WholeFill paid f s.pricePerTick) : Scheduled t := by
  have hfresh := (hi.idle (hi.closed_of_unfunded hfill.unfunded)).unaccepted
  have hunit : 0 < unit s.pricePerTick := Nat.add_pos_left hi.base.price_pos _
  have htwo : 2 ≤ (paid - fillBond f s.pricePerTick) / unit s.pricePerTick :=
    (Nat.le_div_iff_mul_le hunit).mpr hfill.low
  have hbase := h.base hfresh
  rw [hfill.eq]
  constructor
  · intro hsub
    have hflag : f &&& flagSubscription ≠ 0 := by
      intro hz
      simp [hz] at hsub
    have hfour := Nat.le_of_dvd (by omega) (hwhole.weeks hflag)
    simp only [hflag, ne_eq, not_false_eq_true, if_true, subWeeksConst, OfNat.ofNat_ne_zero,
      if_false] at hfour ⊢
    unfold tickSize
    omega
  · intro ha
    rw [hfresh] at ha
    cases ha
  · intro _
    exact hbase

theorem FreshStep.scheduled (hi : Invariant s) (h : Scheduled s)
    (hbook : ∀ f ∈ fillOf c, m.sender = orderBook env s → WholeFill f.1 f.2 s.pricePerTick)
    (hpast : c = .acceptProbe → 0 < s.now) (hstep : FreshStep env m s c t) : Scheduled t := by
  cases hstep with
  | relisted _ _ _ hrel =>
    rw [hrel.eq]
    exact { h with }
  | filled p b k f hm hfill => exact filled_scheduled hi h hfill (hbook (p, f) rfl hm)
  | sellerBonded a c _ _ _ heq =>
    rw [heq]
    exact { h with }
  | buyerBonded a _ _ _ heq =>
    rw [heq]
    exact { h with }
  | opened c hfu ho _ _ heq =>
    have hbase := h.base (hi.idle ho).unaccepted
    rw [heq]
    exact ⟨h.week, nofun, fun _ => hbase⟩
  | accepted _ _ _ heq =>
    have hnow := hpast rfl
    rw [heq]
    exact ⟨h.week, fun _ => hnow, nofun⟩
  | disputed _ _ heq =>
    rw [heq]
    exact { h with }
  | cleaned _ heq =>
    rw [heq]
    exact { h with }

theorem StreamStep.scheduled (hb : Base s) (hs : Streaming s) (h : Scheduled s)
    (hstep : StreamStep s c t) : Scheduled t := by
  have hterm := hstep.sameTerm hb hs
  constructor
  · intro hsub
    rw [hterm.tokensPerWeek]
    rw [hterm.subWeeks] at hsub
    exact h.week hsub
  · intro _
    rw [hterm.periodStart]
    exact h.start hs.accepted
  · intro ha
    rw [hterm.accepted, hs.accepted] at ha
    cases ha

theorem dispatch_scheduled (hi : Invariant s) (h : Scheduled s)
    (hbook : ∀ f ∈ fillOf c, m.sender = orderBook env s → WholeFill f.1 f.2 s.pricePerTick)
    (hok : dispatch env m s c = .ok t) (hf : t.fault = false) (hlive : t.destroyed = false) :
    Scheduled t := by
  cases ha : s.probeAccepted with
  | true =>
    have hs := hi.streaming ha
    exact StreamStep.scheduled hi.base hs h (stream_step hi hs hok hf hlive)
  | false =>
    -- the trial is accepted only when its window is over
    have hpast : c = .acceptProbe → 0 < s.now := by
      rintro rfl
      have hwindow := (acceptProbe_ok hok hf).2.2.2.1
      unfold probeWindow at hwindow
      omega
    exact FreshStep.scheduled hi h hbook hpast (fresh_step hi ha hok hf hlive)

structure Kept (s : Deal) : Prop where
  inv : Invariant s
  sched : Scheduled s
  live : s.destroyed = false

theorem Kept.enter (h : Kept s) (hadm : Admissible s ⟨m, c⟩) : Kept (enter m s) :=
  ⟨h.inv.enter hadm.later hadm.clock, { h.sched with }, h.live⟩

theorem Kept.exec {tx : Tx} (h : Kept s) (hadm : Admissible s tx) (hbook : BookFill env s tx)
    (hok : exec env tx s = .ok t) (hlive : t.destroyed = false) : Kept t := by
  obtain ⟨-, hd, hf⟩ := exec_ok hok
  have hin := h.enter (m := tx.msg) (c := tx.call) hadm
  exact ⟨exec_invariant h.inv hadm hok hlive,
    dispatch_scheduled hin.inv hin.sched hbook hd hf hlive, hlive⟩

theorem constructed_kept (h : Constructed env s) : Kept s := by
  refine ⟨constructed_invariant h, ?_, ?_⟩ <;> obtain ⟨m, a, -, h⟩ := h <;>
    simp only [construct, require_bind_ok, pure_ok, Except.ok.injEq] at h <;>
    obtain ⟨-, -, -, -, -, -, -, -, rfl⟩ := h
  · exact ⟨fun hz => absurd rfl hz, by intros; contradiction, fun _ => rfl⟩
  · rfl

theorem reachable_kept (h : Reachable env (BookFill env) s) (hlive : s.destroyed = false) :
    Kept s := by
  revert hlive
  refine TransactionSystem.Reachable.invariant (I := fun s => s.destroyed = false → Kept s)
    (fun s h _ => constructed_kept h) ?_ h
  intro s tx t ih hΦ hok hlive
  have hs := ih (exec_ok hok).1
  exact hs.exec hΦ.1 hΦ.2 hok hlive

structure OpenSubscription (s : Deal) : Prop extends Kept s where
  opened : s.opened = true
  sub : s.subWeeks ≠ 0

theorem OpenSubscription.enter (h : OpenSubscription s) (hadm : Admissible s ⟨m, c⟩) :
    OpenSubscription (enter m s) :=
  ⟨h.toKept.enter hadm, h.opened, h.sub⟩

theorem OpenSubscription.streaming (h : OpenSubscription s) (ha : s.probeAccepted = true) :
    Streaming s := h.inv.streaming ha

theorem OpenSubscription.trial (h : OpenSubscription s) (ha : s.probeAccepted = false) :
    Trial s := h.inv.trial h.opened ha

theorem OpenSubscription.funded (h : OpenSubscription s) : s.funded = true :=
  h.inv.funded_of_opened h.opened

theorem OpenSubscription.term (h : OpenSubscription s) : s.subWeeks = 4 := by
  have hkind : ∀ ticks, Shape ticks s → s.subWeeks = 4 := by
    intro ticks hshape
    rcases hshape.kind with ⟨hz, -⟩ | ⟨hfour, -⟩
    · exact absurd hz h.sub
    · exact hfour
  cases ha : s.probeAccepted with
  | true =>
    obtain ⟨ticks, hshape⟩ := (h.streaming ha).shape
    exact hkind ticks hshape
  | false =>
    obtain ⟨ticks, hshape⟩ := (h.trial ha).shape
    exact hkind ticks hshape

theorem OpenSubscription.tick_le_paid (h : OpenSubscription s) (ha : s.probeAccepted = true) :
    tickSize ≤ s.tokensPaid := by
  have hpaid := (h.streaming ha).paid
  have hweek := h.sched.week h.sub
  rw [hpaid]
  split
  · exact le_rfl
  · rename_i hne
    exact hweek.trans (Nat.le_mul_of_pos_left _ (Nat.pos_of_ne_zero hne))

theorem OpenSubscription.base_le_pend (h : OpenSubscription s) :
    s.weekBaseTokens ≤ s.tokensPend := by
  cases ha : s.probeAccepted with
  | true =>
    have hs := h.streaming ha
    by_cases hz : s.weekIndex = 0
    · rw [hs.base_zero hz]
      exact Nat.zero_le _
    · exact (hs.base_pos hz).2
  | false =>
    rw [h.sched.base ha]
    exact Nat.zero_le _

/-! ## What the keeper reads passes its checks -/

theorem refuse_bind_ok {p : Prop} [Decidable p] {e : KeeperError} {α : Type}
    {f : Unit → Except KeeperError α} (h : ¬ p) : (refuse p e >>= f) = f () := by
  rw [refuse_bind, if_neg h]

theorem ok_bind {α β : Type} {a : α} {f : α → Except KeeperError β} :
    ((Except.ok a : Except KeeperError α) >>= f) = f a := rfl

structure Accepted (v : KeeperSnapshot) : Prop where
  final : tickSize ≤ v.deal.tokensFinal
  paid : tickSize ≤ v.subscription.tokensPaid
  start : 0 < v.subscription.periodStart
  claim : 0 < v.deal.lastClaimTime

theorem Accepted.validate {v : KeeperSnapshot} (h : Accepted v) :
    validateAccepted v.deal v.subscription = .ok () := by
  have hfinal := h.final
  have hpaid := h.paid
  have hstart := h.start
  have hclaim := h.claim
  unfold validateAccepted
  rw [refuse_bind_ok (by omega), refuse_bind_ok (by omega)]
  exact if_neg (by omega)

/-- What the checks ask of a subscription. -/
structure Sound (v : KeeperSnapshot) : Prop where
  final_le : v.deal.tokensFinal ≤ v.deal.tokensPending
  funded : v.deal.funded = true
  weeks : v.subscription.weekIndex ≤ v.subscription.subWeeks
  volume : v.deal.tokensPending ≤ v.subscription.fundedTokens
  base : v.subscription.weekBaseTokens ≤ v.deal.tokensPending
  accepted : v.deal.probeAccepted = true → Accepted v

theorem Sound.validate {v : KeeperSnapshot} (h : Sound v) : validateSnapshot v = .ok () := by
  have hfinal := h.final_le
  have hfunded := h.funded
  have hweeks := h.weeks
  have hvolume := h.volume
  have hbase := h.base
  unfold validateSnapshot
  rw [refuse_bind_ok (by omega), refuse_bind_ok (by simp [hfunded])]
  split
  · unfold validateSubscription
    rw [refuse_bind_ok (by omega), refuse_bind_ok (by omega), refuse_bind_ok (by omega)]
    split
    · rename_i hboth
      exact (h.accepted (Bool.and_eq_true_iff.mp hboth).2).validate
    · rfl
  · rfl

theorem isStopped_opened (h : s.opened = true) : (keeperView s).deal.isStopped = false := by
  simp [DealGetters.DealChainState.isStopped, keeperView, chainState, h]

theorem isSubscription_sub (h : s.subWeeks ≠ 0) :
    (keeperView s).subscription.isSubscription = true := by
  simp [DealGetters.DealSubscription.isSubscription, keeperView, subscription, h]

theorem OpenSubscription.sound (h : OpenSubscription s) : Sound (keeperView s) := by
  have hbase := h.base_le_pend
  have hfunded := h.funded
  cases ha : s.probeAccepted with
  | true =>
    have hs := h.streaming ha
    have hstart := h.sched.start ha
    exact ⟨hs.final_le_pend, hfunded, hs.weeks, hs.pend_le_funded, hbase, fun _ =>
      ⟨hs.tick_le_final, h.tick_le_paid ha, hstart, hstart.trans_le h.inv.base.start_le⟩⟩
  | false =>
    have ht := h.trial ha
    have hfinal : s.tokensFinal ≤ s.tokensPend := by
      rw [ht.tokensFinal]
      exact Nat.zero_le _
    have hweeks : s.weekIndex ≤ s.subWeeks := by
      rw [ht.weekIndex]
      exact Nat.zero_le _
    have hvolume : s.tokensPend ≤ s.fundedTokens := by
      rw [ht.tokensPend]
      exact Nat.zero_le _
    refine ⟨hfinal, hfunded, hweeks, hvolume, hbase, fun hacc => ?_⟩
    change s.probeAccepted = true at hacc
    rw [ha] at hacc
    cases hacc

/-! ## The plan is the schedule of the contract -/

/-- What the keeper plans for an open subscription, and on which grounds. -/
inductive Planned (s : Deal) (now : ℕ) : KeeperPlan → Prop where
  | held (d) : s.probeAccepted = false ∨ s.disputed = true → Planned s now (.wait d)
  | promotes : s.probeAccepted = true → s.disputed = false → s.tokensFinal < s.tokensPend →
      s.lastClaimTime + claimPromoteWindow ≤ now → Planned s now .finalize
  | books : s.probeAccepted = true → s.disputed = false → s.weekIndex < s.subWeeks →
      s.periodStart + subWeekLen * (s.weekIndex + 1) ≤ now →
      Planned s now (.settleWeek (min ((now - s.periodStart) / subWeekLen) s.subWeeks))
  | closes : s.probeAccepted = true → s.disputed = false → s.weekIndex = s.subWeeks →
      s.lastClaimTime + claimPromoteWindow ≤ now → s.tokensFinal = s.tokensPend →
      Planned s now (.settleWeek s.subWeeks)
  | waits (d) : s.probeAccepted = true → s.disputed = false →
      (s.tokensFinal < s.tokensPend → now < s.lastClaimTime + claimPromoteWindow) →
      (s.weekIndex < s.subWeeks → now < s.periodStart + subWeekLen * (s.weekIndex + 1)) →
      (s.weekIndex = s.subWeeks → s.tokensFinal = s.tokensPend →
        now < s.lastClaimTime + claimPromoteWindow) → Planned s now (.wait d)

theorem thenTranspose_ok {p : Prop} [Decidable p] {n : ℕ} :
    thenTranspose p (.ok n) = .ok (if p then some n else none) := by
  unfold thenTranspose
  split
  · rfl
  · rfl

theorem checkedAdd_ok {a b : ℕ} {e : KeeperError} (h : a + b < u64) :
    checkedAdd a b e = .ok (a + b) := if_pos h

theorem nextWeekBoundary_ok {d : DealGetters.DealSubscription} (hweek : d.weekIndex < 4)
    (hstart : d.periodStart < 2 ^ 63) :
    nextWeekBoundary d = .ok (d.periodStart + subWeekLen * (d.weekIndex + 1)) := by
  have hlen : subWeekLen * (d.weekIndex + 1) ≤ 2419200 := by
    unfold subWeekLen
    omega
  unfold nextWeekBoundary
  rw [checkedAdd_ok (by unfold u64; omega), ok_bind, refuse_bind_ok (by unfold u64; omega)]
  exact checkedAdd_ok (by unfold u64; omega)

theorem scheduledWeekTarget_ok {d : DealGetters.DealSubscription} (hterm : d.subWeeks = 4)
    (hweek : d.weekIndex < 4) (hdue : d.periodStart + subWeekLen * (d.weekIndex + 1) ≤ now) :
    scheduledWeekTarget d now = .ok (min ((now - d.periodStart) / subWeekLen) d.subWeeks) := by
  have hpast : d.weekIndex + 1 ≤ (now - d.periodStart) / subWeekLen := by
    apply (Nat.le_div_iff_mul_le (by decide)).mpr
    rw [Nat.mul_comm]
    omega
  unfold scheduledWeekTarget
  rw [refuse_bind_ok (by omega), hterm]
  dsimp only
  rw [refuse_bind_ok (by unfold u8; omega), refuse_bind_ok (by omega)]
  rfl

/-- The plan over deadlines that do not overflow. -/
theorem planLive_eq {deal : DealGetters.DealChainState} {d : DealGetters.DealSubscription}
    {bounds : ClaimBounds} {last next final : Option ℕ}
    (hlast : thenTranspose (deal.tokensPending > deal.tokensFinal)
      (checkedDeadline deal.lastClaimTime bounds.promoteWindow "lastClaimTime") = .ok last)
    (hnext : thenTranspose (d.weekIndex < d.subWeeks) (nextWeekBoundary d) = .ok next)
    (hfinal : thenTranspose (d.weekIndex = d.subWeeks)
      (checkedDeadline deal.lastClaimTime bounds.promoteWindow "lastClaimTime") = .ok final) :
    planLive deal d bounds now =
      if last.any (· ≤ now) then .ok .finalize
      else if next.any (· ≤ now) then (scheduledWeekTarget d now).map .settleWeek
      else if final.any (· ≤ now) ∧ deal.tokensFinal = deal.tokensPending then
        .ok (.settleWeek d.subWeeks)
      else .ok (.wait (delayUntil bounds.minClaimInterval now [last, next, final])) := by
  unfold planLive
  rw [hlast, ok_bind]
  split
  · rfl
  · rw [hnext, ok_bind]
    split
    · cases scheduledWeekTarget d now with
      | error e => rfl
      | ok k => rfl
    · rw [hfinal, ok_bind]
      split
      · rfl
      · rfl

theorem any_some {p : Prop} [Decidable p] {n : ℕ} :
    (if p then some n else none).any (· ≤ now) = true ↔ p ∧ n ≤ now := by
  by_cases h : p
  · simp [h]
  · simp [h]

theorem planLive_planned (h : OpenSubscription s) (ha : s.probeAccepted = true)
    (hd : s.disputed = false) : ∃ p, planLive (keeperView s).deal (keeperView s).subscription
      contractBounds now = .ok p ∧ Planned s now p := by
  have hs := h.streaming ha
  have hterm := h.term
  have hweeks := hs.weeks
  have hclock := h.inv.base.clock
  have hclaim := h.inv.base.claim_le
  have hstart := h.inv.base.start_le
  have hdeadline : checkedDeadline s.lastClaimTime claimPromoteWindow "lastClaimTime" =
      .ok (s.lastClaimTime + claimPromoteWindow) := by
    apply checkedAdd_ok
    unfold claimPromoteWindow minSecondsPerTick u64
    omega
  have hboundary : thenTranspose (s.weekIndex < s.subWeeks) (nextWeekBoundary (subscription s)) =
      .ok (if s.weekIndex < s.subWeeks then
        some (s.periodStart + subWeekLen * (s.weekIndex + 1)) else none) := by
    by_cases hlt : s.weekIndex < s.subWeeks
    · have hnext := nextWeekBoundary_ok (d := subscription s) (by change s.weekIndex < 4; omega)
        (by change s.periodStart < _; omega)
      rw [hnext]
      exact thenTranspose_ok
    · rw [if_neg hlt]
      exact if_neg hlt
  have hpromote : thenTranspose (s.tokensPend > s.tokensFinal)
      (checkedDeadline s.lastClaimTime claimPromoteWindow "lastClaimTime") =
      .ok (if s.tokensPend > s.tokensFinal then some (s.lastClaimTime + claimPromoteWindow)
        else none) := by
    rw [hdeadline]
    exact thenTranspose_ok
  have hclose : thenTranspose (s.weekIndex = s.subWeeks)
      (checkedDeadline s.lastClaimTime claimPromoteWindow "lastClaimTime") =
      .ok (if s.weekIndex = s.subWeeks then some (s.lastClaimTime + claimPromoteWindow)
        else none) := by
    rw [hdeadline]
    exact thenTranspose_ok
  rw [planLive_eq hpromote hboundary hclose]
  by_cases h1 : s.tokensFinal < s.tokensPend ∧ s.lastClaimTime + claimPromoteWindow ≤ now
  · rw [if_pos (any_some.mpr h1)]
    exact ⟨_, rfl, .promotes ha hd h1.1 h1.2⟩
  rw [if_neg (any_some.not.mpr h1)]
  by_cases h2 : s.weekIndex < s.subWeeks ∧ s.periodStart + subWeekLen * (s.weekIndex + 1) ≤ now
  · have htarget := scheduledWeekTarget_ok (d := (keeperView s).subscription) hterm
      (by change s.weekIndex < 4; omega) h2.2
    rw [if_pos (any_some.mpr h2), htarget]
    exact ⟨_, rfl, .books ha hd h2.1 h2.2⟩
  rw [if_neg (any_some.not.mpr h2)]
  by_cases h3 : (s.weekIndex = s.subWeeks ∧ s.lastClaimTime + claimPromoteWindow ≤ now) ∧
      (keeperView s).deal.tokensFinal = (keeperView s).deal.tokensPending
  · rw [if_pos (h3.imp_left any_some.mpr)]
    exact ⟨_, rfl, .closes ha hd h3.1.1 h3.1.2 h3.2⟩
  rw [if_neg (fun hbad => h3 (hbad.imp_left any_some.mp))]
  refine ⟨_, rfl, .waits _ ha hd (fun hlt => ?_) (fun hlt => ?_) (fun hend heq => ?_)⟩
  · exact Nat.lt_of_not_le fun hle => h1 ⟨hlt, hle⟩
  · exact Nat.lt_of_not_le fun hle => h2 ⟨hlt, hle⟩
  · exact Nat.lt_of_not_le fun hle => h3 ⟨⟨hend, hle⟩, heq⟩

theorem plan_planned (h : OpenSubscription s) (now : ℕ) :
    ∃ p, plan (keeperView s) contractBounds now = .ok p ∧ Planned s now p := by
  have hkind := isSubscription_sub h.sub
  have hstopped := isStopped_opened h.opened
  unfold plan
  rw [h.sound.validate, ok_bind]
  dsimp only
  rw [if_neg (by rw [hkind]; simp), if_neg (by rw [hstopped]; simp), if_neg (by decide)]
  split
  · rename_i hheld
    refine ⟨_, rfl, .held _ ?_⟩
    rcases hheld with ho | hheld
    · change s.opened = false at ho
      rw [h.opened] at ho
      cases ho
    · exact hheld
  · rename_i hlive
    rw [if_neg (by decide)]
    have ha : s.probeAccepted = true := by
      by_contra hna
      exact hlive (.inr (.inl (Bool.eq_false_iff.mpr hna)))
    have hd : s.disputed = false := by
      by_contra hnd
      exact hlive (.inr (.inr (Bool.eq_true_of_not_eq_false hnd)))
    exact planLive_planned h ha hd

end SubscriptionKeeperPlan
