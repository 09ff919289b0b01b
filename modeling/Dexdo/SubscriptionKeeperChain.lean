import Dexdo.SubscriptionKeeperPlan
import Dexdo.TokenContractKeepers

/-! # The keeper over its contract

The keeper's write goes to the TokenContract it planned from. -/
namespace SubscriptionKeeperChain

open TokenContractState TokenContractCalls TokenContractCharges TokenContractPayouts
open TokenContractSteps TokenContractInvariant TokenContractExits TokenContractStreaming
open TokenContractClaims TokenContractLedger TokenContractSplit TokenContractDisputes
open TokenContractQuota TokenContractGetters SubscriptionKeeper SubscriptionKeeperPlan

variable {env : Env} {m : Msg} {s t u : Deal} {c : Call} {now : ℕ}

/-! ## Whatever others do moves the deal onward -/

/-- What calls can make of an open subscription that stays alive. -/
structure Onward (s t : Deal) : Prop where
  opened : t.opened = s.opened
  flags : t.dealFlags = s.dealFlags
  subWeeks : t.subWeeks = s.subWeeks
  tokensPerWeek : t.tokensPerWeek = s.tokensPerWeek
  fundedTokens : t.fundedTokens = s.fundedTokens
  accepted : s.probeAccepted = true → t.probeAccepted = true
  start : t.periodStart = s.periodStart ∨ s.probeAccepted = false ∧ t.probeAccepted = true
  start_le : s.periodStart ≤ t.periodStart
  disputed : s.disputed = true → t.disputed = true
  final_le : s.tokensFinal ≤ t.tokensFinal
  pend_le : s.tokensPend ≤ t.tokensPend
  claim_le : s.lastClaimTime ≤ t.lastClaimTime
  week_le : s.weekIndex ≤ t.weekIndex
  paid_le : s.tokensPaid ≤ t.tokensPaid
  base_le : s.weekBaseTokens ≤ t.weekBaseTokens
  slot : t.lastClaimTime = s.lastClaimTime ∧ t.tokensPend = s.tokensPend ∨
    s.tokensPend ≤ t.tokensFinal
  ended : s.subWeeks ≤ s.weekIndex →
    t.lastClaimTime = s.lastClaimTime ∧ t.tokensPend = s.tokensPend

theorem Onward.refl (s : Deal) : Onward s s :=
  ⟨rfl, rfl, rfl, rfl, rfl, id, .inl rfl, le_rfl, id, le_rfl, le_rfl, le_rfl, le_rfl, le_rfl,
    le_rfl, .inl ⟨rfl, rfl⟩, fun _ => ⟨rfl, rfl⟩⟩

theorem Onward.trans (h : Onward s t) (h' : Onward t u) : Onward s u where
  opened := h'.opened.trans h.opened
  flags := h'.flags.trans h.flags
  subWeeks := h'.subWeeks.trans h.subWeeks
  tokensPerWeek := h'.tokensPerWeek.trans h.tokensPerWeek
  fundedTokens := h'.fundedTokens.trans h.fundedTokens
  accepted ha := h'.accepted (h.accepted ha)
  start := by
    rcases h.start with heq | ⟨ha, hb⟩
    · rcases h'.start with heq' | ⟨ha, hb⟩
      · exact .inl (heq'.trans heq)
      · cases hs : s.probeAccepted with
        | true =>
          rw [h.accepted hs] at ha
          cases ha
        | false => exact .inr ⟨rfl, hb⟩
    · exact .inr ⟨ha, h'.accepted hb⟩
  start_le := h.start_le.trans h'.start_le
  disputed hd := h'.disputed (h.disputed hd)
  final_le := h.final_le.trans h'.final_le
  pend_le := h.pend_le.trans h'.pend_le
  claim_le := h.claim_le.trans h'.claim_le
  week_le := h.week_le.trans h'.week_le
  paid_le := h.paid_le.trans h'.paid_le
  base_le := h.base_le.trans h'.base_le
  slot := by
    rcases h.slot with ⟨hclaim, hpend⟩ | hle
    · rcases h'.slot with ⟨hclaim', hpend'⟩ | hle'
      · exact .inl ⟨hclaim'.trans hclaim, hpend'.trans hpend⟩
      · exact .inr (hpend.symm.le.trans hle')
    · exact .inr (hle.trans h'.final_le)
  ended hend := by
    obtain ⟨hclaim, hpend⟩ := h.ended hend
    obtain ⟨hclaim', hpend'⟩ := h'.ended (h.subWeeks.le.trans (hend.trans h.week_le))
    exact ⟨hclaim'.trans hclaim, hpend'.trans hpend⟩

/-- Booking the weeks that passed. -/
theorem booked_onward (h : OpenSubscription s) (hs : Streaming s) (hd : s.disputed = false)
    (hu : Booked (settledBooks s) u) : Onward s u := by
  obtain ⟨c, d, o, f, p, b, heq, hsame, hnew⟩ := booked_marks h.inv.base hs hu
  obtain ⟨-, hsu⟩ := claim_books h.inv.base hs hd hu
  have hge := weeksElapsed_ge hs
  have hweek := h.sched.week h.sub
  have hpaid := hs.paid
  have hpaidu := hsu.paid
  have hpend := h.base_le_pend
  have hbase : s.weekBaseTokens ≤ b := by
    rcases Nat.eq_or_lt_of_le hge with he | hlt
    · exact (hsame he.symm).ge
    · rw [hnew hlt]
      exact hpend
  have hmore : s.tokensPaid ≤ p := by
    rw [heq] at hpaidu
    change p = if weeksElapsed s = 0 then tickSize else weeksElapsed s * s.tokensPerWeek at hpaidu
    rw [hpaid, hpaidu]
    split
    · split
      · exact le_rfl
      · rename_i hne
        exact hweek.trans (Nat.le_mul_of_pos_left _ (Nat.pos_of_ne_zero hne))
    · rw [if_neg (by omega)]
      exact Nat.mul_le_mul_right _ hge
  rw [heq]
  exact { Onward.refl s with week_le := hge, paid_le := hmore, base_le := hbase }

theorem claimed_onward {n : ℕ} (hu : OpenSubscription u) (hs : Streaming u) (hn : u.tokensPend < n)
    (hcap : n ≤ claimCap u) (heq : t = { u with
      tokensFinal := u.tokensPend, tokensPend := n, lastClaimTime := u.now, out := t.out }) :
    Onward u t := by
  have hclaim := hu.inv.base.claim_le
  have hkind : isSubscription u = true := by simp [isSubscription, hu.sub]
  have hopen : ¬ u.subWeeks ≤ u.weekIndex := by
    intro hend
    have hroom : claimCap u = u.tokensPend := by
      unfold claimCap
      rw [hkind, if_neg (by simp), if_pos hend]
    omega
  rw [heq]
  exact { Onward.refl u with
    final_le := hs.final_le_pend
    pend_le := hn.le
    claim_le := hclaim
    slot := .inr le_rfl
    ended := fun hend => absurd hend hopen }

theorem StreamStep.onward (h : OpenSubscription s) (hs : Streaming s) (hstep : StreamStep s c t) :
    Onward s t := by
  cases hstep with
  | relisted _ _ _ hr =>
    rw [hr.eq]
    exact { Onward.refl s with }
  | unchanged n _ => exact .refl s
  | claimed n u hd hn hbu hsu hclaim =>
    have hbook := booked_onward h hs hd hclaim.booked
    obtain ⟨c, d, o, f, p, b, heq, -⟩ := booked_marks h.inv.base hs hclaim.booked
    have hpend : u.tokensPend = s.tokensPend := by rw [heq]
    have hsched : Scheduled u := by
      rw [heq]
      exact ⟨h.sched.week, h.sched.start, fun ha => absurd (hs.accepted.symm.trans ha) (by simp)⟩
    have hdead : u.destroyed = false := by
      rw [heq]
      exact h.live
    have hopen : OpenSubscription u :=
      ⟨⟨⟨hbu, .inr (.inr hsu)⟩, hsched, hdead⟩, hsu.opened, by rw [hbook.subWeeks]; exact h.sub⟩
    exact hbook.trans (claimed_onward hopen hsu (by omega) hclaim.below_cap hclaim.eq)
  | promoted hd hp hw =>
    exact { Onward.refl s with final_le := hp.le, slot := .inl ⟨rfl, rfl⟩ }
  | settled hd _ hu _ => exact booked_onward h hs hd hu
  | disputed hd _ heq =>
    rw [heq]
    exact { Onward.refl s with disputed := fun _ => rfl }
  | drew a _ hbal =>
    rw [drawn_eq hbal]
    exact { Onward.refl s with }

theorem FreshStep.onward (h : OpenSubscription s) (ht : Trial s) (hstep : FreshStep env m s c t) :
    Onward s t := by
  have hopen : s.opened = false → Onward s t := by
    intro ho
    rw [h.opened] at ho
    cases ho
  cases hstep with
  | relisted _ _ _ hr =>
    rw [hr.eq]
    exact { Onward.refl s with }
  | filled p b k f hm hfill =>
    have hfu := hfill.unfunded
    rw [ht.funded] at hfu
    cases hfu
  | sellerBonded a c ho _ _ _ => exact hopen ho
  | buyerBonded a ho _ _ _ => exact hopen ho
  | opened c _ ho _ _ _ => exact hopen ho
  | accepted _ _ _ heq =>
    have hbase := h.sched.base ht.unaccepted
    have hstart := h.inv.base.start_le
    have hclaim := h.inv.base.claim_le
    rw [heq]
    exact { Onward.refl s with
      accepted := fun _ => rfl
      start := .inr ⟨ht.unaccepted, rfl⟩
      start_le := hstart.trans hclaim
      final_le := ht.tokensFinal.le.trans (Nat.zero_le _)
      pend_le := ht.tokensPend.le.trans (Nat.zero_le _)
      claim_le := hclaim
      paid_le := ht.tokensPaid.le.trans (Nat.zero_le _)
      base_le := hbase.le
      slot := .inr (ht.tokensPend.le.trans (Nat.zero_le _))
      ended := fun hend => absurd (Nat.le_zero.mp (hend.trans ht.weekIndex.le)) h.sub }
  | disputed _ _ heq =>
    rw [heq]
    exact { Onward.refl s with disputed := fun _ => rfl }
  | cleaned ho _ => exact hopen ho

theorem dispatch_onward (h : OpenSubscription s) (hok : dispatch env m s c = .ok t)
    (hf : t.fault = false) (hlive : t.destroyed = false) : Onward s t := by
  cases ha : s.probeAccepted with
  | true =>
    have hs := h.streaming ha
    exact StreamStep.onward h hs (stream_step h.inv hs hok hf hlive)
  | false => exact FreshStep.onward h (h.trial ha) (fresh_step h.inv ha hok hf hlive)

theorem exec_onward {tx : Tx} (h : OpenSubscription s) (hadm : Admissible s tx)
    (hbook : BookFill env s tx) (hok : exec env tx s = .ok t) (hlive : t.destroyed = false) :
    OpenSubscription t ∧ Onward s t := by
  obtain ⟨-, hd, hf⟩ := exec_ok hok
  have hin := h.enter (m := tx.msg) (c := tx.call) hadm
  have hlater : Onward s (TokenContractCalls.enter tx.msg s) := { Onward.refl s with }
  have hmoved := hlater.trans (dispatch_onward hin hd hf hlive)
  refine ⟨⟨h.toKept.exec hadm hbook hok hlive, hmoved.opened.trans h.opened, ?_⟩, hmoved⟩
  rw [hmoved.subWeeks]
  exact h.sub

theorem run_onward {l : History} (h : OpenSubscription s)
    (hrun : DealRun env (BookFill env) s l t) (hlive : t.destroyed = false) :
    OpenSubscription t ∧ Onward s t := by
  revert hlive
  refine TransactionSystem.Run.invariant
    (I := fun _ t => t.destroyed = false → OpenSubscription t ∧ Onward s t) ?_ ?_ hrun
  · exact fun _ => ⟨h, .refl s⟩
  · intro l u a t ih hΦ hok hlive
    obtain ⟨hu, hsu⟩ := ih (exec_ok hok).1
    obtain ⟨ht, hut⟩ := exec_onward hu hΦ.1 hΦ.2 hok hlive
    exact ⟨ht, hsu.trans hut⟩

/-! ## The write -/

theorem finalize_accepted (h : OpenSubscription s) (hadm : Admissible s ⟨m, .finalize⟩)
    (hd : s.disputed = false) (hlt : s.tokensFinal < s.tokensPend)
    (hdue : s.lastClaimTime + claimPromoteWindow ≤ m.now) :
    exec env ⟨m, .finalize⟩ s =
      .ok { TokenContractCalls.enter m s with tokensFinal := s.tokensPend } := by
  have hin := h.enter hadm
  have hpro : promoteDue (TokenContractCalls.enter m s) =
      { TokenContractCalls.enter m s with tokensFinal := s.tokensPend } := by
    have hwin : (TokenContractCalls.enter m s).lastClaimTime + claimPromoteWindow ≤
        (TokenContractCalls.enter m s).now := hdue
    rw [promoteDue_eq hin.inv.base.promote_lt, if_pos hwin, max_eq_right]
    · rfl
    · exact hlt.le
  refine exec_of_dispatch h.live ?_ rfl
  simp only [TokenContractCalls.dispatch, finalize, require_bind_ok]
  refine ⟨⟨h.opened, hd⟩, ⟨hlt, hdue⟩, ?_⟩
  rw [hpro, if_neg]
  · rfl
  · simp [isSubscription, TokenContractCalls.enter, h.sub]

theorem settleWeek_accepted (h : OpenSubscription s) (hadm : Admissible s ⟨m, .settleWeek⟩)
    (ha : s.probeAccepted = true) (hd : s.disputed = false)
    (hdue : s.weekIndex < weeksElapsedAt m.now s ∨ s.subWeeks ≤ s.weekIndex) :
    ∃ t, exec env ⟨m, .settleWeek⟩ s = .ok t := by
  have hin := h.enter hadm
  obtain ⟨t, hok⟩ : ∃ t, settleWeek env (TokenContractCalls.enter m s) = .ok t := by
    simp only [settleWeek, require_bind_ok]
    have hkind : isSubscription (TokenContractCalls.enter m s) = true := by
      simp [isSubscription, TokenContractCalls.enter, h.sub]
    split
    · exact ⟨_, hkind, ⟨h.opened, hd⟩, ha, hdue, rfl⟩
    · exact ⟨_, hkind, ⟨h.opened, hd⟩, ha, hdue, rfl⟩
  have hfault : TokenContractKeepers.Commits env m (TokenContractCalls.enter m s) .settleWeek t :=
    (TokenContractKeepers.commits_exit (c := .settleWeek) hin.inv rfl trivial (by simp)).mpr hok
  exact ⟨t, exec_of_dispatch h.live hok hfault.2⟩

/-- What `settleWeek` leaves: the weeks of the clock booked, or the deal closed. -/
theorem settleWeek_books (h : OpenSubscription s) (hadm : Admissible s ⟨m, .settleWeek⟩)
    (hok : exec env ⟨m, .settleWeek⟩ s = .ok t) :
    s.probeAccepted = true ∧ s.disputed = false ∧
    (s.weekIndex < weeksElapsedAt m.now s ∨ s.subWeeks ≤ s.weekIndex) ∧
    (t.destroyed = true ∧ s.subWeeks ≤ weeksElapsedAt m.now s ∧
        s.lastClaimTime + claimPromoteWindow ≤ m.now ∨
      t.destroyed = false ∧ t.weekIndex = weeksElapsedAt m.now s ∧
        t.tokensFinal = s.tokensFinal ∧ ¬ (s.subWeeks ≤ weeksElapsedAt m.now s ∧
          s.lastClaimTime + claimPromoteWindow ≤ m.now)) := by
  have hin := h.enter hadm
  obtain ⟨-, hdis, -⟩ := exec_ok hok
  obtain ⟨-, hs, hd, hg, u, hu, -, -, hcase⟩ := settleWeek_inv hin.inv hdis
  obtain ⟨c, d, o, f, p, b, heq, -⟩ := booked_marks hin.inv.base hs hu
  refine ⟨hs.accepted, hd, hg, ?_⟩
  rcases hcase with ⟨rfl, hnot⟩ | ⟨hterm, hripe, rfl⟩
  · rw [heq] at hnot
    rw [heq]
    exact .inr ⟨h.live, rfl, rfl, hnot⟩
  · rw [heq] at hterm hripe
    exact .inl ⟨payFinalAndClose_destroyed, hterm, hripe⟩

/-- Where the keeper waits, both of its calls would leave the claims, the weeks and the deal as
they are. -/
theorem wait_idle {d : ℕ} (h : OpenSubscription s) (hplanned : Planned s m.now (.wait d))
    (hadm : Admissible s ⟨m, c⟩) (hc : c = .finalize ∨ c = .settleWeek)
    (hok : exec env ⟨m, c⟩ s = .ok t) :
    t.tokensFinal = s.tokensFinal ∧ t.weekIndex = s.weekIndex ∧ t.destroyed = false := by
  rcases hc with rfl | rfl
  · -- a promotion that is accepted was planned
    obtain ⟨-, hdis, -⟩ := exec_ok hok
    obtain ⟨-, hd, hlt, hdue, -⟩ := finalize_ok hdis (h.enter hadm).inv.base.promote_lt
    cases hplanned with
    | held _ hheld =>
      rcases hheld with hf | hdt
      · have ht := h.trial hf
        exact absurd hlt (by change ¬ s.tokensFinal < s.tokensPend; rw [ht.tokensPend]; omega)
      · exact absurd (hdt.symm.trans hd) (by simp)
    | waits _ ha hds hclaim _ _ => exact absurd hdue (Nat.not_le.mpr (hclaim hlt))
  · obtain ⟨ha, hd, hdue, hcase⟩ := settleWeek_books h hadm hok
    cases hplanned with
    | held _ hheld =>
      rcases hheld with hf | hdt
      · exact absurd (ha.symm.trans hf) (by simp)
      · exact absurd (hdt.symm.trans hd) (by simp)
    | waits _ _ _ hclaim hweek hend =>
      have hweeks := (h.streaming ha).weeks
      have hfinal := (h.streaming ha).final_le_pend
      have hge : s.weekIndex ≤ weeksElapsedAt m.now s :=
        weeksElapsed_ge ((h.enter hadm).streaming ha)
      have hcap : weeksElapsedAt m.now s ≤ s.subWeeks := weeksElapsedAt_le _ _
      have hover : s.weekIndex = s.subWeeks := by
        by_contra hne
        have hopen : s.weekIndex < s.subWeeks := by omega
        have hpast : s.weekIndex + 1 ≤ (m.now - s.periodStart) / subWeekLen := by
          have hle : weeksElapsedAt m.now s ≤ (m.now - s.periodStart) / subWeekLen :=
            min_le_left _ _
          omega
        have hbound := (Nat.le_div_iff_mul_le (by decide)).mp hpast
        have hahead := hweek hopen
        rw [Nat.mul_comm] at hbound
        have hpos : 0 < subWeekLen * (s.weekIndex + 1) := Nat.mul_pos (by decide) (by omega)
        omega
      rcases hcase with ⟨-, -, hripe⟩ | ⟨hlive, hbooked, hkept, -⟩
      · rcases Nat.eq_or_lt_of_le hfinal with heq | hlt
        · exact absurd hripe (Nat.not_le.mpr (hend hover heq))
        · exact absurd hripe (Nat.not_le.mpr (hclaim hlt))
      · exact ⟨hkept, by omega, hlive⟩

/-! ## One pass -/

def writeOf : KeeperPlan → Option Call
  | .finalize => some .finalize
  | .settleWeek _ => some .settleWeek
  | _ => none

/-- The write among the calls of others: what the keeper plans on `p` is sent once, at a block time
its clock has reached, and read back on `t`. -/
def Written (env : Env) (now : ℕ) (p t : Deal) : Prop :=
  ∀ a c, plan (keeperView p) contractBounds now = .ok a → writeOf a = some c →
    ∃ m l q l', DealRun env (BookFill env) p l q ∧ Admissible q ⟨m, c⟩ ∧ now ≤ m.now ∧
      DealRun env (BookFill env) (TransactionSystem.attempt (exec env) q ⟨m, c⟩) l' t

/-- The cursor is empty or an earlier read of the same open subscription. -/
def Earlier (env : Env) (cursor : Option KeeperSnapshot) (s : Deal) : Prop :=
  ∀ v ∈ cursor, ∃ r l, v = keeperView r ∧ Reachable env (BookFill env) r ∧ r.destroyed = false ∧
    r.opened = true ∧ r.subWeeks ≠ 0 ∧ DealRun env (BookFill env) r l s

/-- How a pass ends that planned on `p` and read `t` back. -/
inductive Outcome (now : ℕ) (p t : Deal) :
    Except KeeperError (KeeperStep × Option KeeperSnapshot) → Prop where
  | waits (d cursor) : Outcome now p t (.ok (.wait d, cursor))
  | terminal (n cursor) : p.destroyed = true ∨ t.destroyed = true →
      Outcome now p t (.ok (.terminal n, cursor))
  | progress (cursor) : p.tokensFinal < t.tokensFinal ∨ p.weekIndex < t.weekIndex →
      Outcome now p t (.ok (.progress, cursor))
  /-- A later boundary than the planned one was booked as well. -/
  | overtaken (k e) : plan (keeperView p) contractBounds now = .ok (.settleWeek k) →
      t.destroyed = false → t.disputed = false → k < t.weekIndex →
      t.periodStart + subWeekLen * (k + 1) ≤ t.now →
      Outcome now p t (.error (.notScheduledWeek k t.weekIndex e))

theorem readDeal_live (h : s.destroyed = false) : readDeal s = some (keeperView s) :=
  if_neg (by rw [h]; simp)

theorem readDeal_gone (h : s.destroyed = true) : readDeal s = none := if_pos h

theorem ensureNonRegressing_ok (h : Onward s t) :
    ensureNonRegressingTransition (keeperView s) (keeperView t) = .ok () := by
  have hregress : ¬ Regresses (keeperView s) (keeperView t) := by
    rintro (hlt | ⟨-, hlt⟩ | hlt | ⟨ha, hb⟩ | hlt | hlt | hlt | hlt)
    · exact absurd hlt (Nat.not_lt.mpr h.final_le)
    · exact absurd hlt (Nat.not_lt.mpr h.pend_le)
    · exact absurd hlt (Nat.not_lt.mpr h.claim_le)
    · exact absurd (hb.symm.trans (h.accepted ha)) (by simp)
    · exact absurd hlt (Nat.not_lt.mpr h.week_le)
    · exact absurd hlt (Nat.not_lt.mpr h.paid_le)
    · exact absurd hlt (Nat.not_lt.mpr h.base_le)
    · exact absurd hlt (Nat.not_lt.mpr h.start_le)
  have hflags : (keeperView t).subscription.dealFlags = (keeperView s).subscription.dealFlags :=
    h.flags
  have hterm : (keeperView t).subscription.subWeeks = (keeperView s).subscription.subWeeks :=
    h.subWeeks
  have hquota : (keeperView t).subscription.tokensPerWeek =
      (keeperView s).subscription.tokensPerWeek := h.tokensPerWeek
  have hvolume : (keeperView t).subscription.fundedTokens =
      (keeperView s).subscription.fundedTokens := h.fundedTokens
  unfold ensureNonRegressingTransition
  dsimp only
  rw [refuse_bind_ok hregress, refuse_bind_ok (not_not_intro hflags),
    refuse_bind_ok (not_not_intro hterm), refuse_bind_ok (not_not_intro hquota),
    refuse_bind_ok (not_not_intro hvolume)]
  apply if_neg
  rintro ⟨hne, hnot⟩
  rcases h.start with heq | hboth
  · exact hne heq
  · exact hnot hboth

theorem acceptRead_ok {cursor : Option KeeperSnapshot} (h : OpenSubscription s)
    (hcursor : ∀ v ∈ cursor, ∃ r, v = keeperView r ∧ Onward r s) :
    acceptRead cursor (readDeal s) = .ok (some (keeperView s)) := by
  rw [readDeal_live h.live]
  change accept cursor (keeperView s) = _
  unfold accept
  rw [h.sound.validate, ok_bind]
  cases cursor with
  | none => rfl
  | some v =>
    obtain ⟨r, rfl, honward⟩ := hcursor v rfl
    dsimp only
    rw [ensureNonRegressing_ok honward]
    rfl

theorem acceptRead_gone {cursor : Option KeeperSnapshot} (h : s.destroyed = true) :
    acceptRead cursor (readDeal s) = .ok cursor := by
  rw [readDeal_gone h]
  rfl

theorem run_alive {l : History} (hrun : DealRun env (BookFill env) s l t)
    (hlive : t.destroyed = false) : s.destroyed = false := by
  revert hlive
  refine TransactionSystem.Run.invariant
    (I := fun _ t => t.destroyed = false → s.destroyed = false) id ?_ hrun
  intro l u a t ih _ hok _
  exact ih (exec_ok hok).1

theorem attempt_onward (h : OpenSubscription s) (hadm : Admissible s ⟨m, c⟩) (hfill : fillOf c = none)
    (hlive : (TransactionSystem.attempt (exec env) s ⟨m, c⟩).destroyed = false) :
    OpenSubscription (TransactionSystem.attempt (exec env) s ⟨m, c⟩) ∧
      Onward s (TransactionSystem.attempt (exec env) s ⟨m, c⟩) := by
  have hbook : BookFill env s ⟨m, c⟩ := by
    intro f hf
    rw [hfill] at hf
    cases hf
  cases hexec : exec env ⟨m, c⟩ s with
  | ok t =>
    rw [TransactionSystem.attempt_ok hexec] at hlive ⊢
    exact exec_onward h hadm hbook hexec hlive
  | error e =>
    have hsame : TransactionSystem.attempt (exec env) s ⟨m, c⟩ = s :=
      TransactionSystem.attempt_refused fun t ht => by
        rw [hexec] at ht
        cases ht
    rw [hsame]
    exact ⟨h, .refl s⟩

theorem finalize_applied (h : OpenSubscription s) (hadm : Admissible s ⟨m, .finalize⟩)
    (hd : s.disputed = false) (hmature : s.tokensFinal < s.tokensPend →
      s.lastClaimTime + claimPromoteWindow ≤ m.now) :
    s.tokensPend ≤ (TransactionSystem.attempt (exec env) s ⟨m, .finalize⟩).tokensFinal ∨
      s.tokensPend ≤ s.tokensFinal := by
  by_cases hlt : s.tokensFinal < s.tokensPend
  · left
    rw [TransactionSystem.attempt_ok (finalize_accepted h hadm hd hlt (hmature hlt))]
  · exact .inr (Nat.le_of_not_lt hlt)

/-- The boundaries up to its block time are booked by the write or were before it, and a term that
is over and promoted is closed. -/
theorem settleWeek_applied (h : OpenSubscription s) (hadm : Admissible s ⟨m, .settleWeek⟩)
    (ha : s.probeAccepted = true) (hd : s.disputed = false)
    (hlive : (TransactionSystem.attempt (exec env) s ⟨m, .settleWeek⟩).destroyed = false) :
    weeksElapsedAt m.now s ≤
        (TransactionSystem.attempt (exec env) s ⟨m, .settleWeek⟩).weekIndex ∧
      ¬ (s.subWeeks ≤ s.weekIndex ∧ s.lastClaimTime + claimPromoteWindow ≤ m.now) := by
  have hcap : weeksElapsedAt m.now s ≤ s.subWeeks := weeksElapsedAt_le _ _
  by_cases hdue : s.weekIndex < weeksElapsedAt m.now s ∨ s.subWeeks ≤ s.weekIndex
  · obtain ⟨t, hok⟩ : ∃ t, exec env ⟨m, .settleWeek⟩ s = .ok t :=
      settleWeek_accepted h hadm ha hd hdue
    rw [TransactionSystem.attempt_ok hok] at hlive ⊢
    obtain ⟨-, -, -, ⟨hdead, -⟩ | ⟨-, hweek, -, hnot⟩⟩ := settleWeek_books h hadm hok
    · rw [hlive] at hdead
      cases hdead
    · have hge : s.weekIndex ≤ weeksElapsedAt m.now s :=
        weeksElapsed_ge ((h.enter hadm).streaming ha)
      exact ⟨hweek.ge, fun hend => hnot ⟨hend.1.trans hge, hend.2⟩⟩
  · have hsame : TransactionSystem.attempt (exec env) s ⟨m, .settleWeek⟩ = s :=
      TransactionSystem.attempt_refused fun t ht => hdue (settleWeek_books h hadm ht).2.2.1
    rw [hsame]
    exact ⟨by omega, fun hend => hdue (.inr hend.1)⟩

theorem attempt_alive {tx : Tx} (h : (TransactionSystem.attempt (exec env) s tx).destroyed = false) :
    s.destroyed = false := by
  cases hexec : exec env tx s with
  | ok v => exact (exec_ok hexec).1
  | error e =>
    rw [TransactionSystem.attempt_refused (fun v hv => by rw [hexec] at hv; cases hv)] at h
    exact h

theorem written_around {l l' : History} {q : Deal} (h : OpenSubscription s)
    (hbefore : DealRun env (BookFill env) s l q) (hadm : Admissible q ⟨m, c⟩)
    (hfill : fillOf c = none)
    (hafter : DealRun env (BookFill env) (TransactionSystem.attempt (exec env) q ⟨m, c⟩) l' t)
    (hlive : t.destroyed = false) :
    OpenSubscription q ∧ Onward s q ∧
      Onward q (TransactionSystem.attempt (exec env) q ⟨m, c⟩) ∧
      Onward (TransactionSystem.attempt (exec env) q ⟨m, c⟩) t ∧ OpenSubscription t := by
  have hmid := run_alive hafter hlive
  obtain ⟨hoq, hsq⟩ := run_onward h hbefore (attempt_alive hmid)
  obtain ⟨hom, hqm⟩ := attempt_onward hoq hadm hfill hmid
  obtain ⟨hot, hmt⟩ := run_onward hom hafter hlive
  exact ⟨hoq, hsq, hqm, hmt, hot⟩

theorem Onward.undisputed (h : Onward s t) (hd : t.disputed = false) : s.disputed = false := by
  by_contra hdis
  rw [h.disputed (Bool.eq_true_of_not_eq_false hdis)] at hd
  cases hd

theorem written_finalize (h : OpenSubscription s) (hlt : s.tokensFinal < s.tokensPend)
    (hdue : s.lastClaimTime + claimPromoteWindow ≤ now)
    (hplan : plan (keeperView s) contractBounds now = .ok .finalize)
    (hwrite : Written env now s t) (hlive : t.destroyed = false) (hd : t.disputed = false) :
    s.tokensFinal < t.tokensFinal := by
  obtain ⟨m, l, q, l', hbefore, hadm, hnow, hafter⟩ := hwrite _ _ hplan rfl
  obtain ⟨hoq, hsq, hqm, hmt, -⟩ := written_around h hbefore hadm rfl hafter hlive
  have hdq := hqm.undisputed (hmt.undisputed hd)
  have hkept := hqm.final_le
  have hfinal := hmt.final_le
  rcases hsq.slot with ⟨hclaim, hpend⟩ | hle
  · have hdone : _ ≤ (TransactionSystem.attempt (exec env) _ _).tokensFinal ∨ _ :=
      finalize_applied hoq hadm hdq fun _ => by omega
    rcases hdone with hdone | hdone
    · omega
    · -- another keeper promoted it first
      omega
  · -- a newer claim did
    omega

theorem weeksElapsedAt_mono {a b : ℕ} (hle : a ≤ b) (hstart : t.periodStart = s.periodStart)
    (hterm : t.subWeeks = s.subWeeks) : weeksElapsedAt a s ≤ weeksElapsedAt b t := by
  unfold weeksElapsedAt
  rw [hstart, hterm]
  exact min_le_min_right _ (Nat.div_le_div_right (Nat.sub_le_sub_right hle _))

/-- The scheduled week is booked, or a term that is over leaves no live deal. -/
theorem written_settleWeek {k : ℕ} (h : OpenSubscription s) (ha : s.probeAccepted = true)
    (hplan : plan (keeperView s) contractBounds now = .ok (.settleWeek k))
    (hwrite : Written env now s t) (hlive : t.destroyed = false) (hd : t.disputed = false) :
    weeksElapsedAt now s ≤ t.weekIndex ∧
      ¬ (s.subWeeks ≤ s.weekIndex ∧ s.lastClaimTime + claimPromoteWindow ≤ now) := by
  obtain ⟨m, l, q, l', hbefore, hadm, hnow, hafter⟩ := hwrite _ _ hplan rfl
  obtain ⟨hoq, hsq, hqm, hmt, -⟩ := written_around h hbefore hadm rfl hafter hlive
  have hdq := hqm.undisputed (hmt.undisputed hd)
  have haq := hsq.accepted ha
  obtain ⟨hweek, hopen⟩ := settleWeek_applied hoq hadm haq hdq
    (run_alive hafter hlive)
  have hstart : q.periodStart = s.periodStart := by
    rcases hsq.start with heq | ⟨hf, -⟩
    · exact heq
    · rw [ha] at hf
      cases hf
  constructor
  · exact (weeksElapsedAt_mono hnow hstart hsq.subWeeks).trans (hweek.trans hmt.week_le)
  · rintro ⟨hend, hripe⟩
    have hclaim := (hsq.ended hend).1
    apply hopen
    exact ⟨hsq.subWeeks.le.trans (hend.trans hsq.week_le), by omega⟩

theorem reconcileWrite_live {a : KeeperPlan} {submit : Except String Unit} (h : OpenSubscription t)
    (hd : t.disputed = false) (honward : Onward s t) :
    reconcileWrite contractBounds a (keeperView s) (readDeal t) submit =
      if applied a (keeperView s) (keeperView t) then .ok .progress
      else .error (refusal a (keeperView t) submit) := by
  have hstopped := isStopped_opened h.opened
  have hdis : (keeperView t).deal.disputed = false := hd
  rw [readDeal_live h.live]
  dsimp only [reconcileWrite]
  rw [h.sound.validate, ok_bind, if_neg (by rw [hstopped]; simp), if_neg (by rw [hdis]; simp),
    ensureNonRegressing_ok honward, ok_bind]
  rfl

theorem reconcileWrite_disputed {a : KeeperPlan} {submit : Except String Unit}
    (h : OpenSubscription t) (hd : t.disputed = true) :
    reconcileWrite contractBounds a (keeperView s) (readDeal t) submit =
      .ok (.wait contractBounds.minClaimInterval) := by
  have hstopped := isStopped_opened h.opened
  have hdis : (keeperView t).deal.disputed = true := hd
  rw [readDeal_live h.live]
  dsimp only [reconcileWrite]
  rw [h.sound.validate, ok_bind, if_neg (by rw [hstopped]; simp), if_pos hdis]
  rfl

/-- Where the deal is alive and undisputed after the write, it moved by at least what was
planned. -/
theorem judged {a : KeeperPlan} {c : Call} {submit : Except String Unit}
    {cursor : Option KeeperSnapshot} (h : OpenSubscription s) (hplanned : Planned s now a)
    (hplan : plan (keeperView s) contractBounds now = .ok a) (hcall : writeOf a = some c)
    (hwrite : Written env now s t) (ht : OpenSubscription t) (hd : t.disputed = false)
    (honward : Onward s t) :
    Outcome now s t (reconcileWrite contractBounds a (keeperView s) (readDeal t) submit >>=
      fun step => .ok (step, cursor)) := by
  rw [reconcileWrite_live ht hd honward]
  cases hplanned with
  | held d _ => cases hcall
  | waits d _ _ _ _ _ => cases hcall
  | promotes ha hds hlt hdue =>
    have hmore := written_finalize h hlt hdue hplan hwrite ht.live hd
    have happlied : applied .finalize (keeperView s) (keeperView t) = true := decide_eq_true hmore
    rw [if_pos happlied]
    exact .progress _ (.inl hmore)
  | books ha hds hlt hdue =>
    obtain ⟨hweek, -⟩ := written_settleWeek h ha hplan hwrite ht.live hd
    change min ((now - s.periodStart) / subWeekLen) s.subWeeks ≤ t.weekIndex at hweek
    have hahead : s.weekIndex < min ((now - s.periodStart) / subWeekLen) s.subWeeks := by
      refine lt_min ((Nat.le_div_iff_mul_le (by decide)).mpr ?_) hlt
      rw [Nat.mul_comm]
      exact Nat.le_sub_of_add_le' hdue
    generalize min ((now - s.periodStart) / subWeekLen) s.subWeeks = k at hweek hahead hplan
    by_cases heq : t.weekIndex = k
    · have happlied : applied (.settleWeek k) (keeperView s) (keeperView t) = true :=
        decide_eq_true ⟨hlt, heq⟩
      rw [if_pos happlied]
      exact .progress _ (.inr (by omega))
    · have hnot : ¬ applied (.settleWeek k) (keeperView s) (keeperView t) = true := fun happlied =>
        heq (of_decide_eq_true happlied).2
      have hst := ht.streaming (honward.accepted ha)
      have helapsed := hst.elapsed
      have hclaim := ht.inv.base.claim_le
      have hstart := ht.inv.base.start_le
      have hmul : subWeekLen * (k + 1) ≤ t.weekIndex * subWeekLen := by
        rw [Nat.mul_comm]
        exact Nat.mul_le_mul_right _ (by omega)
      rw [if_neg hnot]
      cases submit with
      | ok x => exact .overtaken k none hplan ht.live hd (by omega) (by omega)
      | error e => exact .overtaken k (some e) hplan ht.live hd (by omega) (by omega)
  | closes ha hds hend hdue heq =>
    obtain ⟨-, hopen⟩ := written_settleWeek h ha hplan hwrite ht.live hd
    exact absurd ⟨hend.ge, hdue⟩ hopen

/-- The pass from its second read on. -/
theorem preWriteStep_outcome {submit : Except String Unit} {cursor : Option KeeperSnapshot}
    {l : History} (h : OpenSubscription s) (hrun : DealRun env (BookFill env) s l u)
    (hwrite : Written env now u t) (hcursor : cursor = some (keeperView s)) :
    Outcome now u t (preWriteStep contractBounds now (keeperView s) (readDeal u) (readDeal t) submit
      cursor) := by
  unfold preWriteStep
  cases hlive : u.destroyed with
  | true =>
    rw [acceptRead_gone hlive, ok_bind, readDeal_gone hlive]
    exact .terminal _ _ (.inl hlive)
  | false =>
    obtain ⟨hu, hsu⟩ := run_onward h hrun hlive
    have haccept : acceptRead cursor _ = _ := acceptRead_ok hu fun v hv => by
      rw [hcursor] at hv
      cases hv
      exact ⟨s, rfl, hsu⟩
    rw [haccept, ok_bind, readDeal_live hlive]
    obtain ⟨a, hplan, hplanned⟩ := plan_planned hu now
    dsimp only
    rw [hplan, ok_bind]
    -- every plan that writes is judged on the third read
    have hjudge : ∀ c, writeOf a = some c →
        Outcome now u t (writeStep contractBounds a (keeperView u) (readDeal t) submit
          (some (keeperView u))) := by
      intro c hcall
      unfold writeStep
      cases hdead : t.destroyed with
      | true =>
        rw [acceptRead_gone hdead, ok_bind, readDeal_gone hdead]
        exact .terminal _ _ (.inr hdead)
      | false =>
        obtain ⟨m, l₁, q, l₂, hbefore, hadm, -, hafter⟩ := hwrite a c hplan hcall
        have hfill : fillOf c = none := by
          cases a <;> cases hcall <;> rfl
        obtain ⟨-, huq, hqm, hmt, ht⟩ := written_around hu hbefore hadm hfill hafter hdead
        have hut := huq.trans (hqm.trans hmt)
        have hread : acceptRead (some (keeperView u)) _ = _ := acceptRead_ok ht fun v hv => by
          cases hv
          exact ⟨u, rfl, hut⟩
        rw [hread, ok_bind]
        cases hd : t.disputed with
        | true =>
          rw [reconcileWrite_disputed ht hd]
          exact .waits _ _
        | false => exact judged hu hplanned hplan hcall hwrite ht hd hut
    cases a with
    | notSubscription => cases hplanned
    | terminal => cases hplanned
    | wait d => exact .waits _ _
    | finalize => exact hjudge _ rfl
    | settleWeek k => exact hjudge _ rfl

/-- The keeper and the contract on an open subscription, at any clock. -/
structure Agrees (env : Env) (now : ℕ) (s : Deal) : Prop where
  plans : ∃ a, plan (keeperView s) contractBounds now = .ok a
  accepted : ∀ a c m, plan (keeperView s) contractBounds now = .ok a → writeOf a = some c →
    Admissible s ⟨m, c⟩ → now ≤ m.now → ∃ t, exec env ⟨m, c⟩ s = .ok t
  idle : ∀ d c m t, plan (keeperView s) contractBounds now = .ok (.wait d) →
    c = .finalize ∨ c = .settleWeek → Admissible s ⟨m, c⟩ → m.now = now →
    exec env ⟨m, c⟩ s = .ok t →
    t.tokensFinal = s.tokensFinal ∧ t.weekIndex = s.weekIndex ∧ t.destroyed = false
  steps : ∀ cursor l p t submit, Earlier env cursor s → DealRun env (BookFill env) s l p →
    Written env now p t → Outcome now p t
      (keeperStep contractBounds now (readDeal s) (readDeal p) (readDeal t) submit cursor)

theorem planned_accepted {a : KeeperPlan} (h : OpenSubscription s) (hplanned : Planned s now a)
    (hcall : writeOf a = some c) (hadm : Admissible s ⟨m, c⟩) (hnow : now ≤ m.now) :
    ∃ t, exec env ⟨m, c⟩ s = .ok t := by
  cases hplanned with
  | held d _ => cases hcall
  | waits d _ _ _ _ _ => cases hcall
  | promotes ha hd hlt hdue =>
    cases hcall
    exact ⟨_, finalize_accepted h hadm hd hlt (hdue.trans hnow)⟩
  | books ha hd hlt hdue =>
    cases hcall
    refine settleWeek_accepted h hadm ha hd (.inl (lt_min ?_ hlt))
    refine (Nat.le_div_iff_mul_le (by decide)).mpr ?_
    rw [Nat.mul_comm]
    exact Nat.le_sub_of_add_le' (hdue.trans hnow)
  | closes ha hd hend _ _ =>
    cases hcall
    exact settleWeek_accepted h hadm ha hd (.inr hend.ge)

theorem Earlier.onward {cursor : Option KeeperSnapshot} (h : Earlier env cursor s)
    (hlive : s.destroyed = false) : ∀ v ∈ cursor, ∃ r, v = keeperView r ∧ Onward r s := by
  intro v hv
  obtain ⟨r, l, hview, hr, halive, ho, hsub, hrun⟩ := h v hv
  exact ⟨r, hview, (run_onward ⟨reachable_kept hr halive, ho, hsub⟩ hrun hlive).2⟩

/-- Over every open subscription, clock and interleaving: the plan is what the contract accepts
and nothing due is left out, and a pass ends well unless a later boundary than the planned one
was booked before its last read. -/
theorem keeper_agrees (env : Env) (now : ℕ) (s : Deal) (h : Reachable env (BookFill env) s)
    (hlive : s.destroyed = false) (hopen : s.opened = true) (hsub : s.subWeeks ≠ 0) :
    Agrees env now s := by
  have hos : OpenSubscription s := ⟨reachable_kept h hlive, hopen, hsub⟩
  obtain ⟨a, hplan, hplanned⟩ := plan_planned hos now
  constructor
  · exact ⟨a, hplan⟩
  · intro b c m hb hcall hadm hnow
    rw [hplan] at hb
    cases hb
    exact planned_accepted hos hplanned hcall hadm hnow
  · intro d c m t hd hc hadm hnow hok
    rw [hplan] at hd
    cases hd
    rw [← hnow] at hplanned
    exact wait_idle hos hplanned hadm hc hok
  · intro cursor l p t submit hcursor hrun hwrite
    have hpre : Outcome now p t (preWriteStep contractBounds now (keeperView s) (readDeal p)
        (readDeal t) submit (some (keeperView s))) := preWriteStep_outcome hos hrun hwrite rfl
    unfold keeperStep
    rw [acceptRead_ok hos (hcursor.onward hlive), ok_bind, readDeal_live hlive]
    dsimp only
    rw [hplan, ok_bind]
    cases a with
    | notSubscription => cases hplanned
    | terminal => cases hplanned
    | wait d => exact .waits _ _
    | finalize => exact hpre
    | settleWeek k => exact hpre

/-- A subscription just past its trial. -/
theorem fresh_subscription_agrees : ∃ s, Reachable sampleEnv (BookFill sampleEnv) s ∧
    s.weekIndex = 0 ∧ Agrees sampleEnv 605100 s := by
  have hplay : (played (BookFill sampleEnv) subscribedSchedule).any (fun s =>
      !s.destroyed && s.opened && decide (s.subWeeks ≠ 0) && decide (s.weekIndex = 0)) = true := by
    decide
  obtain ⟨s, hs, hp⟩ := played_reachable hplay
  simp only [Bool.and_eq_true, Bool.not_eq_true', decide_eq_true_eq] at hp
  obtain ⟨⟨⟨hlive, hopen⟩, hsub⟩, hweek⟩ := hp
  exact ⟨s, hs, hweek, keeper_agrees sampleEnv 605100 s hs hlive hopen hsub⟩

/-- The keeper plans the first boundary and its write lands after the second one: the contract
books both and the keeper stops on an undisputed live deal. -/
theorem late_write_stops_keeper : ∃ s t, Reachable sampleEnv (BookFill sampleEnv) s ∧
    plan (keeperView s) contractBounds 605100 = .ok (.settleWeek 1) ∧
    Admissible s (strangerTx 1209900 .settleWeek) ∧
    exec sampleEnv (strangerTx 1209900 .settleWeek) s = .ok t ∧ t.disputed = false ∧
    keeperStep contractBounds 605100 (readDeal s) (readDeal s) (readDeal t) (.ok ()) none =
      .error (.notScheduledWeek 1 2 none) := by
  have hplay : (played (BookFill sampleEnv) subscribedSchedule).any (fun s =>
      decide (plan (keeperView s) contractBounds 605100 = .ok (.settleWeek 1)) &&
      decide (Admissible s (strangerTx 1209900 .settleWeek)) &&
      (exec sampleEnv (strangerTx 1209900 .settleWeek) s).toOption.any (fun t =>
        !t.disputed && decide (keeperStep contractBounds 605100 (readDeal s) (readDeal s)
          (readDeal t) (.ok ()) none = .error (.notScheduledWeek 1 2 none)))) = true := by
    decide
  obtain ⟨s, hs, hp⟩ := played_reachable hplay
  simp only [Bool.and_eq_true, decide_eq_true_eq] at hp
  obtain ⟨⟨hplan, hadm⟩, hexec⟩ := hp
  obtain ⟨t, ht, hq⟩ := exec_of_any hexec
  simp only [Bool.and_eq_true, Bool.not_eq_true', decide_eq_true_eq] at hq
  exact ⟨s, t, hs, hplan, hadm, ht, hq.1, hq.2⟩

end SubscriptionKeeperChain
