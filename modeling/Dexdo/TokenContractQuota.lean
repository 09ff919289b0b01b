import Dexdo.TokenContractClaims
import Dexdo.TokenContractLedger

/-! # The weekly quota of a subscription

The ceiling of a claim is a snapshot that moves only when a boundary is booked, possibly late and
for several weeks at once. -/
namespace TokenContractQuota

open TokenContractState TokenContractCalls TokenContractCharges TokenContractPayouts
open TokenContractSteps TokenContractInvariant TokenContractExits TokenContractStreaming
open TokenContractClaims TokenContractLedger

abbrev Entry := TransactionSystem.Record Deal Tx

variable {env : Env} {s t u : Deal} {l : History}

/-! ## Claims by week -/

def newlyClaimed (r : Entry) : ℕ :=
  match r.act.call with
  | .claimTokens _ | .acceptProbe => r.post.tokensPend - r.pre.tokensPend
  | _ => 0

def claimedIn (l : History) (start k : ℕ) : ℕ :=
  (l.map fun r => if (r.act.msg.now - start) / subWeekLen = k then newlyClaimed r else 0).sum

theorem claimedIn_append (l : History) (r : Entry) (start k : ℕ) :
    claimedIn (l ++ [r]) start k = claimedIn l start k +
      if (r.act.msg.now - start) / subWeekLen = k then newlyClaimed r else 0 := by
  simp [claimedIn]

theorem claimedIn_append_none {r : Entry} (h : newlyClaimed r = 0) (l : History) (start k : ℕ) :
    claimedIn (l ++ [r]) start k = claimedIn l start k := by
  simp [claimedIn_append, h]

theorem claimedIn_zero (h : ∀ r ∈ l, newlyClaimed r = 0) (start k : ℕ) :
    claimedIn l start k = 0 := by
  induction l with
  | nil => rfl
  | cons r l ih =>
    have hr := h r (by simp)
    have hl := ih (fun q hq => h q (by simp [hq]))
    unfold claimedIn at hl ⊢
    simp [hr, hl]

theorem newlyClaimed_none {r : Entry} (hc : ∀ n, r.act.call ≠ .claimTokens n)
    (ha : r.act.call ≠ .acceptProbe) : newlyClaimed r = 0 := by
  unfold newlyClaimed
  split
  · rename_i n h
    exact absurd h (hc n)
  · rename_i h
    exact absurd h ha
  · rfl

theorem newlyClaimed_unmoved {r : Entry} (h : r.post.tokensPend = r.pre.tokensPend) :
    newlyClaimed r = 0 := by
  unfold newlyClaimed
  split <;> omega

/-! ## What the history of a live subscription says -/

def Raises (r : Entry) : Prop := ∃ n, r.act.call = .claimTokens n ∧ r.pre.tokensPend < n

structure Silent (r : Entry) : Prop where
  none : newlyClaimed r = 0
  below : ¬ Raises r
  notTrial : r.act.call ≠ .acceptProbe

theorem silent_of_call {r : Entry} (hc : ∀ n, r.act.call ≠ .claimTokens n)
    (ha : r.act.call ≠ .acceptProbe) : Silent r := by
  refine ⟨newlyClaimed_none hc ha, ?_, ha⟩
  rintro ⟨n, hn, -⟩
  exact hc n hn

structure Quota (l : History) (s : Deal) : Prop where
  unclaimed : s.probeAccepted = false → ∀ r ∈ l, newlyClaimed r = 0 ∧ ¬ Raises r
  term : ∀ r ∈ l, r.act.call = .acceptProbe → s.probeAccepted = true ∧
    s.periodStart = r.act.msg.now ∧ s.tokensPerWeek = r.post.tokensPerWeek ∧
    s.subWeeks = r.post.subWeeks
  thisWeek : s.probeAccepted = true → s.subWeeks ≠ 0 →
    claimedIn l s.periodStart s.weekIndex + s.weekBaseTokens = s.tokensPend
  later : s.probeAccepted = true → s.subWeeks ≠ 0 →
    ∀ k, s.weekIndex < k → claimedIn l s.periodStart k = 0
  earlier : s.probeAccepted = true → s.subWeeks ≠ 0 →
    ∀ k, k < s.weekIndex → claimedIn l s.periodStart k ≤ s.tokensPerWeek
  inTerm : s.probeAccepted = true → s.subWeeks ≠ 0 →
    ∀ r ∈ l, Raises r → r.act.msg.now < s.periodStart + s.subWeeks * subWeekLen

theorem Quota.within (h : Quota l s) (hs : Streaming s) (hw : Whole s) (hsub : s.subWeeks ≠ 0)
    (k : ℕ) : claimedIn l s.periodStart k ≤ s.tokensPerWeek := by
  rcases Nat.lt_trichotomy k s.weekIndex with hk | rfl | hk
  · exact h.earlier hs.accepted hsub k hk
  · have hthis := h.thisWeek hs.accepted hsub
    have hquota := hs.quota hsub
    have htick := hw.quota hsub
    by_cases hz : s.weekIndex = 0
    · have hbase := hs.base_zero hz
      omega
    · have hbase := hs.base_pos hz
      omega
  · rw [h.later hs.accepted hsub k hk]
    exact Nat.zero_le _

/-! ## Steps that claim nothing -/

/-- A transaction that claims nothing and leaves the weekly books alone. -/
theorem Quota.kept {r : Entry} (h : Quota l s) (hr : Silent r)
    (hsame : t.probeAccepted = s.probeAccepted ∧
      (s.probeAccepted = true → t.periodStart = s.periodStart ∧
        t.tokensPerWeek = s.tokensPerWeek ∧ t.subWeeks = s.subWeeks ∧
        t.weekIndex = s.weekIndex ∧ t.weekBaseTokens = s.weekBaseTokens ∧
        t.tokensPend = s.tokensPend)) :
    Quota (l ++ [r]) t := by
  obtain ⟨h1, hsame⟩ := hsame
  have hmem : ∀ q ∈ l ++ [r], q ∈ l ∨ q = r := by
    intro q hq
    simpa using hq
  refine ⟨fun ha q hq => ?_, fun q hq hc => ?_, fun ha hsub => ?_, fun ha hsub k hk => ?_,
    fun ha hsub k hk => ?_, fun ha hsub q hq hup => ?_⟩
  · rcases hmem q hq with hq | rfl
    · exact h.unclaimed (h1 ▸ ha) q hq
    · exact ⟨hr.none, hr.below⟩
  · rcases hmem q hq with hq | rfl
    · obtain ⟨g1, g2, g3, g4⟩ := h.term q hq hc
      obtain ⟨h2, h3, h4, -⟩ := hsame g1
      exact ⟨h1.trans g1, h2.trans g2, h3.trans g3, h4.trans g4⟩
    · exact absurd hc hr.notTrial
  · obtain ⟨h2, h3, h4, h5, h6, h7⟩ := hsame (h1 ▸ ha)
    rw [claimedIn_append_none hr.none, h2, h5, h6, h7]
    exact h.thisWeek (h1 ▸ ha) (h4 ▸ hsub)
  · obtain ⟨h2, h3, h4, h5, h6, h7⟩ := hsame (h1 ▸ ha)
    rw [claimedIn_append_none hr.none, h2]
    exact h.later (h1 ▸ ha) (h4 ▸ hsub) k (h5 ▸ hk)
  · obtain ⟨h2, h3, h4, h5, h6, h7⟩ := hsame (h1 ▸ ha)
    rw [claimedIn_append_none hr.none, h2, h3]
    exact h.earlier (h1 ▸ ha) (h4 ▸ hsub) k (h5 ▸ hk)
  · obtain ⟨h2, h3, h4, h5, h6, h7⟩ := hsame (h1 ▸ ha)
    rw [h2, h4]
    rcases hmem q hq with hq | rfl
    · exact h.inTerm (h1 ▸ ha) (h4 ▸ hsub) q hq hup
    · exact absurd hup hr.below

/-! ## Booking the weeks -/

theorem booked_marks (hb : Base s) (hs : Streaming s) (hu : Booked (settledBooks s) u) :
    ∃ c d o f p b, u = { s with
        clamped := c, deposit := d, finalizedOwed := o, feeAccrued := f, tokensPaid := p
        weekIndex := weeksElapsed s, weekBaseTokens := b
        ticksFinalized := u.ticksFinalized, out := u.out } ∧
      (weeksElapsed s = s.weekIndex → b = s.weekBaseTokens) ∧
      (s.weekIndex < weeksElapsed s → b = s.tokensPend) := by
  have hge := weeksElapsed_ge hs
  have hcap : weeksElapsed s ≤ s.subWeeks := weeksElapsedAt_le _ _
  obtain ⟨c, d, o, f, p, b, heq, -, hzero, hpos⟩ := chargeWeeks_spec hb.toBacked
    (Invariant.weekly hb hs) (weeksElapsed s - s.weekIndex) (by omega)
  rw [Nat.add_sub_cancel' hge] at heq
  have hueq := hu.eq
  rw [show settledBooks s = _ from heq] at hueq
  refine ⟨c, d, o, f, p, b, hueq, fun h => (hzero (by omega)).2, fun h => ?_⟩
  rw [(hpos (by omega)).2, max_eq_right hs.final_le_pend]

theorem Quota.booked (h : Quota l s) (hb : Base s) (hs : Streaming s) (hw : Whole s)
    (hu : Booked (settledBooks s) u) : Quota l u := by
  obtain ⟨c, d, o, f, p, b, heq, hsame, hnew⟩ := booked_marks hb hs hu
  have hge := weeksElapsed_ge hs
  rw [heq]
  refine ⟨h.unclaimed, h.term, fun ha hsub => ?_, fun ha hsub k hk => ?_, fun ha hsub k hk => ?_,
    h.inTerm⟩
  · rcases Nat.eq_or_lt_of_le hge with he | hlt
    · rw [hsame he.symm, ← he]
      exact h.thisWeek ha hsub
    · rw [hnew hlt]
      change claimedIn l s.periodStart (weeksElapsed s) + s.tokensPend = s.tokensPend
      rw [h.later ha hsub _ hlt, Nat.zero_add]
  · exact h.later ha hsub k (Nat.lt_of_le_of_lt hge hk)
  · exact h.within hs hw hsub k

/-! ## Steps that claim -/

theorem claim_week {n : ℕ} (hsub : u.subWeeks ≠ 0) (hn : u.tokensPend < n) (hcap : n ≤ claimCap u)
    (hbooks : u.weekIndex = min ((u.now - u.periodStart) / subWeekLen) u.subWeeks) :
    (u.now - u.periodStart) / subWeekLen = u.weekIndex ∧ u.weekIndex < u.subWeeks := by
  unfold claimCap isSubscription at hcap
  split at hcap
  · rename_i hc
    simp [hsub] at hc
  split at hcap
  · omega
  · rename_i hlt
    omega

theorem Quota.claimed {n : ℕ} {tx : Tx} (h : Quota l u) (hsu : Streaming u)
    (hnow : tx.msg.now = u.now) (hstart : u.periodStart ≤ u.now)
    (hcall : tx.call = .claimTokens n) (hpre : s.tokensPend = u.tokensPend) (hn : u.tokensPend < n)
    (hcap : n ≤ claimCap u)
    (hbooks : u.weekIndex = min ((u.now - u.periodStart) / subWeekLen) u.subWeeks)
    (ht : t = { u with
      tokensFinal := u.tokensPend, tokensPend := n, lastClaimTime := u.now, out := t.out }) :
    Quota (l ++ [⟨s, tx, t⟩]) t := by
  have hnew : newlyClaimed (⟨s, tx, t⟩ : Entry) = n - u.tokensPend := by
    have hpost : t.tokensPend = n := by rw [ht]
    simp only [newlyClaimed, hcall, hpost, hpre]
  have hadd : ∀ start k, claimedIn (l ++ [(⟨s, tx, t⟩ : Entry)]) start k = claimedIn l start k +
      if (u.now - start) / subWeekLen = k then n - u.tokensPend else 0 := by
    intro start k
    rw [claimedIn_append, hnew]
    change _ + (if (tx.msg.now - start) / subWeekLen = k then _ else _) = _
    rw [hnow]
  have hin := fun hsub : u.subWeeks ≠ 0 => claim_week hsub hn hcap hbooks
  rw [ht] at hadd ⊢
  refine ⟨fun ha => ?_, fun r hr hc => ?_, fun ha hsub => ?_, fun ha hsub k hk => ?_,
    fun ha hsub k hk => ?_, fun ha hsub r hr hup => ?_⟩
  · rw [show u.probeAccepted = true from hsu.accepted] at ha
    cases ha
  · rcases List.mem_append.mp hr with hr | hr
    · exact h.term r hr hc
    · rw [List.mem_singleton.mp hr, hcall] at hc
      cases hc
  · obtain ⟨hweek, -⟩ := hin hsub
    have hthis := h.thisWeek ha hsub
    rw [hadd]
    dsimp only
    rw [if_pos hweek]
    omega
  · obtain ⟨hweek, -⟩ := hin hsub
    have hlater := h.later ha hsub k hk
    change u.weekIndex < k at hk
    rw [hadd]
    dsimp only
    rw [if_neg (by omega), hlater]
  · obtain ⟨hweek, -⟩ := hin hsub
    have hearlier := h.earlier ha hsub k hk
    change k < u.weekIndex at hk
    rw [hadd]
    dsimp only
    rw [if_neg (by omega)]
    exact hearlier
  · rcases List.mem_append.mp hr with hr | hr
    · exact h.inTerm ha hsub r hr hup
    · obtain ⟨hweek, hlt⟩ := hin hsub
      rw [List.mem_singleton.mp hr]
      change tx.msg.now < u.periodStart + u.subWeeks * subWeekLen
      have hend : u.now - u.periodStart < u.subWeeks * subWeekLen :=
        (Nat.div_lt_iff_lt_mul (by decide)).mp (hweek ▸ hlt)
      omega

/-- The trial tick is the first claim of week one. -/
theorem Quota.accepted {tx : Tx} (h : Quota l s) (hfresh : Fresh s)
    (hcall : tx.call = .acceptProbe)
    (ht : t.probeAccepted = true ∧ t.periodStart = tx.msg.now ∧ t.weekIndex = s.weekIndex ∧
      t.weekBaseTokens = 0 ∧ t.tokensPend = tickSize) :
    Quota (l ++ [⟨s, tx, t⟩]) t := by
  obtain ⟨h1, h2, h3, h4, h5⟩ := ht
  have hold := h.unclaimed hfresh.unaccepted
  have hpend := hfresh.tokensPend
  have hindex := h3.trans hfresh.weekIndex
  have hnew : newlyClaimed (⟨s, tx, t⟩ : Entry) = tickSize := by
    simp only [newlyClaimed, hcall, h5, hpend, Nat.sub_zero]
  have hall : ∀ k, claimedIn (l ++ [(⟨s, tx, t⟩ : Entry)]) t.periodStart k =
      if k = 0 then tickSize else 0 := by
    intro k
    rw [claimedIn_append, hnew, claimedIn_zero (fun r hr => (hold r hr).1), h2]
    by_cases hk : k = 0
    · simp [hk]
    · simp [hk, Ne.symm hk]
  refine ⟨fun ha => ?_, fun r hr hc => ?_, fun _ _ => ?_, fun _ _ k hk => ?_, fun _ _ k hk => ?_,
    fun _ _ r hr hup => ?_⟩
  · rw [h1] at ha
    cases ha
  · rcases List.mem_append.mp hr with hr | hr
    · have hacc := (h.term r hr hc).1
      rw [hfresh.unaccepted] at hacc
      cases hacc
    · rw [List.mem_singleton.mp hr]
      exact ⟨h1, h2, rfl, rfl⟩
  · rw [hall, hindex, h4, h5]
    simp
  · rw [hall, if_neg (by omega)]
  · omega
  · rcases List.mem_append.mp hr with hr | hr
    · exact absurd hup (hold r hr).2
    · rw [List.mem_singleton.mp hr] at hup
      obtain ⟨n, hc, -⟩ := hup
      rw [hcall] at hc
      cases hc

/-! ## Every call -/

theorem streaming_quota {tx : Tx} (hi : Invariant (enter tx.msg s))
    (hs : Streaming (enter tx.msg s)) (hw : Whole s) (h : Quota l s)
    (hstep : StreamStep (enter tx.msg s) tx.call t) : Quota (l ++ [⟨s, tx, t⟩]) t := by
  have hb := hi.base
  have hstart : s.periodStart ≤ tx.msg.now := hb.start_le_now
  -- between two transactions only the clock moves
  have hentered : Quota l (enter tx.msg s) := { h with }
  generalize hcall : tx.call = c at hstep
  have hsilent : (∀ n, c ≠ .claimTokens n) → c ≠ .acceptProbe →
      Silent (⟨s, tx, t⟩ : Entry) := by
    intro hc ha
    exact silent_of_call (fun n => hcall ▸ hc n) (hcall ▸ ha)
  cases hstep with
  | relisted hc ha _ hr =>
    apply h.kept (hsilent hc ha)
    rw [hr.eq]
    exact ⟨rfl, fun _ => ⟨rfl, rfl, rfl, rfl, rfl, rfl⟩⟩
  | unchanged n hn =>
    refine h.kept ⟨newlyClaimed_unmoved rfl, ?_, by simp [hcall]⟩
      ⟨rfl, fun _ => ⟨rfl, rfl, rfl, rfl, rfl, rfl⟩⟩
    rintro ⟨k, hk, hlt⟩
    rw [hcall] at hk
    cases hk
    have hsame : n = s.tokensPend := hn
    dsimp only at hlt
    omega
  | claimed n u _ hn hbu hsu hclaim =>
    obtain ⟨c, d, o, f, p, b, heq, -, -⟩ := booked_marks hb hs hclaim.booked
    have hbooked := hentered.booked hb hs { hw with } hclaim.booked
    have hsame : u.tokensPend = s.tokensPend ∧ u.now = tx.msg.now ∧
        u.periodStart = s.periodStart ∧
        u.weekIndex = min ((u.now - u.periodStart) / subWeekLen) u.subWeeks := by
      rw [heq]
      exact ⟨rfl, rfl, rfl, rfl⟩
    obtain ⟨h1, h2, h3, h4⟩ := hsame
    exact hbooked.claimed hsu h2.symm (by omega) hcall h1.symm (h1 ▸ hn) hclaim.below_cap h4
      hclaim.eq
  | promoted _ _ _ =>
    exact h.kept (hsilent (by simp) (by simp)) ⟨rfl, fun _ => ⟨rfl, rfl, rfl, rfl, rfl, rfl⟩⟩
  | settled _ _ hu _ =>
    exact (hentered.booked hb hs { hw with } hu).kept (hsilent (by simp) (by simp))
      ⟨rfl, fun _ => ⟨rfl, rfl, rfl, rfl, rfl, rfl⟩⟩
  | disputed _ _ heq =>
    apply h.kept (hsilent (by simp) (by simp))
    rw [heq]
    exact ⟨rfl, fun _ => ⟨rfl, rfl, rfl, rfl, rfl, rfl⟩⟩
  | drew a _ hbal =>
    apply h.kept (hsilent (by simp) (by simp))
    rw [drawn_eq hbal]
    exact ⟨rfl, fun _ => ⟨rfl, rfl, rfl, rfl, rfl, rfl⟩⟩

/-- Before the trial tick is accepted no transaction claims anything. -/
theorem fresh_quota {tx : Tx} (hfresh : Fresh s) (h : Quota l s)
    (hstep : FreshStep env tx.msg (enter tx.msg s) tx.call t) : Quota (l ++ [⟨s, tx, t⟩]) t := by
  have hun := hfresh.unaccepted
  have hkept : Silent (⟨s, tx, t⟩ : Entry) → t.probeAccepted = s.probeAccepted →
      Quota (l ++ [⟨s, tx, t⟩]) t := by
    intro hr hsame
    refine h.kept hr ⟨hsame, fun ha => ?_⟩
    rw [hun] at ha
    cases ha
  generalize hcall : tx.call = c at hstep
  have hsilent : (∀ n, c ≠ .claimTokens n) → c ≠ .acceptProbe →
      Silent (⟨s, tx, t⟩ : Entry) := by
    intro hc ha
    exact silent_of_call (fun n => hcall ▸ hc n) (hcall ▸ ha)
  cases hstep with
  | relisted hc ha _ hr =>
    apply hkept (hsilent hc ha)
    rw [hr.eq]
    rfl
  | filled p b k f _ hfill =>
    apply hkept (hsilent (by simp) (by simp))
    rw [hfill.eq]
    rfl
  | sellerBonded a c _ _ _ heq =>
    apply hkept (hsilent (by simp) (by simp))
    rw [heq]
    rfl
  | buyerBonded a _ _ _ heq =>
    apply hkept (hsilent (by simp) (by simp))
    rw [heq]
    rfl
  | opened c _ _ _ _ heq =>
    apply hkept (hsilent (by simp) (by simp))
    rw [heq]
    exact hun.symm
  | accepted _ _ _ heq =>
    apply h.accepted hfresh hcall
    rw [heq]
    exact ⟨rfl, rfl, rfl, rfl, rfl⟩
  | disputed _ _ heq =>
    apply hkept (hsilent (by simp) (by simp))
    rw [heq]
    rfl
  | cleaned _ heq =>
    apply hkept (hsilent (by simp) (by simp))
    rw [heq]
    rfl

/-! ## Runs -/

/-- The law over a whole history: per week of the term the accepted trial opened, and past it. -/
def Bounded (l : History) : Prop :=
  ∀ a ∈ l, a.act.call = .acceptProbe → a.post.subWeeks ≠ 0 →
    (∀ k, claimedIn l a.act.msg.now k ≤ a.post.tokensPerWeek) ∧
    ∀ r ∈ l, Raises r → r.act.msg.now < a.act.msg.now + a.post.subWeeks * subWeekLen

theorem Quota.bounded (h : Quota l s) (hi : Invariant s) (hl : Ledger s) : Bounded l := by
  intro a ha hcall hsub
  obtain ⟨hacc, hstart, hweek, hterm⟩ := h.term a ha hcall
  have hs := hi.streaming hacc
  rw [← hstart, ← hweek, ← hterm]
  have hne : s.subWeeks ≠ 0 := hterm ▸ hsub
  exact ⟨fun k => h.within hs (hl.whole hs.funded) hne k, h.inTerm hacc hne⟩

theorem silent_of_dead {tx : Tx} (hi : Invariant (enter tx.msg s)) (hlive : s.destroyed = false)
    (hok : dispatch env tx.msg (enter tx.msg s) tx.call = .ok t) (hf : t.fault = false)
    (hdead : t.destroyed = true) : Silent (⟨s, tx, t⟩ : Entry) := by
  have halive : t.destroyed ≠ s.destroyed := by
    rw [hdead, hlive]
    simp
  refine silent_of_call (fun n hc => halive ?_) (fun hc => halive ?_)
  · change tx.call = _ at hc
    rw [hc] at hok
    obtain ⟨-, -, -, ha, ⟨-, rfl⟩ | ⟨-, u, hclaim⟩⟩ := claimTokens_ok hok hf hi.base.start_le_now
    · rfl
    · obtain ⟨_, _, _, _, _, _, heq, -⟩ := booked_fields hi.base (hi.streaming ha) hclaim.booked
      rw [hclaim.eq, heq]
      rfl
  · change tx.call = _ at hc
    rw [hc] at hok
    obtain ⟨-, -, -, -, -, heq⟩ := acceptProbe_ok hok hf
    rw [heq]
    rfl

theorem Bounded.silent {r : Entry} (h : Bounded l) (hr : Silent r) : Bounded (l ++ [r]) := by
  intro a ha hcall hsub
  have ha' : a ∈ l := by
    rcases List.mem_append.mp ha with ha | ha
    · exact ha
    · rw [List.mem_singleton.mp ha] at hcall
      exact absurd hcall hr.notTrial
  obtain ⟨h1, h2⟩ := h a ha' hcall hsub
  refine ⟨fun k => ?_, fun q hq hup => ?_⟩
  · rw [claimedIn_append_none hr.none]
    exact h1 k
  · rcases List.mem_append.mp hq with hq | hq
    · exact h2 q hq hup
    · rw [List.mem_singleton.mp hq] at hup
      exact absurd hup hr.below

theorem run_bounded {s₀ : Deal} (h0 : Constructed env s₀)
    (hrun : DealRun env (BookFill env) s₀ l s) :
    Bounded l ∧ (s.destroyed = false → Invariant s ∧ Ledger s ∧ Quota l s) := by
  refine TransactionSystem.Run.invariant (I := fun l s =>
    Bounded l ∧ (s.destroyed = false → Invariant s ∧ Ledger s ∧ Quota l s)) ?_ ?_ hrun
  · have hi := constructed_invariant h0
    have hun : s₀.probeAccepted = false := by
      obtain ⟨m, a, -, h⟩ := h0
      simp only [construct, require_bind_ok, pure_ok, Except.ok.injEq] at h
      obtain ⟨-, -, -, -, -, -, -, -, rfl⟩ := h
      rfl
    refine ⟨by simp [Bounded], fun _ => ⟨hi, constructed_ledger h0, by simp, by simp, ?_, ?_, ?_,
      by simp⟩⟩
    all_goals
      intro ha
      rw [hun] at ha
      cases ha
  · intro l s tx t ih hΦ hok
    obtain ⟨hlive, hd, hf⟩ := exec_ok hok
    obtain ⟨hbound, hrest⟩ := ih
    obtain ⟨hi, hl, hq⟩ := hrest hlive
    have hin := hi.enter hΦ.1.later hΦ.1.clock
    cases hdead : t.destroyed with
    | true => exact ⟨hbound.silent (silent_of_dead hin hlive hd hf hdead), by simp⟩
    | false =>
      have hquota : Quota (l ++ [⟨s, tx, t⟩]) t := by
        cases ha : s.probeAccepted with
        | true =>
          have hs := hin.streaming ha
          exact streaming_quota hin hs (hl.whole hs.funded) hq (stream_step hin hs hd hf hdead)
        | false =>
          exact fresh_quota (Invariant.fresh hi ha) hq (fresh_step hin ha hd hf hdead)
      have hit := exec_invariant hi hΦ.1 hok hdead
      have hlt : Ledger t := dispatch_ledger hin (enter_ledger hl tx.msg) hΦ.2 hd hf hdead
      exact ⟨hquota.bounded hit hlt, fun _ => ⟨hit, hlt, hquota⟩⟩

/-- Over every run of a deal funded by the book, with any interleaving and delay of claims and
boundaries: inside each week counted from the acceptance of the trial tick no more than
`tokensPerWeek` tokens are newly claimed, the trial tick among them, and no claim above the
record is accepted at or after the end of the last week. -/
theorem weekly_quota (env : Env) (s₀ s : Deal) (l : History) (h0 : Constructed env s₀)
    (hrun : DealRun env (BookFill env) s₀ l s) (a : Entry) (ha : a ∈ l)
    (hcall : a.act.call = .acceptProbe) (hsub : a.post.subWeeks ≠ 0) :
    (∀ k, claimedIn l a.act.msg.now k ≤ a.post.tokensPerWeek) ∧
    ∀ r ∈ l, ∀ n, r.act.call = .claimTokens n →
      a.act.msg.now + a.post.subWeeks * subWeekLen ≤ r.act.msg.now → n ≤ r.pre.tokensPend := by
  obtain ⟨hweek, hterm⟩ := (run_bounded h0 hrun).1 a ha hcall hsub
  refine ⟨hweek, fun r hr n hc hlate => ?_⟩
  by_contra hup
  have hearly := hterm r hr ⟨n, hc, by omega⟩
  omega

/-- A subscription of two ticks a week: half a tick claimed beyond the trial in the first week, and
a boundary booked by a stranger in the second. -/
theorem weekly_quota_subscribed :
    ∃ l s, DealRun sampleEnv (BookFill sampleEnv) sampleDeal l s ∧ s.tokensPend = 1500000 ∧
      ∃ a ∈ l, a.act.call = .acceptProbe ∧
        ∀ k, claimedIn l a.act.msg.now k ≤ a.post.tokensPerWeek := by
  have hplay : (played (BookFill sampleEnv) (subscribedSchedule ++
      [sellerTx 400 (.claimTokens 1500000), strangerTx 700000 .settleWeek])).any
        (fun s => !s.destroyed && decide (s.tokensPend = 1500000) && decide (s.subWeeks = 4)) =
          true := by
    decide
  obtain ⟨l, s, hrun, hacts, hp⟩ := played_run hplay
  simp only [Bool.and_eq_true, Bool.not_eq_true', decide_eq_true_eq] at hp
  have hmem : sellerTx 300 .acceptProbe ∈ l.map (·.act) := by
    rw [hacts]
    simp [subscribedSchedule]
  obtain ⟨a, ha, hact⟩ := List.mem_map.mp hmem
  have hcall : a.act.call = .acceptProbe := by rw [hact]; rfl
  have hterm := ((run_bounded sampleDeal_constructed hrun).2 hp.1.1).2.2.term a ha hcall
  have hsub : a.post.subWeeks ≠ 0 := by
    rw [← hterm.2.2.2, hp.2]
    decide
  exact ⟨l, s, hrun, hp.1.2, a, ha, hcall,
    (weekly_quota sampleEnv sampleDeal s l sampleDeal_constructed hrun a ha hcall hsub).1⟩

end TokenContractQuota
