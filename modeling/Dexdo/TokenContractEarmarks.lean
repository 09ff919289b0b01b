import Dexdo.TokenContractExits

/-! # Earmarks of a TokenContract

Every unit of `_balance` belongs to one earmark, and nothing is left to sweep when the deal
ends, as long as the buyer's bond only enters a deal that is matched. -/
namespace TokenContractEarmarks

open TokenContractState TokenContractCalls TokenContractCharges TokenContractPayouts
open TokenContractSteps TokenContractInvariant TokenContractExits

variable {env : Env} {m : Msg} {s t u : Deal}

def isBondCall : Call → Bool
  | .fundBuyerBond _ => true
  | _ => false

def BondWhileFunded (s : Deal) (tx : Tx) : Prop := isBondCall tx.call = true → s.funded = true

instance (s : Deal) (tx : Tx) : Decidable (BondWhileFunded s tx) :=
  inferInstanceAs (Decidable (isBondCall tx.call = true → s.funded = true))

structure Exact (s : Deal) : Prop where
  exact : s.balance = s.earmarks
  bond : s.buyerBond = if s.buyerBondFunded then bondAmount s.pricePerTick else 0
  unbonded : s.funded = false → s.buyerBondFunded = false

theorem Exact.swept (h : Exact s) (hs : Settles s t) :
    t.credited .residual = s.credited .residual := by
  obtain ⟨a, b, d, hmove⟩ := hs
  have hleft : (if s.funded then 0 else s.buyerBond) = 0 := by
    cases hf : s.funded with
    | true => rfl
    | false => simp [h.bond, h.unbonded hf]
  rw [hmove.residual, h.exact, hleft, Nat.sub_self]
  rfl

/-! ## Steps -/

theorem Exact.relisted (h : Exact s) (r : Relisted s t) : Exact t := by
  rw [r.eq]
  exact { h with }

theorem Exact.filled {paid : ℕ} {b : Address} {k f : ℕ} (h : Exact s) (hi : Invariant s)
    (hfill : Filled paid b k f s t) : Exact t := by
  have hidle := hi.idle (hi.closed_of_unfunded hfill.unfunded)
  have hflag := h.unbonded hfill.unfunded
  have hbond := h.bond
  have hexact := h.exact
  have hdep := hidle.unfunded hfill.unfunded
  have hprobe := hidle.probeTick
  have howed := hidle.finalizedOwed
  have hfee := hidle.feeAccrued
  have hle := hfill.bond_le
  have hpos := hi.base.price_pos
  rw [hflag] at hbond
  unfold Deal.earmarks at hexact
  rw [hfill.eq]
  refine ⟨?_, ?_, by simp⟩
  · simp only [Deal.earmarks]
    simp only [Bool.false_eq_true, if_false] at hbond
    omega
  · simp only [hflag, Bool.false_or, decide_eq_true_eq]
    unfold fillBond bondAmount
    by_cases hsub : f &&& flagSubscription ≠ 0
    · simp [hsub, hpos]
    · simp [hsub]

theorem Exact.fundDeal {amount : ℕ} {c : Option Bytes} (h : Exact s) (hi : Invariant s)
    (hok : fundDeal amount c m s = .ok t) (hf : t.fault = false) : Exact t := by
  obtain ⟨-, hflag, -, -, -, heq⟩ := fundDeal_ok hok hf
  have hnone : s.sellerBond = 0 := by simpa [hflag] using hi.base.sellerBond
  have hexact := h.exact
  unfold Deal.earmarks at hexact
  rw [heq]
  refine ⟨?_, h.bond, h.unbonded⟩
  simp only [Deal.earmarks]
  omega

theorem Exact.fundBuyerBond {amount : ℕ} (h : Exact s) (hfu : s.funded = true)
    (hok : fundBuyerBond amount m s = .ok t) (hf : t.fault = false) : Exact t := by
  obtain ⟨-, -, hflag, -, -, -, heq⟩ := fundBuyerBond_ok hok hf
  have hnone : s.buyerBond = 0 := by simpa [hflag] using h.bond
  have hexact := h.exact
  unfold Deal.earmarks at hexact
  rw [heq]
  refine ⟨?_, by simp, by simp [hfu]⟩
  simp only [Deal.earmarks]
  omega

theorem Exact.openDeal {c : Bytes} (h : Exact s) (hi : Invariant s)
    (hok : openDeal c m s = .ok t) : Exact t := by
  obtain ⟨-, ho, -, -, hle, -, heq⟩ := openDeal_ok hok
  have hprobe := (hi.idle ho).probeTick
  have hexact := h.exact
  unfold Deal.earmarks at hexact
  rw [heq]
  refine ⟨?_, h.bond, h.unbonded⟩
  simp only [Deal.earmarks]
  omega

theorem Exact.acceptProbe (h : Exact s) (hok : acceptProbe m s = .ok t)
    (hf : t.fault = false) : Exact t := by
  obtain ⟨-, -, -, -, -, heq⟩ := acceptProbe_ok hok hf
  have hfee : (if fee s.pricePerTick > s.deposit then s.deposit else fee s.pricePerTick) ≤
      s.deposit := by
    split <;> omega
  have hexact := h.exact
  unfold Deal.earmarks at hexact
  rw [heq]
  refine ⟨?_, h.bond, h.unbonded⟩
  simp only [Deal.earmarks]
  omega

theorem Exact.booked (h : Exact s) (hb : Base s) (hs : Streaming s)
    (hu : Booked (settledBooks s) u) : Exact u := by
  obtain ⟨c, d, o, f, p, b, heq, hsum⟩ := settledBooks_spec hb hs
  have hueq := hu.eq
  have hexact := h.exact
  rw [heq] at hueq
  unfold Deal.earmarks at hexact
  rw [hueq]
  refine ⟨?_, h.bond, h.unbonded⟩
  simp only [Deal.earmarks]
  omega

theorem Exact.claimTokens {n : ℕ} (h : Exact s) (hi : Invariant s)
    (hok : claimTokens env n m s = .ok t) (hf : t.fault = false) : Exact t := by
  obtain ⟨-, -, -, ha, ⟨-, rfl⟩ | ⟨-, u, hclaim⟩⟩ :=
    claimTokens_ok hok hf hi.base.start_le_now
  · exact h
  · have hu := h.booked hi.base (hi.streaming ha) hclaim.booked
    rw [hclaim.eq]
    exact { hu with }

theorem Exact.drawn {amount : ℕ} (h : Exact s) (howed : amount ≤ s.finalizedOwed)
    (hbal : amount ≤ s.balance) : Exact (drawn amount s) := by
  have hexact := h.exact
  unfold Deal.earmarks at hexact
  rw [drawn_eq hbal]
  refine ⟨?_, h.bond, h.unbonded⟩
  simp only [Deal.earmarks]
  omega

theorem Exact.cleanupUnopened (hi : Invariant s) (hok : cleanupUnopened m s = .ok t) :
    Exact t := by
  obtain ⟨-, ho, -, -, ht⟩ := cleanupUnopened_ok hok
  have hidle := hi.idle ho
  rw [ht, cleanupUnopenedBody_eq hi.base.toBacked]
  refine ⟨?_, by simp, by simp⟩
  simp [Deal.earmarks, hidle.probeTick, hidle.finalizedOwed, hidle.feeAccrued]

/-- One call on an exact deal: nothing is swept, and a deal that lives on is exact again. -/
theorem dispatch_exact {c : Call} (hi : Invariant s) (h : Exact s) (hlive : s.destroyed = false)
    (hbond : isBondCall c = true → s.funded = true) (hok : dispatch env m s c = .ok t)
    (hf : t.fault = false) :
    t.credited .residual = s.credited .residual ∧ (t.destroyed = false → Exact t) := by
  have hend : t.destroyed = true → Settles s t →
      t.credited .residual = s.credited .residual ∧ (t.destroyed = false → Exact t) := by
    intro hd hs
    exact ⟨h.swept hs, fun hl => by rw [hd] at hl; cases hl⟩
  cases c with
  | fundFromOrderBook p b k f =>
    rcases fundFromOrderBook_ok hok hf with hr | ⟨-, hfill⟩
    · exact ⟨hr.residual, fun _ => h.relisted hr⟩
    · exact ⟨hfill.residual, fun _ => h.filled hi hfill⟩
  | postFromNote a b c d e =>
    have hr := postFromNote_ok hok
    exact ⟨hr.residual, fun _ => h.relisted hr⟩
  | onSellClosed =>
    have hr := onSellClosed_ok hok
    exact ⟨hr.residual, fun _ => h.relisted hr⟩
  | close => exact hend (ending_call hok (by simp)) (close_settles hi hok)
  | fundDeal a c =>
    obtain ⟨-, -, -, -, hq, -⟩ := fundDeal_ok hok hf
    exact ⟨hq.residual, fun _ => h.fundDeal hi hok hf⟩
  | fundBuyerBond a =>
    obtain ⟨-, -, -, -, -, hq, -⟩ := fundBuyerBond_ok hok hf
    exact ⟨hq.residual, fun _ => h.fundBuyerBond (hbond rfl) hok hf⟩
  | openDeal c =>
    obtain ⟨-, -, -, -, -, hq, -⟩ := openDeal_ok hok
    exact ⟨hq.residual, fun _ => h.openDeal hi hok⟩
  | acceptProbe =>
    obtain ⟨-, -, -, -, hq, -⟩ := acceptProbe_ok hok hf
    exact ⟨hq.residual, fun _ => h.acceptProbe hok hf⟩
  | claimTokens n =>
    refine ⟨?_, fun _ => h.claimTokens hi hok hf⟩
    obtain ⟨-, -, -, ha, ⟨-, rfl⟩ | ⟨-, u, hclaim⟩⟩ :=
      claimTokens_ok hok hf hi.base.start_le_now
    · rfl
    · obtain ⟨hmove, -, -⟩ := booked_regroups hi.base (hi.streaming ha) hclaim.booked
      rw [hclaim.quiet.residual, hmove.residual]
      rfl
  | finalize =>
    cases hd : t.destroyed with
    | true =>
      rcases (finalize_settles hi hok).2 hd with hold | hs
      · rw [hlive] at hold
        cases hold
      · exact ⟨h.swept hs, by simp⟩
    | false =>
      obtain ⟨-, -, -, -, rfl | ⟨-, -, rfl⟩⟩ := finalize_ok hok hi.base.promote_lt
      · exact ⟨rfl, fun _ => { h with }⟩
      · rw [payFinalAndClose_destroyed] at hd
        cases hd
  | settleWeek =>
    cases hd : t.destroyed with
    | true =>
      rcases (settleWeek_settles hi hok).2 hd with hold | hs
      · rw [hlive] at hold
        cases hold
      · exact ⟨h.swept hs, by simp⟩
    | false =>
      obtain ⟨-, hst, -, -, u, hu, -, -, ⟨rfl, -⟩ | ⟨-, -, rfl⟩⟩ := settleWeek_inv hi hok
      · obtain ⟨hmove, -, -⟩ := booked_regroups hi.base hst hu
        exact ⟨hmove.residual, fun _ => h.booked hi.base hst hu⟩
      · rw [payFinalAndClose_destroyed] at hd
        cases hd
  | stop => exact hend (ending_call hok (by simp)) (stop_settles hi hok)
  | sellerStop => exact hend (ending_call hok (by simp)) (sellerStop_settles hi hok)
  | dispute =>
    obtain ⟨-, -, -, hq, heq⟩ := dispute_ok hok
    refine ⟨hq.residual, fun _ => ?_⟩
    rw [heq]
    exact { h with }
  | releaseDispute => exact hend (ending_call hok (by simp)) (releaseDispute_settles hi hok)
  | resolveDisputeTimeout =>
    exact hend (ending_call hok (by simp)) (resolveDisputeTimeout_settles hi hok)
  | cleanupUnopened =>
    refine ⟨?_, fun _ => Exact.cleanupUnopened hi hok⟩
    obtain ⟨-, -, -, -, rfl⟩ := cleanupUnopened_ok hok
    exact (cleanupUnopenedBody_figures m s).1
  | withdrawShell a =>
    obtain ⟨-, howed, hbal, -⟩ := withdrawShell_ok hok
    rw [withdrawShell_settles hi hok]
    exact ⟨(drawn_drew a s).residual, fun _ => h.drawn howed hbal⟩
  | destroy => exact hend (ending_call hok (by simp)) (destroy_settles hi hok)
  | touchDeal =>
    have hr := touchDeal_ok hok
    exact ⟨hr.residual, fun _ => h.relisted hr⟩

/-! ## Runs -/

structure Sound (s : Deal) : Prop where
  swept : s.credited .residual = 0
  live : s.destroyed = false → Invariant s ∧ Exact s

theorem constructed_sound (h : Constructed env s) : Sound s := by
  have hi := constructed_invariant h
  obtain ⟨m, a, -, h⟩ := h
  simp only [construct, require_bind_ok, pure_ok, Except.ok.injEq] at h
  obtain ⟨-, -, -, -, -, -, -, -, rfl⟩ := h
  exact ⟨rfl, fun _ => ⟨hi, rfl, rfl, fun _ => rfl⟩⟩

theorem exec_sound {tx : Tx} (h : Sound s) (ha : Admissible s tx) (hΦ : BondWhileFunded s tx)
    (hok : exec env tx s = .ok t) : Sound t := by
  obtain ⟨hlive, hd, hf⟩ := exec_ok hok
  obtain ⟨hi, hx⟩ := h.live hlive
  have hentered : Exact (enter tx.msg s) := { hx with }
  obtain ⟨hres, hnext⟩ := dispatch_exact (hi.enter ha.later ha.clock) hentered hlive hΦ hd hf
  refine ⟨hres.trans h.swept, fun hl => ⟨exec_invariant hi ha hok hl, hnext hl⟩⟩

theorem reachable_sound (h : Reachable env BondWhileFunded s) : Sound s :=
  TransactionSystem.Reachable.invariant (fun _ h => constructed_sound h)
    (fun _ _ _ ih hΦ hok => exec_sound ih hΦ.1 hΦ.2 hok) h

/-- In every run whose bond calls all meet a matched deal, the earmarks add up to the balance
in every live state, and no sweep has ever paid the seller anything. -/
theorem earmarks_account_for_balance (env : Env) (s : Deal)
    (h : Reachable env BondWhileFunded s) :
    (s.destroyed = false → s.balance = s.earmarks) ∧ s.credited .residual = 0 := by
  have hsound := reachable_sound h
  exact ⟨fun hlive => (hsound.live hlive).2.exact, hsound.swept⟩

theorem earmarks_account_for_balance_opened :
    ∃ s, Reachable sampleEnv BondWhileFunded s ∧ s.destroyed = false ∧
      s.probeAccepted = true ∧ s.balance = s.earmarks ∧ s.credited .residual = 0 := by
  have hplay : (played BondWhileFunded openedSchedule).any
      (fun s => !s.destroyed && s.probeAccepted) = true := by
    decide
  obtain ⟨s, hs, hp⟩ := played_reachable hplay
  simp only [Bool.and_eq_true, Bool.not_eq_true'] at hp
  obtain ⟨hx, hr⟩ := earmarks_account_for_balance sampleEnv s hs
  exact ⟨s, hs, hp.1, hp.2, hx hp.1, hr⟩

/-- The bond of a buyer whose match was cleaned up lands on the unmatched deal, and the next
fill overwrites it. -/
def strayBondSchedule : List Tx :=
  [noteTx 10 (.postFromNote 1 1 0 0 0), bookTx 20 (.fundFromOrderBook 4100000000 8 4 0),
    strangerTx 620 .cleanupUnopened, buyerTx 621 (.fundBuyerBond 2000000000),
    noteTx 630 (.postFromNote 1 1 0 0 0), bookTx 640 (.fundFromOrderBook 4100000000 11 5 0)]

/-- The seller destroys the deal then, and the first buyer's bond is swept to him. -/
theorem stray_bond_swept_to_seller :
    (∃ s, Reachable sampleEnv AnyTx s ∧ s.destroyed = false ∧
      s.balance = 6100000000 ∧ s.earmarks = 4100000000) ∧
    ∃ s, Reachable sampleEnv AnyTx s ∧ s.destroyed = true ∧
      s.credited .residual = 2000000000 := by
  have hlive : (played AnyTx strayBondSchedule).any (fun s => !s.destroyed &&
      decide (s.balance = 6100000000) && decide (s.earmarks = 4100000000)) = true := by
    decide
  have hdead : (played AnyTx (strayBondSchedule ++ [sellerTx 650 .destroy])).any
      (fun s => s.destroyed && decide (s.credited .residual = 2000000000)) = true := by
    decide
  obtain ⟨s, hs, hp⟩ := played_reachable hlive
  obtain ⟨u, hu, hq⟩ := played_reachable hdead
  simp only [Bool.and_eq_true, Bool.not_eq_true', decide_eq_true_eq] at hp hq
  exact ⟨⟨s, hs, hp.1.1, hp.1.2, hp.2⟩, u, hu, hq.1, hq.2⟩

end TokenContractEarmarks
