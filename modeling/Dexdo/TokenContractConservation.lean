import Dexdo.DealConservation
import Dexdo.TokenContractClaims

/-! # The client's ledger follows the contract

A call of a deal moves `_balance` in at most one place upwards, the figure it was funded with, and
then only through `_payShell` and `_burnShell`. -/
namespace TokenContractConservation

open TokenContractState TokenContractCalls DealConservation
open TokenContractInvariant TokenContractClaims

def outflowOf (render : Address → String) : Out → Option DealMoneyFlow
  | .creditFromDeal _ dest amount => some (.creditedToNote (render dest) amount)
  | .reportDealWriteOff amount => some (.writtenOff amount)
  | _ => none

/-- The movement a call starts with: the figure it was funded with, in full. A fill counts once
the deal has recognised its book, whether it is kept or refunded. -/
def fundingOf (env : Env) (m : Msg) (s : Deal) : Call → List DealMoneyFlow
  | .fundFromOrderBook paid _ _ _ =>
    if paid ≠ 0 ∧ m.sender = orderBook env s then [.escrowFunded paid] else []
  | .fundDeal amount _ => [.sellerBondFunded amount]
  | .fundBuyerBond amount => [.buyerBondFunded amount]
  | _ => []

/-- The movements of one accepted call, in the order the contract makes them. -/
def movements (env : Env) (render : Address → String)
    (r : TransactionSystem.Record Deal Tx) : List DealMoneyFlow :=
  fundingOf env r.act.msg r.pre r.act.call ++
    (r.post.out.drop r.pre.out.length).filterMap (fun m => outflowOf render m.body)

def flows (env : Env) (render : Address → String) (l : History) : List DealMoneyFlow :=
  l.flatMap (movements env render)

def fundings (env : Env) (l : History) : ℕ :=
  inflow (l.flatMap fun r => fundingOf env r.act.msg r.pre r.act.call)

/-- The replay of a history does not breach, carries the balance of the contract, and settles as
destroyed once the contract is. -/
def Replays (env : Env) (render : Address → String) (l : History) (s : Deal) : Prop :=
  ∃ ledger, DealLedger.replay (flows env render l) = .ok ledger ∧ ledger.balance = s.balance ∧
    (s.destroyed = true → ∃ settlement, ledger.settleDestroyed = .ok settlement ∧
      settlement.balance = 0)

def Abstracts (env : Env) (render : Address → String) (l : History) (s : Deal) : Prop :=
  Replays env render l s ∧
    ∀ l₁ r l₂, l = l₁ ++ r :: l₂ → Replays env render (l₁ ++ [r]) r.post

variable {env : Env} {render : Address → String} {m : Msg} {s t u : Deal}

/-! ## What the functions of a call spend -/

def spentOf : Out → ℕ
  | .creditFromDeal _ _ amount => amount
  | .reportDealWriteOff amount => amount
  | _ => 0

/-- Between `s` and `t` the balance paid for exactly what was sent, nothing was recalled, and an
account that ended holds nothing. -/
structure Spends (s t : Deal) : Prop where
  sent : s.out <+: t.out
  sound : t.fault = false → s.fault = false
  paid : t.fault = false → t.balance + tally spentOf t.out = s.balance + tally spentOf s.out
  ended : t.fault = false → t.destroyed = true → s.destroyed = true ∨ t.balance = 0

namespace Spends

theorem refl (s : Deal) : Spends s s :=
  ⟨List.prefix_rfl, fun h => h, fun _ => rfl, fun _ h => .inl h⟩

theorem write (h : Spends s t) (ho : u.out = t.out) (hf : u.fault = t.fault)
    (hb : u.balance = t.balance) (hd : u.destroyed = t.destroyed) : Spends s u := by
  refine ⟨ho ▸ h.sent, fun hu => h.sound (hf ▸ hu), fun hu => ?_, fun hu => ?_⟩
  · rw [ho, hb]
    exact h.paid (hf ▸ hu)
  · rw [hb, hd]
    exact h.ended (hf ▸ hu)

theorem check (h : Spends s t) (p : Prop) [Decidable p] : Spends s (t.check p) := by
  have hf : (t.check p).fault = false → t.fault = false := by
    intro hc
    unfold Deal.check at hc
    exact (Bool.or_eq_false_iff.mp hc).1
  exact ⟨h.sent, fun hc => h.sound (hf hc), fun hc => h.paid (hf hc), fun hc => h.ended (hf hc)⟩

theorem sendIf {o : Out} (h : Spends s t) (p : Prop) [Decidable p] (ho : spentOf o = 0) :
    Spends s (t.sendIf p o) := by
  refine ⟨h.sent.trans (List.prefix_append _ _), h.sound, fun hc => ?_, h.ended⟩
  have hpaid := h.paid hc
  simp only [Deal.sendIf, tally_append, tally_sentIf, ho, ite_self]
  exact hpaid

theorem send {o : Out} (h : Spends s t) (ho : spentOf o = 0) : Spends s (t.send o) := by
  refine ⟨h.sent.trans (List.prefix_append _ _), h.sound, fun hc => ?_, h.ended⟩
  have hpaid := h.paid hc
  simp only [Deal.send, tally_append, tally_cons, tally_nil, ho]
  exact hpaid

theorem leave (h : Spends s t) {a : ℕ} {o : Out} (ho : spentOf o = a) :
    Spends s ({ t with
      balance := t.balance - a
      fault := t.fault || decide (t.balance < a) }.sendIf (a ≠ 0) o) := by
  have hf : (t.fault || decide (t.balance < a)) = false → t.fault = false ∧ a ≤ t.balance := by
    intro hc
    obtain ⟨h1, h2⟩ := Bool.or_eq_false_iff.mp hc
    exact ⟨h1, by simpa using h2⟩
  refine ⟨h.sent.trans (List.prefix_append _ _), fun hc => h.sound (hf hc).1, fun hc => ?_,
    fun hc hd => ?_⟩
  · obtain ⟨h1, hle⟩ := hf hc
    have hpaid := h.paid h1
    simp only [Deal.sendIf, tally_append, tally_sentIf, ho]
    split <;> omega
  · obtain ⟨h1, hle⟩ := hf hc
    rcases h.ended h1 hd with h | h
    · exact .inl h
    · right
      simp only [Deal.sendIf]
      omega

theorem payShell {p : Payee} {d : Address} {a : ℕ} (h : Spends s t) :
    Spends s (payShell p d a t) := h.leave rfl

theorem burnShell {a : ℕ} (h : Spends s t) : Spends s (burnShell a t) := h.leave rfl

theorem announceClosed {d : Address} (h : Spends s t) : Spends s (announceClosed d t) :=
  h.sendIf _ rfl

theorem sweepAndDie (h : Spends s t) : Spends s (sweepAndDie t) := by
  have hpay : Spends s (TokenContractCalls.payShell .residual t.sellerNote t.balance t) := h.payShell
  have hdie := (hpay.announceClosed (d := t.buyer)).announceClosed (d := t.sellerNote)
  have hsend := hdie.send (o := .contractDestroyed) rfl
  refine ⟨hsend.sent, hsend.sound, hsend.paid, fun _ _ => .inr ?_⟩
  exact Nat.sub_self t.balance

theorem payOwedAndDie (h : Spends s t) : Spends s (payOwedAndDie t) := by
  unfold TokenContractCalls.payOwedAndDie
  apply sweepAndDie
  apply payShell
  exact h.write rfl rfl rfl rfl

theorem reportFinalized (h : Spends s t) : Spends s (reportFinalized env t) := h.sendIf _ rfl

theorem settleFees {clean : Bool} (h : Spends s t) : Spends s (settleFees env clean t) := by
  unfold TokenContractCalls.settleFees
  apply reportFinalized
  refine write (burnShell ?_) rfl rfl rfl rfl
  exact ((h.check _).check _).write rfl rfl rfl rfl

theorem promoteDue (h : Spends s t) : Spends s (promoteDue t) := by
  unfold TokenContractCalls.promoteDue
  dsimp only
  split
  · exact (h.check _).write rfl rfl rfl rfl
  · exact h.check _

theorem payTokens {n : ℕ} (h : Spends s t) : Spends s (payTokens n t) := by
  have hf : (TokenContractCalls.payTokens n t).fault = false → t.fault = false := by
    intro hc
    unfold TokenContractCalls.payTokens Deal.check at hc
    simp only [Bool.or_eq_false_iff, and_assoc] at hc
    exact hc.1
  exact ⟨h.sent, fun hc => h.sound (hf hc), fun hc => h.paid (hf hc), fun hc => h.ended (hf hc)⟩

theorem chargeWeek (h : Spends s t) : Spends s (chargeWeek t) := by
  have hcheck := h.check (t.weekIndex + 1 < u8 ∧ (t.weekIndex + 1) * t.tokensPerWeek < u128)
  have hpaid := hcheck.payTokens (n := if (t.weekIndex + 1) * t.tokensPerWeek > t.tokensPaid then
    (t.weekIndex + 1) * t.tokensPerWeek - t.tokensPaid else 0)
  exact hpaid.write rfl rfl rfl rfl

theorem chargeWeeks (h : Spends s t) (k : ℕ) : Spends s (TokenContractCalls.chargeWeek^[k] t) := by
  induction k with
  | zero => exact h
  | succ k ih =>
    rw [Function.iterate_succ_apply']
    exact ih.chargeWeek

theorem chargeWeeksThrough {k : ℕ} (h : Spends s t) : Spends s (chargeWeeksThrough k t) := by
  unfold TokenContractCalls.chargeWeeksThrough
  split
  · exact h.chargeWeeks _
  · exact h

theorem settleBoundaries {k : ℕ} (h : Spends s t) : Spends s (settleBoundaries env k t) := by
  unfold TokenContractCalls.settleBoundaries
  split
  · exact h
  · apply reportFinalized
    refine write (send ?_ rfl) rfl rfl rfl rfl
    exact h.chargeWeeksThrough

theorem releaseProbe (h : Spends s t) : Spends s (releaseProbe t) := by
  unfold TokenContractCalls.releaseProbe
  split
  · exact h
  · exact (h.check _).write rfl rfl rfl rfl

theorem releaseBuyerBond (h : Spends s t) : Spends s (releaseBuyerBond t) :=
  (h.check _).write rfl rfl rfl rfl

theorem returnBond (h : Spends s t) : Spends s (returnBond t) := by
  unfold TokenContractCalls.returnBond
  split
  · exact h
  · exact payShell (h.write rfl rfl rfl rfl)

theorem creditSellerBond (h : Spends s t) : Spends s (creditSellerBond t) :=
  (h.check _).write rfl rfl rfl rfl

theorem forfeitBonds {b c : ℕ} (h : Spends s t) : Spends s (forfeitBonds b c t) :=
  burnShell ((h.check _).write rfl rfl rfl rfl)

theorem closeClean (h : Spends s t) : Spends s (closeClean env t) := by
  unfold TokenContractCalls.closeClean
  apply payOwedAndDie
  refine send (payShell (settleFees (write (creditSellerBond ?_) rfl rfl rfl rfl))) rfl
  exact (h.releaseProbe.releaseBuyerBond).write rfl rfl rfl rfl

theorem payFinalAndClose (h : Spends s t) : Spends s (payFinalAndClose env t) := by
  unfold TokenContractCalls.payFinalAndClose
  apply closeClean
  split
  · exact h.payTokens.write rfl rfl rfl rfl
  · exact h.payTokens

theorem stopOnProbe (h : Spends s t) : Spends s (stopOnProbe t) := by
  unfold TokenContractCalls.stopOnProbe
  apply payOwedAndDie
  refine send (payShell (burnShell (write (creditSellerBond ?_) rfl rfl rfl rfl))) rfl
  exact (releaseBuyerBond (h.check _)).write rfl rfl rfl rfl

theorem stopBody (h : Spends s t) : Spends s (stopBody env t) := by
  unfold TokenContractCalls.stopBody
  split
  · exact h.stopOnProbe
  · refine payFinalAndClose (chargeWeeksThrough (check ?_ _))
    split
    · exact forfeitBonds (h.promoteDue.write rfl rfl rfl rfl)
    · exact h.promoteDue

theorem sellerExit (h : Spends s t) : Spends s (sellerExit env t) := by
  unfold TokenContractCalls.sellerExit
  refine payFinalAndClose (chargeWeeksThrough (check ?_ _))
  split
  · exact forfeitBonds (h.promoteDue.write rfl rfl rfl rfl)
  · exact h.promoteDue

theorem sellerStopBody (h : Spends s t) : Spends s (sellerStopBody env t) := by
  unfold TokenContractCalls.sellerStopBody
  apply sellerExit
  split
  · exact burnShell (h.write rfl rfl rfl rfl)
  · exact h

theorem liftDispute (h : Spends s t) : Spends s (liftDispute t) :=
  (h.check _).write rfl rfl rfl rfl

theorem burnUnearned (h : Spends s t) : Spends s (burnUnearned t).1 := by
  unfold TokenContractCalls.burnUnearned
  split
  · dsimp only
    split
    · exact burnShell (h.check _)
    · exact h.check _
  · exact h

theorem payTrusted (h : Spends s t) : Spends s (payTrusted t) := by
  have hcheck := h.releaseProbe.check
    ((TokenContractCalls.releaseProbe t).periodStart ≤
      (TokenContractCalls.releaseProbe t).disputeTime)
  unfold TokenContractCalls.payTrusted
  dsimp only
  generalize hu : TokenContractCalls.chargeWeeksThrough _ _ = u
  have hweeks : Spends s u := by
    rw [← hu]
    exact hcheck.chargeWeeksThrough
  generalize hv : TokenContractCalls.payTokens _ u = v
  have hpaid : Spends s v := by
    rw [← hv]
    exact hweeks.payTokens
  exact hpaid.write rfl rfl rfl rfl

theorem burnStakes {b c : ℕ} (h : Spends s t) : Spends s (burnStakes b c t) :=
  burnShell ((h.check _).write rfl rfl rfl rfl)

theorem closeDisputed {r : Bool} (h : Spends s t) : Spends s (closeDisputed env r t) := by
  unfold TokenContractCalls.closeDisputed
  apply payOwedAndDie
  refine send (payShell (settleFees (write (creditSellerBond ?_) rfl rfl rfl rfl))) rfl
  exact (check h.burnUnearned _).write rfl rfl rfl rfl

theorem settleTrustedAndClose {b c : ℕ} (h : Spends s t) :
    Spends s (settleTrustedAndClose env b c t) :=
  closeDisputed (burnStakes (payTrusted h))

theorem releaseDisputeBody (h : Spends s t) : Spends s (releaseDisputeBody env t) := by
  have hlift := (chargeWeeksThrough (h.check (t.periodStart ≤ t.disputeTime))
    (k := weeksElapsedAt (t.check (t.periodStart ≤ t.disputeTime)).disputeTime
      (t.check (t.periodStart ≤ t.disputeTime)))).liftDispute
  unfold TokenContractCalls.releaseDisputeBody
  dsimp only
  split
  · exact settleTrustedAndClose (hlift.check _)
  · exact settleTrustedAndClose hlift

theorem resolveDisputeTimeoutBody (h : Spends s t) :
    Spends s (resolveDisputeTimeoutBody env t) := by
  have hbooks := chargeWeeksThrough (h.check (t.periodStart ≤ t.disputeTime))
    (k := weeksElapsedAt (t.check (t.periodStart ≤ t.disputeTime)).disputeTime
      (t.check (t.periodStart ≤ t.disputeTime)))
  unfold TokenContractCalls.resolveDisputeTimeoutBody
  dsimp only
  split
  · exact settleTrustedAndClose (liftDispute (hbooks.check _))
  · refine settleTrustedAndClose (check (burnShell ?_) _)
    exact (liftDispute (hbooks.check _)).write rfl rfl rfl rfl

theorem cleanupUnopenedBody (h : Spends s t) : Spends s (cleanupUnopenedBody m t) := by
  unfold TokenContractCalls.cleanupUnopenedBody
  refine announceClosed (announceClosed (burnShell (payShell (payShell ?_))))
  exact (releaseBuyerBond ((h.check _).check _)).write rfl rfl rfl rfl

theorem acceptFill {p : ℕ} {b : Address} {k f : ℕ} (h : Spends s t) :
    Spends s (acceptFill p b k f t) := by
  have hfunded : Spends s (recordFunding b k (p - fillBond f t.pricePerTick) { t with
      buyerBond := fillBond f t.pricePerTick
      buyerBondFunded := t.buyerBondFunded || decide (fillBond f t.pricePerTick > 0) }) := by
    refine send ?_ rfl
    exact h.write rfl rfl rfl rfl
  exact (hfunded.check _).write rfl rfl rfl rfl

end Spends

/-! ## What a call spends -/

def received (a : ℕ) (s : Deal) : Deal := { s with balance := s.balance + a }

theorem acceptHandover_spends (p f : ℕ) (m : Msg) (s : Deal) :
    Spends (received p s) (acceptHandover p f m s) := by
  have hcheck := (Spends.refl (received p s)).check (s.balance + p < u128)
  have hboth := hcheck.check (fillBond f s.pricePerTick < u128 ∧ 2 * unit s.pricePerTick < u128)
  have hsent := hboth.send (o := .onHandoverAccepted m.sender) rfl
  exact hsent.write rfl rfl rfl rfl

theorem fundFromOrderBook_spends {p : ℕ} {b : Address} {k f : ℕ}
    (hok : fundFromOrderBook env p b k f m s = .ok t) :
    Spends (received (inflow (fundingOf env m s (.fundFromOrderBook p b k f))) s) t := by
  unfold fundFromOrderBook at hok
  split at hok
  · rename_i hzero
    cases hok
    simp only [fundingOf, hzero, ne_eq, not_true_eq_false, false_and, if_false]
    exact Spends.refl s
  rename_i hpos
  simp only [require_bind_ok] at hok
  obtain ⟨-, hok⟩ := hok
  split at hok
  · rename_i hsender
    cases hok
    simp only [fundingOf, hsender, and_false, if_false]
    exact Spends.refl s
  rename_i hsender
  have hfund : inflow (fundingOf env m s (.fundFromOrderBook p b k f)) = p := by
    simp [fundingOf, hpos, not_not.mp hsender, inflow, DealMoneyFlow.isInflow,
      DealMoneyFlow.amount]
  rw [hfund]
  have hhand := acceptHandover_spends p f m s
  split at hok
  · cases hok
    exact hhand.payShell
  · simp only [require_bind_ok, pure_ok, Except.ok.injEq] at hok
    obtain ⟨-, -, rfl⟩ := hok
    exact hhand.acceptFill

theorem fundDeal_spends {a : ℕ} {c : Option Bytes} (hok : fundDeal a c m s = .ok t) :
    Spends (received a s) t := by
  simp only [fundDeal, require_bind_ok] at hok
  obtain ⟨-, -, -, -, -, hok⟩ := hok
  have hcheck := (Spends.refl (received a s)).check
    (s.balance + a < u128 ∧ bondAmount s.pricePerTick < u128)
  have htake : Spends (received a s) (takeSellerBond a m s) := by
    unfold takeSellerBond
    refine Spends.send (Spends.payShell ?_) rfl
    exact hcheck.write rfl rfl rfl rfl
  cases c with
  | none =>
    cases hok
    exact htake
  | some c =>
    cases hok
    refine Spends.send ?_ rfl
    exact htake.write rfl rfl rfl rfl

theorem fundBuyerBond_spends {a : ℕ} (hok : fundBuyerBond a m s = .ok t) :
    Spends (received a s) t := by
  simp only [fundBuyerBond, require_bind_ok, pure_ok, Except.ok.injEq] at hok
  obtain ⟨-, -, -, -, -, rfl⟩ := hok
  have hcheck := (Spends.refl (received a s)).check
    (s.balance + a < u128 ∧ bondAmount s.pricePerTick < u128)
  unfold takeBuyerBond
  refine Spends.send (Spends.payShell ?_) rfl
  exact hcheck.write rfl rfl rfl rfl

theorem dispatch_spends {c : Call} (hok : dispatch env m s c = .ok t) :
    Spends (received (inflow (fundingOf env m s c)) s) t := by
  have hrefl := Spends.refl s
  cases c with
  | fundFromOrderBook p b k f => exact fundFromOrderBook_spends hok
  | fundDeal a c => exact fundDeal_spends hok
  | fundBuyerBond a => exact fundBuyerBond_spends hok
  | postFromNote h d i f w =>
    simp only [dispatch, postFromNote, require_bind_ok] at hok
    obtain ⟨-, -, hok⟩ := hok
    split at hok
    · cases hok
      exact hrefl.write rfl rfl rfl rfl
    · cases hok
      refine Spends.send ?_ rfl
      exact hrefl.write rfl rfl rfl rfl
  | onSellClosed =>
    simp only [dispatch, onSellClosed] at hok
    split at hok
    · cases hok
      exact hrefl
    split at hok
    · cases hok
      exact hrefl
    · cases hok
      exact hrefl.write rfl rfl rfl rfl
  | close =>
    simp only [dispatch, close, require_bind_ok, pure_ok, Except.ok.injEq] at hok
    obtain ⟨-, -, -, rfl⟩ := hok
    exact hrefl.returnBond.sweepAndDie
  | openDeal c =>
    simp only [dispatch, openDeal, require_bind_ok, pure_ok, Except.ok.injEq] at hok
    obtain ⟨-, -, -, -, -, -, rfl⟩ := hok
    refine Spends.send ?_ rfl
    exact (hrefl.send (o := .endpointSet _) rfl).write rfl rfl rfl rfl
  | acceptProbe =>
    simp only [dispatch, acceptProbe, require_bind_ok, pure_ok, Except.ok.injEq] at hok
    obtain ⟨-, -, -, -, -, rfl⟩ := hok
    refine Spends.send ?_ rfl
    exact ((hrefl.check _).check _).write rfl rfl rfl rfl
  | claimTokens n =>
    simp only [dispatch, claimTokens, require_bind_ok] at hok
    obtain ⟨-, -, -, -, -, hok⟩ := hok
    split at hok
    · cases hok
      exact hrefl
    · simp only [claimAbove, require_bind_ok, pure_ok, Except.ok.injEq] at hok
      obtain ⟨-, -, -, -, -, rfl⟩ := hok
      have hclock : Spends s (settleToClock env s) := ((hrefl.check _).settleBoundaries).check _
      refine Spends.send ?_ rfl
      exact hclock.promoteDue.write rfl rfl rfl rfl
  | finalize =>
    simp only [dispatch, finalize, require_bind_ok] at hok
    obtain ⟨-, -, hok⟩ := hok
    split at hok
    · cases hok
      exact hrefl.promoteDue.payFinalAndClose
    · cases hok
      exact hrefl.promoteDue
  | settleWeek =>
    simp only [dispatch, settleWeek, require_bind_ok] at hok
    obtain ⟨-, -, -, -, hok⟩ := hok
    have hbooks : Spends s (settleWeekBooks env s) := ((hrefl.check _).settleBoundaries).check _
    split at hok
    · cases hok
      exact hbooks.promoteDue.payFinalAndClose
    · cases hok
      exact hbooks
  | stop =>
    simp only [dispatch, stop, require_bind_ok, pure_ok, Except.ok.injEq] at hok
    obtain ⟨-, -, -, rfl⟩ := hok
    exact hrefl.stopBody
  | sellerStop =>
    simp only [dispatch, sellerStop, require_bind_ok, pure_ok, Except.ok.injEq] at hok
    obtain ⟨-, -, -, rfl⟩ := hok
    exact hrefl.sellerStopBody
  | dispute =>
    simp only [dispatch, dispute, require_bind_ok, pure_ok, Except.ok.injEq] at hok
    obtain ⟨-, -, -, rfl⟩ := hok
    refine Spends.send ?_ rfl
    exact hrefl.write rfl rfl rfl rfl
  | releaseDispute =>
    simp only [dispatch, releaseDispute, require_bind_ok, pure_ok, Except.ok.injEq] at hok
    obtain ⟨-, -, rfl⟩ := hok
    exact hrefl.releaseDisputeBody
  | resolveDisputeTimeout =>
    simp only [dispatch, resolveDisputeTimeout, require_bind_ok, pure_ok, Except.ok.injEq] at hok
    obtain ⟨-, -, rfl⟩ := hok
    exact (hrefl.check _).resolveDisputeTimeoutBody
  | cleanupUnopened =>
    simp only [dispatch, cleanupUnopened, require_bind_ok, pure_ok, Except.ok.injEq] at hok
    obtain ⟨-, -, -, -, rfl⟩ := hok
    exact hrefl.cleanupUnopenedBody
  | withdrawShell a =>
    simp only [dispatch, withdrawShell, require_bind_ok] at hok
    obtain ⟨-, -, -, -, hok⟩ := hok
    have hdrew : Spends s ((payShell .seller s.sellerNote a
        { s with finalizedOwed := s.finalizedOwed - a }).send (.shellWithdrawn s.sellerNote a)) := by
      refine Spends.send (Spends.payShell ?_) rfl
      exact hrefl.write rfl rfl rfl rfl
    split at hok
    · cases hok
      exact hdrew.sweepAndDie
    · cases hok
      exact hdrew
  | destroy =>
    simp only [dispatch, destroy, require_bind_ok, pure_ok, Except.ok.injEq] at hok
    obtain ⟨-, -, -, -, rfl⟩ := hok
    refine Spends.sweepAndDie (Spends.returnBond ?_)
    split
    · refine Spends.payShell ?_
      exact hrefl.releaseProbe.releaseBuyerBond.write rfl rfl rfl rfl
    · exact hrefl
  | touchDeal =>
    simp only [dispatch, touchDeal, require_bind_ok, pure_ok, Except.ok.injEq] at hok
    obtain ⟨-, rfl⟩ := hok
    exact hrefl

/-! ## Runs -/

theorem exec_spends {tx : Tx} (hok : exec env tx s = .ok t) :
    s.out <+: t.out ∧
      t.balance + tally spentOf t.out =
        s.balance + inflow (fundingOf env tx.msg s tx.call) + tally spentOf s.out ∧
      (t.destroyed = true → t.balance = 0) := by
  obtain ⟨hlive, hd, hf⟩ := exec_ok hok
  have hspend := dispatch_spends hd
  have hfund : fundingOf env tx.msg (enter tx.msg s) tx.call = fundingOf env tx.msg s tx.call := by
    cases tx.call <;> rfl
  rw [hfund] at hspend
  refine ⟨hspend.sent, hspend.paid hf, fun hdead => ?_⟩
  rcases hspend.ended hf hdead with h | h
  · exact absurd (hlive.symm.trans h) (by simp)
  · exact h

theorem outflows_isInflow (render : Address → String) (l : List Sent) :
    ∀ flow ∈ l.filterMap (fun m => outflowOf render m.body), flow.isInflow = false := by
  intro flow hflow
  obtain ⟨m, -, hm⟩ := List.mem_filterMap.mp hflow
  unfold outflowOf at hm
  split at hm <;> simp_all [DealMoneyFlow.isInflow]
  all_goals
    rw [← hm]

theorem outflow_toList (render : Address → String) (o : Out) :
    outflow (outflowOf render o).toList = spentOf o := by
  cases o <;> rfl

theorem outflow_messages (render : Address → String) (l : List Sent) :
    outflow (l.filterMap fun m => outflowOf render m.body) = tally spentOf l := by
  induction l with
  | nil => rfl
  | cons m l ih =>
    rw [tally_cons, ← ih, ← outflow_toList render m.body, List.filterMap_cons]
    cases outflowOf render m.body with
    | none => simp [outflow]
    | some f =>
      rw [← outflow_append]
      rfl

theorem inflow_flows (env : Env) (render : Address → String) (l : History) :
    inflow (flows env render l) = fundings env l := by
  unfold flows fundings
  induction l with
  | nil => rfl
  | cons r l ih =>
    simp only [List.flatMap_cons, inflow_append, movements, ih,
      inflow_of_outflows (outflows_isInflow _ _), Nat.add_zero]

theorem flows_snoc (l : History) (r : TransactionSystem.Record Deal Tx) :
    flows env render (l ++ [r]) = flows env render l ++ movements env render r := by
  simp [flows]

theorem fundings_snoc (l : History) (r : TransactionSystem.Record Deal Tx) :
    fundings env (l ++ [r]) =
      fundings env l + inflow (fundingOf env r.act.msg r.pre r.act.call) := by
  simp [fundings]

theorem fundingOf_cases (env : Env) (m : Msg) (s : Deal) (c : Call) :
    fundingOf env m s c = [] ∨
      ∃ flow : DealMoneyFlow, flow.isInflow = true ∧ fundingOf env m s c = [flow] := by
  cases c with
  | fundFromOrderBook p b k f =>
    by_cases hown : p ≠ 0 ∧ m.sender = orderBook env s
    · exact .inr ⟨.escrowFunded p, rfl, if_pos hown⟩
    · exact .inl (if_neg hown)
  | fundDeal a c => exact .inr ⟨_, rfl, rfl⟩
  | fundBuyerBond a => exact .inr ⟨_, rfl, rfl⟩
  | _ => exact .inl rfl

theorem replayFrom_funding {ledger : DealLedger} (h : Conserved ledger) {c : Call}
    (hlt : ledger.fundedIn + inflow (fundingOf env m s c) < u128) :
    ∃ k, ledger.replayFrom (fundingOf env m s c) = .ok k ∧ Conserved k ∧
      k.balance = ledger.balance + inflow (fundingOf env m s c) ∧
      k.fundedIn = ledger.fundedIn + inflow (fundingOf env m s c) := by
  rcases fundingOf_cases env m s c with hnone | ⟨flow, hin, hone⟩
  · rw [hnone]
    exact ⟨ledger, rfl, h, rfl, rfl⟩
  · have hsum : inflow [flow] = flow.amount := by simp [inflow, hin]
    rw [hone, hsum] at hlt ⊢
    obtain ⟨k, hk, hkc, hkb, hkf⟩ := apply_inflow h hin hlt
    exact ⟨k, by simp only [DealLedger.replayFrom, hk], hkc, hkb, hkf⟩

theorem replayFrom_movements (render : Address → String) {tx : Tx} {ledger : DealLedger}
    (h : Conserved ledger)
    (hbal : ledger.balance = s.balance) (hok : exec env tx s = .ok t)
    (hlt : ledger.fundedIn + inflow (fundingOf env tx.msg s tx.call) < u128) :
    ∃ k, ledger.replayFrom (movements env render ⟨s, tx, t⟩) = .ok k ∧ Conserved k ∧
      k.balance = t.balance ∧
      k.fundedIn = ledger.fundedIn + inflow (fundingOf env tx.msg s tx.call) := by
  obtain ⟨⟨new, hnew⟩, hpaid, -⟩ := exec_spends hok
  obtain ⟨k, hk, hkc, hkb, hkf⟩ := replayFrom_funding h hlt
  have hdrop : t.out.drop s.out.length = new := by
    rw [← hnew]
    exact List.drop_left
  have hspent := outflow_messages render new
  rw [← hnew, tally_append] at hpaid
  obtain ⟨r, hr, hrc, hrb, hrf⟩ :=
    replayFrom_outflows hkc (outflows_isInflow render new) (by omega)
  refine ⟨r, ?_, hrc, by omega, by omega⟩
  unfold movements
  rw [replayFrom_append, hdrop, hk]
  exact hr

theorem constructed_empty (h : Constructed env s) : s.balance = 0 ∧ s.destroyed = false := by
  obtain ⟨m, a, -, h⟩ := h
  simp only [construct, require_bind_ok, pure_ok, Except.ok.injEq] at h
  obtain ⟨-, -, -, -, -, -, -, -, rfl⟩ := h
  exact ⟨rfl, rfl⟩

variable {Φ : Deal → Tx → Prop} {s₀ : Deal} {l : History}

/-- The simulation: while the lifetime sum fits, the replay of the history so far is a conserved
ledger at the contract's balance. -/
theorem run_replayed (render : Address → String) (h0 : Constructed env s₀)
    (h : TransactionSystem.Run (exec env) Φ s₀ l s) (hlt : fundings env l < u128) :
    (s.destroyed = true → s.balance = 0) ∧
      ∃ ledger, DealLedger.replay (flows env render l) = .ok ledger ∧ Conserved ledger ∧
        ledger.balance = s.balance ∧ ledger.fundedIn = fundings env l := by
  revert hlt
  refine h.invariant (I := fun l s => fundings env l < u128 →
    (s.destroyed = true → s.balance = 0) ∧
      ∃ ledger, DealLedger.replay (flows env render l) = .ok ledger ∧ Conserved ledger ∧
        ledger.balance = s.balance ∧ ledger.fundedIn = fundings env l) ?_ ?_
  · intro _
    obtain ⟨hzero, -⟩ := constructed_empty h0
    exact ⟨fun _ => hzero, {}, rfl, new_conserved, hzero.symm, rfl⟩
  · intro l s a t ih _ hok hlt
    rw [fundings_snoc] at hlt
    obtain ⟨-, ledger, hl, hc, hbal, hfund⟩ := ih (by omega)
    obtain ⟨k, hk, hkc, hkb, hkf⟩ :=
      replayFrom_movements render hc hbal hok (by rw [hfund]; exact hlt)
    refine ⟨(exec_spends hok).2.2, k, ?_, hkc, hkb, ?_⟩
    · unfold DealLedger.replay at hl ⊢
      rw [flows_snoc, replayFrom_append, hl]
      exact hk
    · rw [fundings_snoc, hkf, hfund]

theorem run_replays (h0 : Constructed env s₀) (h : TransactionSystem.Run (exec env) Φ s₀ l s)
    (hlt : fundings env l < u128) : Replays env render l s := by
  obtain ⟨hdead, ledger, hl, hc, hbal, -⟩ := run_replayed render h0 h hlt
  refine ⟨ledger, hl, hbal, fun hd => ?_⟩
  have hzero : ledger.balance = 0 := hbal.trans (hdead hd)
  exact ⟨_, settleDestroyed_empty hc hzero, hzero⟩

theorem fundings_take_le (env : Env) (l₁ l₂ : History) (r : TransactionSystem.Record Deal Tx) :
    fundings env (l₁ ++ [r]) ≤ fundings env (l₁ ++ r :: l₂) := by
  simp only [fundings, List.flatMap_append, List.flatMap_cons, List.flatMap_nil, inflow_append,
    List.append_nil]
  omega

theorem Replays.fits (h : Replays env render l s) : fundings env l < u128 := by
  obtain ⟨ledger, hl, -, -⟩ := h
  obtain ⟨hfits, hsum⟩ := replayFrom_fundedIn (by decide) hl
  have hzero : ({} : DealLedger).fundedIn = 0 := rfl
  rw [inflow_flows, hzero] at hsum
  omega

theorem fundings_sample (l : History) :
    fundings sampleEnv l = inflow ((l.map (·.act)).flatMap fun tx =>
      fundingOf sampleEnv tx.msg sampleDeal tx.call) := by
  unfold fundings
  rw [List.flatMap_map]
  rfl

end TokenContractConservation
