import Dexdo.TokenContractCharges

/-! # What the closing paths of a TokenContract pay

Every way out of a deal is a chain of credits and write-offs that ends in `_die`. -/
namespace TokenContractPayouts

open TokenContractState TokenContractCalls TokenContractCharges

variable {E : Env} {s t u : Deal}

attribute [grind =] creditOf writeOffOf withdrawalOf

@[simp] theorem ite_eq_zero_self (a : ℕ) : (if a = 0 then 0 else a) = a := by
  split <;> omega

/-- From `s` to `t` these figures were credited and written off, and nothing threw. -/
structure Moved (s t : Deal) (buyer seller residual burn : ℕ) : Prop where
  fault : t.fault = s.fault
  buyer : t.credited .buyer = s.credited .buyer + buyer
  seller : t.credited .seller = s.credited .seller + seller
  residual : t.credited .residual = s.credited .residual + residual
  burned : t.burned = s.burned + burn
  withdrawn : t.withdrawn = s.withdrawn

theorem Moved.trans {a b c d a' b' c' d' : ℕ} (h : Moved s t a b c d)
    (h' : Moved t u a' b' c' d') : Moved s u (a + a') (b + b') (c + c') (d + d') := by
  constructor
  · rw [h'.fault, h.fault]
  · rw [h'.buyer, h.buyer, Nat.add_assoc]
  · rw [h'.seller, h.seller, Nat.add_assoc]
  · rw [h'.residual, h.residual, Nat.add_assoc]
  · rw [h'.burned, h.burned, Nat.add_assoc]
  · rw [h'.withdrawn, h.withdrawn]

theorem Moved.of_eq {a b c d a' b' c' d' : ℕ} (h : Moved s t a b c d) (ha : a = a')
    (hb : b = b') (hc : c = c') (hd : d = d') : Moved s t a' b' c' d' := by
  subst ha hb hc hd
  exact h

theorem Moved.regroup (hf : t.fault = s.fault) (ho : t.out = s.out) : Moved s t 0 0 0 0 := by
  constructor <;> simp [hf, ho, Deal.credited, Deal.burned, Deal.withdrawn]

/-! ## Single messages -/

theorem burnShell_moved {a : ℕ} (h : a ≤ s.balance) : Moved s (burnShell a s) 0 0 0 a := by
  have hlow : ¬ s.balance < a := by omega
  constructor <;> simp [burnShell, Deal.sendIf, Deal.credited, Deal.burned, Deal.withdrawn,
    creditOf, writeOffOf, withdrawalOf, hlow]

theorem burnShell_zero : burnShell 0 s = s := by
  simp [burnShell, Deal.sendIf, sentIf]

theorem payBuyer_moved {a : ℕ} (h : a ≤ s.balance) (dest : Address) :
    Moved s (payShell .buyer dest a s) a 0 0 0 := by
  have hlow : ¬ s.balance < a := by omega
  constructor <;> simp [payShell, Deal.sendIf, Deal.credited, Deal.burned, Deal.withdrawn,
    creditOf, writeOffOf, withdrawalOf, hlow]

theorem paySeller_moved {a : ℕ} (h : a ≤ s.balance) (dest : Address) :
    Moved s (payShell .seller dest a s) 0 a 0 0 := by
  have hlow : ¬ s.balance < a := by omega
  constructor <;> simp [payShell, Deal.sendIf, Deal.credited, Deal.burned, Deal.withdrawn,
    creditOf, writeOffOf, withdrawalOf, hlow]

theorem streamStopped_moved (b : Address) (x y : ℕ) :
    Moved s (s.send (.streamStopped b x y)) 0 0 0 0 := by
  constructor <;> simp [Deal.send, Deal.credited, Deal.burned, Deal.withdrawn,
    creditOf, writeOffOf, withdrawalOf]

theorem probeBurned_moved (b : Address) (x y z : ℕ) :
    Moved s (s.send (.probeBurned b x y z)) 0 0 0 0 := by
  constructor <;> simp [Deal.send, Deal.credited, Deal.burned, Deal.withdrawn,
    creditOf, writeOffOf, withdrawalOf]

theorem disputeResolved_moved (x y : ℕ) (r : Bool) :
    Moved s (s.send (.disputeResolved x y r)) 0 0 0 0 := by
  constructor <;> simp [Deal.send, Deal.credited, Deal.burned, Deal.withdrawn,
    creditOf, writeOffOf, withdrawalOf]

/-! ## The end -/

@[simp] theorem sweepAndDie_destroyed : (sweepAndDie s).destroyed = true := rfl

@[simp] theorem payOwedAndDie_destroyed : (payOwedAndDie s).destroyed = true := rfl

theorem sweepAndDie_moved : Moved s (sweepAndDie s) 0 0 s.balance 0 := by
  constructor <;> simp [sweepAndDie, die, announceClosed, payShell, Deal.send, Deal.sendIf,
    Deal.credited, Deal.burned, Deal.withdrawn, creditOf, writeOffOf, withdrawalOf]

theorem payOwedAndDie_moved (h : s.finalizedOwed ≤ s.balance) :
    Moved s (payOwedAndDie s) 0 s.finalizedOwed (s.balance - s.finalizedOwed) 0 := by
  have hclear : Moved s { s with finalizedOwed := 0 } 0 0 0 0 := .regroup rfl rfl
  have hpay := paySeller_moved (s := { s with finalizedOwed := 0 }) h s.sellerNote
  exact ((hclear.trans hpay).trans sweepAndDie_moved).of_eq rfl (by simp)
    (by simp [payShell, Deal.sendIf]) rfl

/-! ## Fees and rebate -/

theorem rebateDue_le (clean : Bool) (s : Deal) : rebateDue clean s ≤ s.feeAccrued := by
  unfold rebateDue
  split
  · exact min_le_right _ _
  · exact Nat.zero_le _

theorem rebateDue_unclean (s : Deal) : rebateDue false s = 0 := by
  simp [rebateDue]

theorem settleFees_moved {clean : Bool} (hb : Backed s)
    (hr : clean = true → rebate s.pricePerTick s.ticksFinalized < u128) :
    Moved s (settleFees E clean s) 0 0 0 (s.feeAccrued - rebateDue clean s) := by
  have hcov := hb.covered
  have hlt := hb.balance_lt
  have hdue := rebateDue_le clean s
  unfold Deal.earmarks at hcov
  have hrebate : (clean && !s.everDisputed) = true →
      rebate s.pricePerTick s.ticksFinalized < u128 := by
    intro h
    simp only [Bool.and_eq_true] at h
    exact hr h.1
  have howed : s.finalizedOwed + rebateDue clean s < u128 := by omega
  have hburn : s.feeAccrued - rebateDue clean s ≤ s.balance := by omega
  have hpass : Moved s { s with finalizedOwed := s.finalizedOwed + rebateDue clean s } 0 0 0 0 :=
    .regroup rfl rfl
  have hreport : ∀ u : Deal, Moved u (reportFinalized E { u with feeAccrued := 0 }) 0 0 0 0 := by
    intro u
    constructor <;> simp [reportFinalized, Deal.sendIf, Deal.credited, Deal.burned,
      Deal.withdrawn, creditOf, writeOffOf, withdrawalOf]
  have hmove := (hpass.trans (burnShell_moved hburn)).trans (hreport _)
  unfold settleFees
  simp only [Deal.check_pass hrebate, Deal.check_pass howed]
  exact hmove.of_eq rfl rfl rfl (by simp)

theorem settleFees_balance {clean : Bool} :
    (settleFees E clean s).balance = s.balance - (s.feeAccrued - rebateDue clean s) := rfl

theorem settleFees_finalizedOwed {clean : Bool} :
    (settleFees E clean s).finalizedOwed = s.finalizedOwed + rebateDue clean s := rfl

/-! ## Clean close -/

theorem releaseProbe_eq (hp : s.probeAccepted = true → s.probeTick = 0)
    (h : s.deposit + s.probeTick < u128) :
    releaseProbe s = { s with deposit := s.deposit + s.probeTick, probeTick := 0 } := by
  unfold releaseProbe
  by_cases hz : s.probeTick = 0
  · simp only [hz, beq_self_eq_true, Bool.or_true, if_true, Nat.add_zero]
    rw [← hz]
  · have ha : s.probeAccepted = false := by
      by_contra hne
      exact hz (hp (by simpa using hne))
    simp [ha, hz, Deal.check_pass h]

theorem releaseBuyerBond_eq (h : s.deposit + s.buyerBond < u128) :
    releaseBuyerBond s = { s with deposit := s.deposit + s.buyerBond, buyerBond := 0 } := by
  unfold releaseBuyerBond
  rw [Deal.check_pass h]

theorem creditSellerBond_eq (h : s.finalizedOwed + s.sellerBond < u128) :
    creditSellerBond s =
      { s with finalizedOwed := s.finalizedOwed + s.sellerBond, sellerBond := 0 } := by
  unfold creditSellerBond
  rw [Deal.check_pass h]

def cleanRebate (s : Deal) : ℕ := rebateDue true (recordDelivered s)

structure Closable (s : Deal) : Prop extends Backed s where
  probe : s.probeAccepted = true → s.probeTick = 0
  rebate : rebate s.pricePerTick (recordDelivered s).ticksFinalized < u128

def folded (s : Deal) : Deal :=
  { recordDelivered s with
    deposit := 0, probeTick := 0, buyerBond := 0, sellerBond := 0
    finalizedOwed := s.finalizedOwed + s.sellerBond, opened := false }

@[simp] theorem closeClean_destroyed : (closeClean E s).destroyed = true := rfl

theorem closeClean_eq (h : Closable s) :
    closeClean E s =
      let refund := s.deposit + s.probeTick + s.buyerBond
      let paid := payShell .buyer s.buyer refund (settleFees E true (folded s))
      payOwedAndDie (paid.send (.streamStopped s.buyer paid.finalizedOwed refund)) := by
  have hcov := h.covered
  have hlt := h.balance_lt
  unfold Deal.earmarks at hcov
  have hprobe := releaseProbe_eq h.probe (by omega)
  have hbond := releaseBuyerBond_eq
    (s := { s with deposit := s.deposit + s.probeTick, probeTick := 0 }) (by dsimp only; omega)
  have hseller := creditSellerBond_eq
    (s := { recordDelivered s with deposit := 0, probeTick := 0, buyerBond := 0 })
    (by dsimp only [recordDelivered]; omega)
  unfold closeClean
  simp only [hprobe, hbond]
  simp only [recordDelivered] at hseller ⊢
  simp only [hseller]
  rfl

theorem folded_backed (h : Closable s) : Backed (folded s) := by
  have hcov := h.covered
  refine ⟨?_, h.balance_lt⟩
  unfold Deal.earmarks at hcov ⊢
  dsimp only [folded, recordDelivered]
  omega

theorem closeClean_moved (h : Closable s) :
    Moved s (closeClean E s) (s.deposit + s.probeTick + s.buyerBond)
      (s.finalizedOwed + s.sellerBond + cleanRebate s) (s.balance - s.earmarks)
      (s.feeAccrued - cleanRebate s) := by
  have hcov := h.covered
  have hdue : cleanRebate s ≤ s.feeAccrued := rebateDue_le _ _
  have hbal : (settleFees E true (folded s)).balance =
      s.balance - (s.feeAccrued - cleanRebate s) := rfl
  have howe : (settleFees E true (folded s)).finalizedOwed =
      s.finalizedOwed + s.sellerBond + cleanRebate s := rfl
  have hfold : Moved s (folded s) 0 0 0 0 := .regroup rfl rfl
  have hfees : Moved (folded s) (settleFees E true (folded s)) 0 0 0
      (s.feeAccrued - cleanRebate s) := settleFees_moved (folded_backed h) (fun _ => h.rebate)
  unfold Deal.earmarks at hcov ⊢
  have hrefund := payBuyer_moved (s := settleFees E true (folded s))
    (a := s.deposit + s.probeTick + s.buyerBond) (by omega) s.buyer
  rw [closeClean_eq h]
  refine ((((hfold.trans hfees).trans hrefund).trans (streamStopped_moved _ _ _)).trans
    (payOwedAndDie_moved ?_)).of_eq (by omega) ?_ ?_ (by omega)
  all_goals
    simp only [payShell, Deal.send, Deal.sendIf, hbal, howe]
    omega

/-! ## The exit during the trial -/

def probeForfeit (s : Deal) : ℕ := if s.probeTick ≤ s.sellerBond then s.probeTick else s.sellerBond

@[simp] theorem stopOnProbe_destroyed : (stopOnProbe s).destroyed = true := rfl

theorem stopOnProbe_moved (hb : Backed s) :
    Moved s (stopOnProbe s) (s.deposit + s.buyerBond)
      (s.finalizedOwed + (s.sellerBond - probeForfeit s)) (s.balance - s.earmarks + s.feeAccrued)
      (s.probeTick + probeForfeit s) := by
  have hcov := hb.covered
  have hlt := hb.balance_lt
  have hle : probeForfeit s ≤ s.sellerBond := by
    unfold probeForfeit
    split <;> omega
  unfold Deal.earmarks at hcov ⊢
  have hburned : s.probeTick + probeForfeit s < u128 := by omega
  have hbond := releaseBuyerBond_eq (s := s) (by omega)
  have hseller := creditSellerBond_eq (s := { s with
    deposit := s.deposit + s.buyerBond, buyerBond := 0
    sellerBond := s.sellerBond - probeForfeit s }) (by dsimp only; omega)
  -- the record the three payments start from
  let v : Deal := { s with
    deposit := 0, probeTick := 0, buyerBond := 0, sellerBond := 0
    finalizedOwed := s.finalizedOwed + (s.sellerBond - probeForfeit s), opened := false }
  have hv : Moved s v 0 0 0 0 := .regroup rfl rfl
  have hburn : Moved v (burnShell (s.probeTick + probeForfeit s) v) 0 0 0
      (s.probeTick + probeForfeit s) := burnShell_moved (by dsimp only [v]; omega)
  have hpay := payBuyer_moved (s := burnShell (s.probeTick + probeForfeit s) v)
    (a := s.deposit + s.buyerBond)
    (by dsimp only [burnShell, Deal.sendIf, v]; omega) s.buyer
  have heq : stopOnProbe s = payOwedAndDie ((payShell .buyer s.buyer (s.deposit + s.buyerBond)
      (burnShell (s.probeTick + probeForfeit s) v)).send
      (.probeBurned s.buyer s.pricePerTick (probeForfeit s) (s.deposit + s.buyerBond))) := by
    unfold stopOnProbe
    rw [show (if s.probeTick ≤ s.sellerBond then s.probeTick else s.sellerBond) =
      probeForfeit s from rfl]
    simp only [Deal.check_pass hburned, hbond, hseller]
    rfl
  rw [heq]
  refine ((((hv.trans hburn).trans hpay).trans (probeBurned_moved _ _ _ _)).trans
    (payOwedAndDie_moved ?_)).of_eq (by omega) ?_ ?_ (by omega)
  all_goals
    simp only [payShell, burnShell, Deal.send, Deal.sendIf, v]
    omega

/-! ## Payout of the trusted tokens, then a clean close -/

/-- The record after `n` tokens were paid and the paid mark moved to `m`. -/
def paidUp (n m : ℕ) (s : Deal) : Deal :=
  { s with
    deposit := s.deposit - taken n s
    finalizedOwed := s.finalizedOwed + sellerPart n s
    feeAccrued := s.feeAccrued + feePart n s
    tokensPaid := m
    clamped := s.clamped || decide (chargeOf s.pricePerTick n > s.deposit) }

theorem paidUp_earmarks (n m : ℕ) (s : Deal) : (paidUp n m s).earmarks = s.earmarks := by
  have hsum := parts_sum n s
  have hle := taken_le n s
  simp only [Deal.earmarks, paidUp]
  omega

theorem paidUp_backed {n m : ℕ} (hb : Backed s) : Backed (paidUp n m s) :=
  ⟨(paidUp_earmarks n m s).trans_le hb.covered, hb.balance_lt⟩

@[simp] theorem payFinalAndClose_destroyed : (payFinalAndClose E s).destroyed = true := rfl

def payFinal (s : Deal) : Deal :=
  let owed := finalOwed s
  let s := payTokens owed s
  if owed > 0 ∧ s.tokensFinal > s.tokensPaid then { s with tokensPaid := s.tokensFinal } else s

theorem payFinalAndClose_payFinal (E : Env) (s : Deal) :
    payFinalAndClose E s = closeClean E (payFinal s) := rfl

theorem payFinal_eq (hb : Backed s) (hn : chargeOf s.pricePerTick (finalOwed s) < u128) :
    payFinal s = paidUp (finalOwed s) (s.tokensPaid + finalOwed s) s := by
  unfold payFinal
  simp only [payTokens_eq hb hn]
  by_cases hz : finalOwed s = 0
  · rw [if_neg (by omega)]
    simp [paidUp, hz]
  · have hgt : s.tokensFinal > s.tokensPaid := by
      by_contra hle
      exact hz (by simp [finalOwed, show ¬ s.tokensPaid < s.tokensFinal by omega])
    have howed : finalOwed s = s.tokensFinal - s.tokensPaid := by
      unfold finalOwed at hz ⊢
      split at hz
      · rename_i hc
        rw [if_pos hc]
      · exact absurd rfl hz
    have hsum : s.tokensPaid + (s.tokensFinal - s.tokensPaid) = s.tokensFinal := by omega
    rw [if_pos ⟨by omega, hgt⟩]
    simp only [paidUp, howed, hsum]

theorem payFinalAndClose_eq (hb : Backed s)
    (hn : chargeOf s.pricePerTick (finalOwed s) < u128) :
    payFinalAndClose E s =
      closeClean E (paidUp (finalOwed s) (s.tokensPaid + finalOwed s) s) := by
  rw [payFinalAndClose_payFinal, payFinal_eq hb hn]

theorem taken_zero (s : Deal) : taken 0 s = 0 := by
  simp [taken, chargeOf, valueOf, fee]

theorem sellerPart_zero (s : Deal) : sellerPart 0 s = 0 := by
  have hsum := parts_sum 0 s
  rw [taken_zero] at hsum
  omega

theorem feePart_zero (s : Deal) : feePart 0 s = 0 := by
  have hsum := parts_sum 0 s
  rw [taken_zero] at hsum
  omega

theorem payFinalAndClose_moved (h : Closable s)
    (hn : chargeOf s.pricePerTick (finalOwed s) < u128) :
    let v := paidUp (finalOwed s) (s.tokensPaid + finalOwed s) s
    Moved s (payFinalAndClose E s) (v.deposit + s.probeTick + s.buyerBond)
      (v.finalizedOwed + s.sellerBond + cleanRebate v) (s.balance - s.earmarks)
      (v.feeAccrued - cleanRebate v) := by
  intro v
  have hv : Closable v :=
    { paidUp_backed h.toBacked with
      probe := h.probe
      rebate := h.rebate }
  have hmark : Moved s v 0 0 0 0 := .regroup rfl rfl
  have hear : v.earmarks = s.earmarks := paidUp_earmarks _ _ _
  rw [payFinalAndClose_eq h.toBacked hn]
  refine (hmark.trans (closeClean_moved hv)).of_eq ?_ ?_ ?_ ?_
  · simp only [v, paidUp]
    omega
  · simp only [v, paidUp]
    omega
  · rw [hear]
    simp only [v, paidUp]
    omega
  · omega

/-! ## Dispute resolution -/

def cut (stake bond : ℕ) : ℕ := if stake > bond then bond else stake

theorem cut_le (stake bond : ℕ) : cut stake bond ≤ bond := by
  unfold cut
  split <;> omega

theorem burnStakes_eq {B S : ℕ} (hb : Backed s) :
    burnStakes B S s = burnShell (cut B s.buyerBond + cut S s.sellerBond)
      { s with buyerBond := s.buyerBond - cut B s.buyerBond
               sellerBond := s.sellerBond - cut S s.sellerBond } := by
  have hcov := hb.covered
  have hlt := hb.balance_lt
  have hdb := cut_le B s.buyerBond
  have hds := cut_le S s.sellerBond
  unfold Deal.earmarks at hcov
  have hsum : cut B s.buyerBond + cut S s.sellerBond < u128 := by omega
  unfold burnStakes
  rw [show (if B > s.buyerBond then s.buyerBond else B) = cut B s.buyerBond from rfl,
    show (if S > s.sellerBond then s.sellerBond else S) = cut S s.sellerBond from rfl]
  simp only [Deal.check_pass hsum]

theorem burnStakes_moved {B S : ℕ} (hb : Backed s) :
    Moved s (burnStakes B S s) 0 0 0 (cut B s.buyerBond + cut S s.sellerBond) := by
  have hcov := hb.covered
  have hdb := cut_le B s.buyerBond
  have hds := cut_le S s.sellerBond
  unfold Deal.earmarks at hcov
  rw [burnStakes_eq hb]
  have hcutoff : Moved s { s with
      buyerBond := s.buyerBond - cut B s.buyerBond
      sellerBond := s.sellerBond - cut S s.sellerBond } 0 0 0 0 := .regroup rfl rfl
  exact (hcutoff.trans (burnShell_moved (by dsimp only; omega))).of_eq rfl rfl rfl (by omega)

theorem forfeitBonds_eq (fromBuyer fromSeller : ℕ) (s : Deal) :
    forfeitBonds fromBuyer fromSeller s = burnStakes fromBuyer fromSeller s := by
  have hcut : ∀ a b : ℕ, (if a ≤ b then a else b) = if a > b then b else a := by
    intro a b
    split <;> split <;> omega
  unfold forfeitBonds burnStakes
  simp only [hcut]

def disputeRefund (s : Deal) : ℕ :=
  if isSubscription s && s.probeAccepted then min (unstartedCharge s) s.deposit else s.deposit

theorem disputeRefund_le (s : Deal) : disputeRefund s ≤ s.deposit := by
  unfold disputeRefund
  split
  · exact min_le_right _ _
  · exact le_rfl

def WeekFits (s : Deal) : Prop :=
  (isSubscription s && s.probeAccepted) = true →
    s.periodStart ≤ s.disputeTime ∧ unstartedTokens s < u128 ∧ unstartedCharge s < u128

theorem burnUnearned_spec (hb : Backed s) (hw : WeekFits s) :
    ∃ v, burnUnearned s = (v, disputeRefund s) ∧
      v = { s with balance := s.balance - (s.deposit - disputeRefund s), out := v.out } ∧
      Moved s v 0 0 0 (s.deposit - disputeRefund s) := by
  have hcov := hb.covered
  unfold Deal.earmarks at hcov
  unfold burnUnearned disputeRefund
  by_cases hsub : (isSubscription s && s.probeAccepted) = true
  · rw [if_pos hsub, if_pos hsub]
    simp only [Deal.check_pass (hw hsub)]
    by_cases hlt : unstartedCharge s < s.deposit
    · rw [if_pos hlt, min_eq_left hlt.le]
      refine ⟨_, rfl, ?_, burnShell_moved (by omega)⟩
      have hlow : ¬ s.balance < s.deposit - unstartedCharge s := by omega
      simp [burnShell, Deal.sendIf, hlow]
    · rw [if_neg hlt, min_eq_right (by omega)]
      refine ⟨s, rfl, by simp, ?_⟩
      rw [Nat.sub_self]
      exact .regroup rfl rfl
  · rw [if_neg hsub, if_neg hsub]
    refine ⟨s, rfl, by simp, ?_⟩
    rw [Nat.sub_self]
    exact .regroup rfl rfl

@[simp] theorem closeDisputed_destroyed {released : Bool} :
    (closeDisputed E released s).destroyed = true := rfl

theorem closeDisputed_moved (released : Bool) (hb : Backed s) (hw : WeekFits s)
    (hp : s.probeTick = 0) :
    Moved s (closeDisputed E released s) (disputeRefund s + s.buyerBond)
      (s.finalizedOwed + s.sellerBond) (s.balance - s.earmarks)
      (s.deposit - disputeRefund s + s.feeAccrued) := by
  have hcov := hb.covered
  have hlt := hb.balance_lt
  have hle := disputeRefund_le s
  unfold Deal.earmarks at hcov ⊢
  obtain ⟨v, hv, hveq, hmove⟩ := burnUnearned_spec hb hw
  have hrefund : disputeRefund s + v.buyerBond < u128 := by rw [hveq]; dsimp only; omega
  have hseller := creditSellerBond_eq (s := { v with buyerBond := 0, deposit := 0 })
    (by rw [hveq]; dsimp only; omega)
  -- the record the fees are settled on
  let w : Deal := { v with
    buyerBond := 0, deposit := 0, sellerBond := 0
    finalizedOwed := v.finalizedOwed + v.sellerBond, opened := false }
  have hw0 : Moved v w 0 0 0 0 := .regroup rfl rfl
  have hback : Backed w := by
    refine ⟨?_, ?_⟩
    · unfold Deal.earmarks
      dsimp only [w]
      rw [hveq]
      dsimp only
      omega
    · dsimp only [w]
      rw [hveq]
      dsimp only
      omega
  have hfees : Moved w (settleFees E false w) 0 0 0 s.feeAccrued :=
    (settleFees_moved hback (by simp)).of_eq rfl rfl rfl (by
      rw [rebateDue_unclean]
      dsimp only [w]
      rw [hveq]
      rfl)
  have hbal : (settleFees E false w).balance =
      s.balance - (s.deposit - disputeRefund s) - s.feeAccrued := by
    rw [settleFees_balance, rebateDue_unclean]
    dsimp only [w]
    rw [hveq]
    rfl
  have howe : (settleFees E false w).finalizedOwed = s.finalizedOwed + s.sellerBond := by
    rw [settleFees_finalizedOwed, rebateDue_unclean]
    dsimp only [w]
    rw [hveq]
    rfl
  have hvb : v.buyerBond = s.buyerBond := by rw [hveq]
  have hpay := payBuyer_moved (s := settleFees E false w) (a := disputeRefund s + v.buyerBond)
    (by rw [hbal, hvb]; omega) w.buyer
  have heq : closeDisputed E released s = payOwedAndDie
      ((payShell .buyer w.buyer (disputeRefund s + v.buyerBond) (settleFees E false w)).send
        (.disputeResolved (settleFees E false w).finalizedOwed
          (disputeRefund s + v.buyerBond) released)) := by
    unfold closeDisputed
    simp only [hv, Deal.check_pass hrefund, hseller]
    rfl
  rw [heq]
  refine (((((hmove.trans hw0).trans hfees).trans hpay).trans
    (disputeResolved_moved _ _ _)).trans (payOwedAndDie_moved ?_)).of_eq ?_ ?_ ?_ (by omega)
  all_goals
    simp only [payShell, Deal.send, Deal.sendIf, hbal, howe, hvb]
    omega

def trustedOwed (s : Deal) : ℕ :=
  if s.tokensFinal > claimBase s then s.tokensFinal - claimBase s else 0

def unfrozen (s : Deal) : Deal := { s with deposit := s.deposit + s.probeTick, probeTick := 0 }

theorem unfrozen_backed (hb : Backed s) : Backed (unfrozen s) := by
  have hcov := hb.covered
  refine ⟨?_, hb.balance_lt⟩
  unfold Deal.earmarks at hcov ⊢
  dsimp only [unfrozen]
  omega

/-- What `payTrusted` relies on: the completed weeks are booked already and the trusted rest has
a charge that fits. -/
structure Payable (s : Deal) : Prop extends Backed s where
  probe : s.probeAccepted = true → s.probeTick = 0
  clock : s.periodStart ≤ s.disputeTime
  booked : chargeWeeksThrough (weeksElapsedAt s.disputeTime s) (unfrozen s) = unfrozen s
  charge : chargeOf s.pricePerTick (trustedOwed s) < u128

theorem payTrusted_eq (h : Payable s) :
    payTrusted s = recordDelivered
      (paidUp (trustedOwed s) (max s.tokensFinal s.tokensPaid) (unfrozen s)) := by
  have hcov := h.covered
  have hlt := h.balance_lt
  unfold Deal.earmarks at hcov
  have hprobe : releaseProbe s = unfrozen s := releaseProbe_eq h.probe (by omega)
  have hclock : (unfrozen s).periodStart ≤ (unfrozen s).disputeTime := h.clock
  have hbooked : chargeWeeksThrough (weeksElapsedAt (unfrozen s).disputeTime (unfrozen s))
      (unfrozen s) = unfrozen s := h.booked
  have howed : (if (unfrozen s).tokensFinal > claimBase (unfrozen s) then
      (unfrozen s).tokensFinal - claimBase (unfrozen s) else 0) = trustedOwed s := rfl
  have hpay := payTokens_eq (n := trustedOwed s) (unfrozen_backed h.toBacked) h.charge
  have hmax : (if s.tokensFinal > s.tokensPaid then s.tokensFinal else s.tokensPaid) =
      max s.tokensFinal s.tokensPaid := by
    split <;> omega
  rw [← hmax]
  unfold payTrusted
  simp only [hprobe, Deal.check_pass hclock, hbooked, howed, hpay]
  rfl

@[simp] theorem settleTrustedAndClose_destroyed {B S : ℕ} :
    (settleTrustedAndClose E B S s).destroyed = true := rfl

theorem settleTrustedAndClose_moved {B S : ℕ} (h : Payable s) (hw : WeekFits s) :
    let w := paidUp (trustedOwed s) (max s.tokensFinal s.tokensPaid) (unfrozen s)
    Moved s (settleTrustedAndClose E B S s)
      (disputeRefund w + (s.buyerBond - cut B s.buyerBond))
      (w.finalizedOwed + (s.sellerBond - cut S s.sellerBond)) (s.balance - s.earmarks)
      (cut B s.buyerBond + cut S s.sellerBond + (w.deposit - disputeRefund w) +
        w.feeAccrued) := by
  intro w
  have hdb := cut_le B s.buyerBond
  have hds := cut_le S s.sellerBond
  have hcov := h.covered
  -- the record with the trusted tokens paid
  have hwb : Backed w := paidUp_backed (unfrozen_backed h.toBacked)
  have hpaid : Backed (recordDelivered w) := { hwb with }
  have hstart : Moved s (recordDelivered w) 0 0 0 0 := .regroup rfl rfl
  have hburn := burnStakes_moved (B := B) (S := S) hpaid
  have hstakes := burnStakes_eq (B := B) (S := S) hpaid
  have hear : w.earmarks = s.earmarks := by
    rw [paidUp_earmarks]
    simp only [Deal.earmarks, unfrozen]
    omega
  have hsum : w.deposit + w.finalizedOwed + w.feeAccrued + s.buyerBond + s.sellerBond =
      s.earmarks := by
    rw [← hear]
    simp only [Deal.earmarks, w, paidUp, unfrozen]
    omega
  set v := burnStakes B S (recordDelivered w)
  have hbal : v.balance = s.balance - (cut B s.buyerBond + cut S s.sellerBond) := by
    rw [hstakes]
    rfl
  have hfields : v.deposit = w.deposit ∧ v.finalizedOwed = w.finalizedOwed ∧
      v.feeAccrued = w.feeAccrued ∧ v.probeTick = 0 ∧
      v.buyerBond = s.buyerBond - cut B s.buyerBond ∧
      v.sellerBond = s.sellerBond - cut S s.sellerBond ∧ disputeRefund v = disputeRefund w := by
    rw [hstakes]
    exact ⟨rfl, rfl, rfl, rfl, rfl, rfl, rfl⟩
  obtain ⟨hd, ho, hf, hp, hbb, hsb, href⟩ := hfields
  have hvear : v.earmarks = w.deposit + w.finalizedOwed + w.feeAccrued +
      (s.buyerBond - cut B s.buyerBond) + (s.sellerBond - cut S s.sellerBond) := by
    unfold Deal.earmarks
    omega
  have hback : Backed v := by
    refine ⟨?_, ?_⟩
    · omega
    · have hlt := h.balance_lt
      omega
  have hweek : WeekFits v := by
    rw [hstakes]
    exact hw
  have hclose := closeDisputed_moved (E := E) (S == 0) hback hweek hp
  unfold settleTrustedAndClose
  rw [payTrusted_eq h]
  refine ((hstart.trans hburn).trans hclose).of_eq ?_ ?_ ?_ ?_
  · omega
  · omega
  · omega
  · rw [show (recordDelivered w).buyerBond = s.buyerBond from rfl,
      show (recordDelivered w).sellerBond = s.sellerBond from rfl]
    omega

end TokenContractPayouts
