import Dexdo.TokenContractEarmarks
import Dexdo.TokenContractStreaming

/-! # The ledger of a deal funded by the book

The book only lists prices of whole steps, fills whole ticks, and fills a subscription in multiples
of its weeks. -/
namespace TokenContractLedger

open TokenContractState TokenContractCalls TokenContractCharges TokenContractPayouts
open TokenContractSteps TokenContractInvariant TokenContractExits TokenContractEarmarks
open TokenContractStreaming

def priceStep : ℕ := 10 ^ 9

/-- The figure of a fill as `_settleFill` computes it: whole ticks with their fee at a price of
whole steps, the bond of a subscription on top, and a volume its weeks divide evenly. -/
structure WholeFill (paid dealFlags p : ℕ) : Prop where
  step : priceStep ∣ p
  bond : fillBond dealFlags p ≤ paid
  whole : unit p ∣ paid - fillBond dealFlags p
  weeks : dealFlags &&& flagSubscription ≠ 0 →
    subWeeksConst ∣ (paid - fillBond dealFlags p) / unit p

instance (paid dealFlags p : ℕ) : Decidable (WholeFill paid dealFlags p) :=
  decidable_of_iff (priceStep ∣ p ∧ fillBond dealFlags p ≤ paid ∧
      unit p ∣ paid - fillBond dealFlags p ∧
      (dealFlags &&& flagSubscription ≠ 0 →
        subWeeksConst ∣ (paid - fillBond dealFlags p) / unit p))
    ⟨fun h => ⟨h.1, h.2.1, h.2.2.1, h.2.2.2⟩, fun h => ⟨h.step, h.bond, h.whole, h.weeks⟩⟩

def fillOf : Call → Option (ℕ × ℕ)
  | .fundFromOrderBook paid _ _ dealFlags => some (paid, dealFlags)
  | _ => none

def BookFill (env : Env) (s : Deal) (tx : Tx) : Prop :=
  ∀ f ∈ fillOf tx.call, tx.msg.sender = orderBook env s → WholeFill f.1 f.2 s.pricePerTick

instance (env : Env) (s : Deal) (tx : Tx) : Decidable (BookFill env s tx) :=
  inferInstanceAs (Decidable (∀ f ∈ fillOf tx.call, tx.msg.sender = orderBook env s →
    WholeFill f.1 f.2 s.pricePerTick))

variable {env : Env} {m : Msg} {s t u : Deal} {c : Call}

/-! ## Prices of whole steps do not round -/

section Steps

variable (q n k : ℕ)

theorem valueOf_step : valueOf (priceStep * q) n = 1000 * q * n := by
  have hmul : n * (priceStep * q) = 1000 * q * n * tickSize := by
    unfold priceStep tickSize
    ring
  unfold valueOf
  rw [hmul, Nat.mul_div_cancel _ (by decide)]

theorem fee_step : fee (valueOf (priceStep * q) n) = 25 * q * n := by
  have hmul : 1000 * q * n * platformFeeBps = 25 * q * n * bpsDenominator := by
    unfold platformFeeBps bpsDenominator
    ring
  unfold fee
  rw [valueOf_step, hmul, Nat.mul_div_cancel _ (by decide)]

theorem chargeOf_step : chargeOf (priceStep * q) n = 1025 * q * n := by
  unfold chargeOf
  rw [fee_step, valueOf_step]
  ring

theorem unit_step : unit (priceStep * q) = chargeOf (priceStep * q) tickSize := by
  have hprice : valueOf (priceStep * q) tickSize = priceStep * q := by
    rw [valueOf_step]
    unfold priceStep tickSize
    ring
  unfold unit chargeOf
  rw [hprice]

end Steps

theorem valueOf_one_tick (p : ℕ) : valueOf p tickSize = p := by
  simpa using valueOf_tick p 1

section Exact

variable {p : ℕ} (hp : priceStep ∣ p) (a b : ℕ)

include hp

theorem valueOf_add : valueOf p (a + b) = valueOf p a + valueOf p b := by
  obtain ⟨q, rfl⟩ := hp
  simp only [valueOf_step]
  ring

theorem fee_valueOf_add : fee (valueOf p (a + b)) = fee (valueOf p a) + fee (valueOf p b) := by
  obtain ⟨q, rfl⟩ := hp
  simp only [fee_step]
  ring

theorem chargeOf_add : chargeOf p (a + b) = chargeOf p a + chargeOf p b := by
  obtain ⟨q, rfl⟩ := hp
  simp only [chargeOf_step]
  ring

theorem chargeOf_one_tick : chargeOf p tickSize = unit p := by
  obtain ⟨q, rfl⟩ := hp
  exact (unit_step q).symm

theorem chargeOf_ticks : chargeOf p (a * tickSize) = a * unit p := by
  obtain ⟨q, rfl⟩ := hp
  rw [unit_step, chargeOf_step, chargeOf_step]
  ring

end Exact

/-! ## What a fill promises and what the ledger keeps -/

/-- The shape of a whole fill. -/
structure Whole (s : Deal) : Prop where
  step : priceStep ∣ s.pricePerTick
  term : s.subWeeks ≠ 0 → s.subWeeks * s.tokensPerWeek = s.fundedTokens
  quota : s.subWeeks ≠ 0 → tickSize ≤ s.tokensPerWeek
  bond : s.subWeeks ≠ 0 →
    s.buyerBond = bondAmount s.pricePerTick ∧ s.buyerBondFunded = true

/-- Escrow, debt and fee as functions of the tokens paid for. -/
structure Paying (s : Deal) : Prop where
  escrow : s.deposit + chargeOf s.pricePerTick s.tokensPaid =
    chargeOf s.pricePerTick s.fundedTokens
  owed : s.finalizedOwed + s.withdrawn = valueOf s.pricePerTick s.tokensPaid
  fees : s.feeAccrued = fee (valueOf s.pricePerTick s.tokensPaid)

structure Ledger (s : Deal) : Prop where
  unclamped : s.clamped = false
  whole : s.funded = true → Whole s
  escrowed : s.funded = true → s.probeAccepted = false →
    s.deposit + s.probeTick = chargeOf s.pricePerTick s.fundedTokens
  undrawn : s.probeAccepted = false → s.withdrawn = 0
  paying : s.probeAccepted = true → Paying s

/-! ## Payouts off a ledger that balances -/

theorem charge_le_deposit (hw : Whole s) (hp : Paying s) {n : ℕ}
    (hn : s.tokensPaid + n ≤ s.fundedTokens) : chargeOf s.pricePerTick n ≤ s.deposit := by
  have hadd := chargeOf_add hw.step s.tokensPaid n
  have hmono := chargeOf_mono s.pricePerTick hn
  have hescrow := hp.escrow
  omega

theorem taken_whole {n : ℕ} (h : chargeOf s.pricePerTick n ≤ s.deposit) :
    taken n s = chargeOf s.pricePerTick n := min_eq_left h

theorem sellerPart_whole {n : ℕ} (h : chargeOf s.pricePerTick n ≤ s.deposit) :
    sellerPart n s = valueOf s.pricePerTick n := clampedPay_of_le h

theorem feePart_whole {n : ℕ} (h : chargeOf s.pricePerTick n ≤ s.deposit) :
    feePart n s = fee (valueOf s.pricePerTick n) := clampedFee_of_le h

theorem paidUp_paying (hw : Whole s) (hp : Paying s) {n : ℕ}
    (hn : s.tokensPaid + n ≤ s.fundedTokens) :
    Paying (paidUp n (s.tokensPaid + n) s) ∧
      (paidUp n (s.tokensPaid + n) s).clamped = s.clamped := by
  have hle := charge_le_deposit hw hp hn
  have hcharge := chargeOf_add hw.step s.tokensPaid n
  have hvalue := valueOf_add hw.step s.tokensPaid n
  have hfee := fee_valueOf_add hw.step s.tokensPaid n
  have hescrow := hp.escrow
  have howed := hp.owed
  have hfees := hp.fees
  refine ⟨⟨?_, ?_, ?_⟩, ?_⟩
  · simp only [paidUp, taken_whole hle]
    omega
  · simp only [paidUp, sellerPart_whole hle]
    change s.finalizedOwed + valueOf s.pricePerTick n + s.withdrawn = _
    omega
  · simp only [paidUp, feePart_whole hle]
    omega
  · simp [paidUp, show ¬ chargeOf s.pricePerTick n > s.deposit by omega]

/-! ## The weekly loop -/

structure Rolling (s : Deal) : Prop where
  backed : Backed s
  weekly : Weekly s
  whole : Whole s
  paying : Paying s
  behind : s.tokensPaid ≤ (s.weekIndex + 1) * s.tokensPerWeek

theorem chargeWeek_rolling (h : Rolling s) (hi : s.weekIndex + 1 ≤ s.subWeeks) :
    Rolling (chargeWeek s) ∧ (chargeWeek s).clamped = s.clamped := by
  have hsub : s.subWeeks ≠ 0 := by omega
  have hbehind := h.behind
  have hdue : s.tokensPaid + weekDue s = (s.weekIndex + 1) * s.tokensPerWeek := by
    unfold weekDue
    split <;> omega
  have hterm : s.tokensPaid + weekDue s ≤ s.fundedTokens := by
    rw [hdue, ← h.whole.term hsub]
    exact Nat.mul_le_mul_right _ hi
  obtain ⟨hpaying, hclamped⟩ := paidUp_paying h.whole h.paying hterm
  obtain ⟨hback, hweekly⟩ := chargeWeek_keeps h.backed h.weekly hi
  have heq : chargeWeek s = { paidUp (weekDue s) (s.tokensPaid + weekDue s) s with
      weekIndex := s.weekIndex + 1
      weekBaseTokens := if s.tokensFinal > s.tokensPend then s.tokensFinal else s.tokensPend } := by
    rw [chargeWeek_eq h.backed h.weekly hi, ← hdue]
    rfl
  rw [heq] at hback hweekly ⊢
  refine ⟨⟨hback, hweekly, { h.whole with }, { hpaying with }, ?_⟩, hclamped⟩
  change s.tokensPaid + weekDue s ≤ (s.weekIndex + 1 + 1) * s.tokensPerWeek
  rw [hdue]
  exact Nat.mul_le_mul_right _ (by omega)

theorem chargeWeeks_rolling (h : Rolling s) (k : ℕ) (hk : s.weekIndex + k ≤ s.subWeeks) :
    Rolling (chargeWeek^[k] s) ∧ (chargeWeek^[k] s).clamped = s.clamped := by
  induction k with
  | zero => exact ⟨h, rfl⟩
  | succ k ih =>
    obtain ⟨hroll, hclamped⟩ := ih (by omega)
    obtain ⟨-, -, hindex, hterm⟩ := chargeWeeks_keeps h.backed h.weekly k (by omega)
    rw [Function.iterate_succ_apply']
    obtain ⟨h1, h2⟩ := chargeWeek_rolling hroll (by omega)
    exact ⟨h1, h2.trans hclamped⟩

theorem Streaming.behind (hs : Streaming s) (hw : Whole s) (hsub : s.subWeeks ≠ 0) :
    s.tokensPaid ≤ (s.weekIndex + 1) * s.tokensPerWeek := by
  have hquota := hw.quota hsub
  rw [hs.paid]
  split
  · rename_i hz
    rw [hz]
    omega
  · exact Nat.mul_le_mul_right _ (by omega)

theorem rolling (hb : Base s) (hs : Streaming s) (hw : Whole s) (hp : Paying s)
    (hsub : s.subWeeks ≠ 0) : Rolling s :=
  ⟨hb.toBacked, Invariant.weekly hb hs, hw, hp, Streaming.behind hs hw hsub⟩

theorem chargeWeeks_paying (hb : Base s) (hs : Streaming s) (hw : Whole s) (hp : Paying s)
    {k : ℕ} (hk : s.weekIndex + k ≤ s.subWeeks) :
    Whole (chargeWeek^[k] s) ∧ Paying (chargeWeek^[k] s) ∧
      (chargeWeek^[k] s).clamped = s.clamped := by
  by_cases hsub : s.subWeeks = 0
  · have hzero : k = 0 := by omega
    subst hzero
    exact ⟨hw, hp, rfl⟩
  · obtain ⟨hroll, hclamped⟩ := chargeWeeks_rolling (rolling hb hs hw hp hsub) k hk
    exact ⟨hroll.whole, hroll.paying, hclamped⟩

/-! ## Every call keeps the ledger -/

theorem ledger_accepted (ha : s.probeAccepted = true) (hc : s.clamped = false) (hw : Whole s)
    (hp : Paying s) : Ledger s where
  unclamped := hc
  whole := fun _ => hw
  escrowed := fun _ h => by rw [ha] at h; cases h
  undrawn := fun h => by rw [ha] at h; cases h
  paying := fun _ => hp

theorem filled_ledger {paid : ℕ} {b : Address} {k f : ℕ} (hi : Invariant s) (hl : Ledger s)
    (hfill : Filled paid b k f s t) (hwhole : WholeFill paid f s.pricePerTick) : Ledger t := by
  have hidle := hi.idle (hi.closed_of_unfunded hfill.unfunded)
  have hwd := hfill.withdrawn
  have hprobe := hidle.probeTick
  have hpos := hi.base.price_pos
  have hunit : 0 < unit s.pricePerTick := Nat.add_pos_left hpos _
  have hlow := hfill.low
  obtain ⟨ticks, hticks⟩ := hwhole.whole
  have hdiv : (paid - fillBond f s.pricePerTick) / unit s.pricePerTick = ticks := by
    rw [hticks, Nat.mul_div_cancel_left _ hunit]
  have htwo : 2 ≤ ticks := by
    rw [← hdiv]
    exact (Nat.le_div_iff_mul_le hunit).mpr hlow
  have hweeks := hwhole.weeks
  rw [hdiv] at hweeks
  rw [hfill.eq, hdiv]
  refine ⟨hl.unclamped, fun _ => ⟨hwhole.step, ?_, ?_, ?_⟩, fun _ _ => ?_, fun h => ?_, fun h => ?_⟩
  · intro hsub
    have hflag : f &&& flagSubscription ≠ 0 := by
      intro hz
      simp [hz] at hsub
    obtain ⟨w, rfl⟩ := hweeks hflag
    simp only [hflag, ne_eq, not_false_eq_true, if_true]
    unfold subWeeksConst
    simp only [OfNat.ofNat_ne_zero, if_false]
    rw [Nat.mul_assoc, Nat.mul_div_cancel_left _ (by decide)]
  · intro hsub
    have hflag : f &&& flagSubscription ≠ 0 := by
      intro hz
      simp [hz] at hsub
    obtain ⟨w, rfl⟩ := hweeks hflag
    simp only [hflag, ne_eq, not_false_eq_true, if_true]
    unfold subWeeksConst at htwo ⊢
    simp only [OfNat.ofNat_ne_zero, if_false]
    rw [Nat.mul_assoc, Nat.mul_div_cancel_left _ (by decide)]
    exact Nat.le_mul_of_pos_left _ (by omega)
  · intro hsub
    have hflag : f &&& flagSubscription ≠ 0 := by
      intro hz
      simp [hz] at hsub
    simp [fillBond, hflag, bondAmount, hpos]
  · dsimp only
    rw [hprobe, hticks, chargeOf_ticks hwhole.step]
    ring
  · exact hwd.trans (hl.undrawn h)
  · rw [hidle.unaccepted] at h
    cases h

theorem accepted_ledger (hi : Invariant s) (hl : Ledger s) (ha : s.probeAccepted = false)
    (ho : s.opened = true) (hq : Quiet s t)
    (heq : t = { s with
      finalizedOwed := s.finalizedOwed + s.probeTick
      feeAccrued := s.feeAccrued +
        (if fee s.pricePerTick > s.deposit then s.deposit else fee s.pricePerTick)
      deposit := s.deposit -
        (if fee s.pricePerTick > s.deposit then s.deposit else fee s.pricePerTick)
      probeTick := 0, probeAccepted := true, periodStart := s.now
      tokensPaid := tickSize, tokensFinal := tickSize, tokensPend := tickSize
      weekBaseTokens := 0, ticksFinalized := 1, lastClaimTime := s.now, out := t.out }) :
    Ledger t := by
  have ht := hi.trial ho ha
  obtain ⟨ticks, hshape⟩ := ht.shape
  have hw := hl.whole ht.funded
  have hescrow := hl.escrowed ht.funded ha
  have hwd : t.withdrawn = 0 := hq.withdrawn.trans (hl.undrawn ha)
  have hunit := chargeOf_one_tick hw.step
  have hvalue := valueOf_one_tick s.pricePerTick
  -- two ticks were funded at least, so the fee of the first fits
  have htwo : 2 * unit s.pricePerTick ≤ chargeOf s.pricePerTick s.fundedTokens := by
    rw [hshape.tokens, chargeOf_ticks hw.step]
    exact Nat.mul_le_mul_right _ hshape.low
  have hprobe := ht.probeTick
  unfold unit at htwo
  have hfee : (if fee s.pricePerTick > s.deposit then s.deposit else fee s.pricePerTick) =
      fee s.pricePerTick := if_neg (by omega)
  rw [hfee] at heq
  rw [heq]
  refine ledger_accepted rfl hl.unclamped { hw with } ⟨?_, ?_, ?_⟩
  · dsimp only
    rw [hunit]
    unfold unit
    omega
  · change s.finalizedOwed + s.probeTick + t.withdrawn = valueOf s.pricePerTick tickSize
    rw [hvalue, hwd, ht.finalizedOwed, hprobe]
    omega
  · change s.feeAccrued + fee s.pricePerTick = fee (valueOf s.pricePerTick tickSize)
    rw [hvalue, ht.feeAccrued, Nat.zero_add]

/-- Steps that move neither the ledger's figures nor the shape of the deal. -/
theorem Ledger.kept (hl : Ledger s) (hwd : t.withdrawn = s.withdrawn)
    (h : t.clamped = s.clamped ∧ t.funded = s.funded ∧ t.probeAccepted = s.probeAccepted ∧
      t.pricePerTick = s.pricePerTick ∧ t.subWeeks = s.subWeeks ∧
      t.tokensPerWeek = s.tokensPerWeek ∧ t.fundedTokens = s.fundedTokens ∧
      t.deposit + t.probeTick = s.deposit + s.probeTick ∧ t.tokensPaid = s.tokensPaid ∧
      t.feeAccrued = s.feeAccrued ∧ t.finalizedOwed = s.finalizedOwed)
    (hdep : t.probeAccepted = true → t.deposit = s.deposit)
    (hbond : t.subWeeks ≠ 0 → s.buyerBondFunded = true → t.buyerBond = s.buyerBond ∧
      t.buyerBondFunded = true) : Ledger t := by
  obtain ⟨h1, h2, h3, h4, h5, h6, h7, h8, h9, h10, h11⟩ := h
  refine ⟨h1.trans hl.unclamped, fun hf => ?_, fun hf ha => ?_, fun ha => ?_, fun ha => ?_⟩
  · have hw := hl.whole (h2 ▸ hf)
    refine ⟨h4 ▸ hw.step, fun hs => ?_, fun hs => ?_, fun hs => ?_⟩
    · rw [h5, h6, h7]
      exact hw.term (h5 ▸ hs)
    · rw [h6]
      exact hw.quota (h5 ▸ hs)
    · obtain ⟨hb, hbf⟩ := hw.bond (h5 ▸ hs)
      obtain ⟨hb', hbf'⟩ := hbond hs hbf
      exact ⟨by rw [hb', h4, hb], hbf'⟩
  · rw [h8, h4, h7]
    exact hl.escrowed (h2 ▸ hf) (h3 ▸ ha)
  · rw [hwd]
    exact hl.undrawn (h3 ▸ ha)
  · have hp := hl.paying (h3 ▸ ha)
    refine ⟨?_, ?_, ?_⟩
    · rw [hdep ha, h4, h7, h9]
      exact hp.escrow
    · rw [h11, hwd, h4, h9]
      exact hp.owed
    · rw [h10, h4, h9]
      exact hp.fees

theorem FreshStep.ledger (hi : Invariant s) (hl : Ledger s) (ha : s.probeAccepted = false)
    (hbook : ∀ f ∈ fillOf c, m.sender = orderBook env s → WholeFill f.1 f.2 s.pricePerTick)
    (h : FreshStep env m s c t) : Ledger t := by
  cases h with
  | relisted _ _ _ hr =>
    have hwd := hr.withdrawn
    rw [hr.eq] at hwd ⊢
    exact hl.kept hwd ⟨rfl, rfl, rfl, rfl, rfl, rfl, rfl, rfl, rfl, rfl, rfl⟩ (fun _ => rfl)
      (fun _ hb => ⟨rfl, hb⟩)
  | filled p b k f hm hfill => exact filled_ledger hi hl hfill (hbook (p, f) rfl hm)
  | sellerBonded a c _ _ hq heq =>
    have hwd := hq.withdrawn
    rw [heq] at hwd ⊢
    exact hl.kept hwd ⟨rfl, rfl, rfl, rfl, rfl, rfl, rfl, rfl, rfl, rfl, rfl⟩ (fun _ => rfl)
      (fun _ hb => ⟨rfl, hb⟩)
  | buyerBonded a _ hflag hq heq =>
    have hwd := hq.withdrawn
    rw [heq] at hwd ⊢
    refine hl.kept hwd ⟨rfl, rfl, rfl, rfl, rfl, rfl, rfl, rfl, rfl, rfl, rfl⟩ (fun _ => rfl)
      (fun _ hb => ?_)
    rw [hflag] at hb
    cases hb
  | opened c hfu ho hle hq heq =>
    have hwd := hq.withdrawn
    have hprobe := (hi.idle ho).probeTick
    rw [heq] at hwd ⊢
    refine hl.kept hwd ⟨rfl, rfl, ha.symm, rfl, rfl, rfl, rfl, ?_, rfl, rfl, rfl⟩ (by simp)
      (fun _ hb => ⟨rfl, hb⟩)
    dsimp only
    omega
  | accepted ho _ hq heq => exact accepted_ledger hi hl ha ho hq heq
  | disputed _ hq heq =>
    have hwd := hq.withdrawn
    rw [heq] at hwd ⊢
    exact hl.kept hwd ⟨rfl, rfl, rfl, rfl, rfl, rfl, rfl, rfl, rfl, rfl, rfl⟩ (fun _ => rfl)
      (fun _ hb => ⟨rfl, hb⟩)
  | cleaned ho heq =>
    have hwd := (cleanupUnopenedBody_figures m s).2
    rw [heq] at hwd ⊢
    refine ⟨hl.unclamped, by simp, by simp, fun _ => hwd.trans (hl.undrawn ha), fun h => ?_⟩
    rw [ha] at h
    cases h

theorem booked_ledger (hb : Base s) (hs : Streaming s) (hw : Whole s) (hp : Paying s)
    (hu : Booked (settledBooks s) u) : Whole u ∧ Paying u ∧ u.clamped = s.clamped := by
  have hcap : weeksElapsed s ≤ s.subWeeks := weeksElapsedAt_le _ _
  have hweeks := hs.weeks
  obtain ⟨hw', hp', hc'⟩ := chargeWeeks_paying hb hs hw hp
    (k := weeksElapsed s - s.weekIndex) (by omega)
  have hwd := hu.withdrawn
  have howed := hp'.owed
  change (settledBooks s).clamped = s.clamped at hc'
  change (settledBooks s).finalizedOwed + (settledBooks s).withdrawn = _ at howed
  rw [hu.eq] at hwd ⊢
  refine ⟨{ hw' with }, { hp' with owed := ?_ }, hc'⟩
  rw [hwd]
  exact howed

theorem StreamStep.ledger (hb : Base s) (hs : Streaming s) (hl : Ledger s)
    (h : StreamStep s c t) : Ledger t := by
  have hw := hl.whole hs.funded
  have hp := hl.paying hs.accepted
  cases h with
  | relisted _ _ _ hr =>
    have hwd := hr.withdrawn
    rw [hr.eq] at hwd ⊢
    exact hl.kept hwd ⟨rfl, rfl, rfl, rfl, rfl, rfl, rfl, rfl, rfl, rfl, rfl⟩ (fun _ => rfl)
      (fun _ hb => ⟨rfl, hb⟩)
  | unchanged n _ => exact hl
  | claimed n u _ _ _ hsu hclaim =>
    obtain ⟨hwu, hpu, hcu⟩ := booked_ledger hb hs hw hp hclaim.booked
    have hwd := hclaim.quiet.withdrawn
    have hlu := ledger_accepted hsu.accepted (hcu.trans hl.unclamped) hwu hpu
    rw [hclaim.eq] at hwd ⊢
    exact hlu.kept hwd ⟨rfl, rfl, rfl, rfl, rfl, rfl, rfl, rfl, rfl, rfl, rfl⟩ (fun _ => rfl)
      (fun _ hb => ⟨rfl, hb⟩)
  | promoted _ _ _ =>
    exact hl.kept rfl ⟨rfl, rfl, rfl, rfl, rfl, rfl, rfl, rfl, rfl, rfl, rfl⟩ (fun _ => rfl)
      (fun _ hb => ⟨rfl, hb⟩)
  | settled _ _ hu _ =>
    obtain ⟨hwu, hpu, hcu⟩ := booked_ledger hb hs hw hp hu
    obtain ⟨_, _, _, _, _, _, heq, -⟩ := booked_fields hb hs hu
    refine ledger_accepted ?_ (hcu.trans hl.unclamped) hwu hpu
    rw [heq]
    exact hs.accepted
  | disputed _ hq heq =>
    have hwd := hq.withdrawn
    rw [heq] at hwd ⊢
    exact hl.kept hwd ⟨rfl, rfl, rfl, rfl, rfl, rfl, rfl, rfl, rfl, rfl, rfl⟩ (fun _ => rfl)
      (fun _ hb => ⟨rfl, hb⟩)
  | drew a howed hbal =>
    have hdrew := (drawn_drew a s).withdrawn
    have hold := hp.owed
    rw [drawn_eq hbal] at hdrew ⊢
    refine ledger_accepted hs.accepted hl.unclamped { hw with } { hp with owed := ?_ }
    rw [hdrew]
    dsimp only
    omega

/-! ## Runs -/

theorem enter_ledger (h : Ledger s) (m : Msg) : Ledger (enter m s) :=
  h.kept rfl ⟨rfl, rfl, rfl, rfl, rfl, rfl, rfl, rfl, rfl, rfl, rfl⟩ (fun _ => rfl)
    (fun _ hb => ⟨rfl, hb⟩)

theorem dispatch_ledger (hi : Invariant s) (hl : Ledger s)
    (hbook : ∀ f ∈ fillOf c, m.sender = orderBook env s → WholeFill f.1 f.2 s.pricePerTick)
    (hok : dispatch env m s c = .ok t) (hf : t.fault = false) (hlive : t.destroyed = false) :
    Ledger t := by
  cases ha : s.probeAccepted with
  | true =>
    have hs := hi.streaming ha
    exact StreamStep.ledger hi.base hs hl (stream_step hi hs hok hf hlive)
  | false => exact FreshStep.ledger hi hl ha hbook (fresh_step hi ha hok hf hlive)

theorem constructed_ledger (h : Constructed env s) : Ledger s := by
  obtain ⟨m, a, -, h⟩ := h
  simp only [construct, require_bind_ok, pure_ok, Except.ok.injEq] at h
  obtain ⟨-, -, -, -, -, -, -, -, rfl⟩ := h
  refine ⟨rfl, by simp [Deal.send], by simp [Deal.send], fun _ => rfl, by simp [Deal.send]⟩

theorem reachable_ledger {Φ : Deal → Tx → Prop} (hΦ : ∀ s tx, Φ s tx → BookFill env s tx)
    (h : Reachable env Φ s) (hlive : s.destroyed = false) : Invariant s ∧ Ledger s := by
  revert hlive
  refine TransactionSystem.Reachable.invariant
    (I := fun s => s.destroyed = false → Invariant s ∧ Ledger s)
    (fun s h _ => ⟨constructed_invariant h, constructed_ledger h⟩) ?_ h
  intro s a t ih hadm hok hlive
  obtain ⟨hlives, hd, hf⟩ := exec_ok hok
  obtain ⟨hi, hl⟩ := ih hlives
  exact ⟨exec_invariant hi hadm.1 hok hlive,
    dispatch_ledger (hi.enter hadm.1.later hadm.1.clock) (enter_ledger hl a.msg) (hΦ s a hadm.2) hd
      hf hlive⟩

end TokenContractLedger
