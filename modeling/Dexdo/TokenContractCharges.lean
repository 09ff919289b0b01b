import Dexdo.TokenContractCalls
import Mathlib.Tactic.Ring
import Mathlib.Tactic.NormNum

/-! # Charges of a TokenContract

What a payout out of the deposit and the weekly charge do to the record: the clamp, the
figures that move, and the bounds under which no checked operation of theirs throws. -/
namespace TokenContractCharges

open TokenContractState TokenContractCalls

/-! ## The clamp -/

theorem clamped_sum (room pay f : ℕ) :
    clampedPay room pay f + clampedFee room pay f = min (pay + f) room := by
  unfold clampedPay clampedFee
  split_ifs <;> omega

theorem clampedPay_of_le {room pay f : ℕ} (h : pay + f ≤ room) : clampedPay room pay f = pay := by
  unfold clampedPay
  rw [if_neg (by omega)]

theorem clampedFee_of_le {room pay f : ℕ} (h : pay + f ≤ room) : clampedFee room pay f = f := by
  unfold clampedFee
  rw [if_neg (by omega)]

/-! ## How large a charge gets -/

theorem fee_add_le (a b : ℕ) : fee (a + b) ≤ fee a + fee b + 1 := by
  unfold fee platformFeeBps bpsDenominator
  omega

theorem fee_mul_le (k p : ℕ) : fee (k * p) ≤ k * fee p + k := by
  induction k with
  | zero => simp [fee]
  | succ k ih =>
    have h := fee_add_le (k * p) p
    rw [← Nat.succ_mul] at h
    calc fee ((k + 1) * p) ≤ fee (k * p) + fee p + 1 := h
      _ ≤ k * fee p + k + fee p + 1 := by omega
      _ = (k + 1) * fee p + (k + 1) := by ring

theorem valueOf_le_mul {p n k : ℕ} (h : n ≤ k * tickSize) : valueOf p n ≤ k * p := by
  have hmul : n * p ≤ k * p * tickSize := by
    calc n * p ≤ k * tickSize * p := Nat.mul_le_mul_right p h
      _ = k * p * tickSize := by ring
  exact Nat.div_le_of_le_mul (hmul.trans_eq (Nat.mul_comm _ _))

theorem chargeOf_mono (p : ℕ) {m n : ℕ} (h : m ≤ n) : chargeOf p m ≤ chargeOf p n :=
  Nat.add_le_add (valueOf_mono p h) (fee_mono (valueOf_mono p h))

theorem valueOf_tick (p k : ℕ) : valueOf p (k * tickSize) = k * p := by
  unfold valueOf
  have : k * tickSize * p = k * p * tickSize := by ring
  rw [this, Nat.mul_div_cancel _ (by decide)]

theorem chargeOf_le_unit {p n : ℕ} (h : n ≤ tickSize) : chargeOf p n ≤ unit p := by
  have hv : valueOf p n ≤ p := by simpa using valueOf_le_mul (p := p) (k := 1) (by simpa using h)
  exact Nat.add_le_add hv (fee_mono hv)

theorem chargeOf_le_of_three_quarters {p n ticks : ℕ} (h : 4 * n ≤ 3 * (ticks * tickSize)) :
    chargeOf p n ≤ ticks * p := by
  have hv : 4 * valueOf p n ≤ 3 * (ticks * p) := by
    have hdiv : valueOf p n * tickSize ≤ n * p := Nat.div_mul_le_self _ _
    have hmul : 4 * (n * p) ≤ 3 * (ticks * p) * tickSize := by
      calc 4 * (n * p) = 4 * n * p := by ring
        _ ≤ 3 * (ticks * tickSize) * p := Nat.mul_le_mul_right p h
        _ = 3 * (ticks * p) * tickSize := by ring
    have hall : 4 * valueOf p n * tickSize ≤ 3 * (ticks * p) * tickSize := by
      calc 4 * valueOf p n * tickSize = 4 * (valueOf p n * tickSize) := by ring
        _ ≤ 4 * (n * p) := Nat.mul_le_mul_left 4 hdiv
        _ ≤ 3 * (ticks * p) * tickSize := hmul
    exact Nat.le_of_mul_le_mul_right hall (by decide)
  unfold chargeOf fee platformFeeBps bpsDenominator
  omega

theorem chargeOf_lt_of_rate {p n k m : ℕ} (hn : n ≤ k * tickSize) (hk : k + 1 ≤ m)
    (hrate : k ≤ 2 ^ 60) (hcap : m * unit p < u128) : chargeOf p n < u128 := by
  have hcharge : chargeOf p n ≤ k * unit p + k := by
    have hv := valueOf_le_mul (p := p) hn
    calc chargeOf p n ≤ k * p + fee (k * p) := Nat.add_le_add hv (fee_mono hv)
      _ ≤ k * p + (k * fee p + k) := Nat.add_le_add_left (fee_mul_le k p) _
      _ = k * unit p + k := by unfold unit; ring
  rcases Nat.lt_or_ge (unit p) (2 ^ 64) with hu | hu
  · -- a cheap tick: even all of them fit
    have hle : k * unit p ≤ 2 ^ 60 * 2 ^ 64 := Nat.mul_le_mul hrate hu.le
    unfold u128
    omega
  · -- a dear tick: the one left free absorbs the rounding of the fees
    have hle : (k + 1) * unit p ≤ m * unit p := Nat.mul_le_mul_right _ hk
    have hsplit : (k + 1) * unit p = k * unit p + unit p := by ring
    omega

theorem rebate_le (p n : ℕ) : rebate p n ≤ n * p := by
  unfold rebate
  have hr : min (rebateSlopeBps * n) rebateMaxBps ≤ bpsDenominator :=
    (min_le_right _ _).trans (by decide)
  apply Nat.div_le_of_le_mul
  calc min (rebateSlopeBps * n) rebateMaxBps * n * p
      = min (rebateSlopeBps * n) rebateMaxBps * (n * p) := by ring
    _ ≤ bpsDenominator * (n * p) := Nat.mul_le_mul_right _ hr

/-! ## One payout -/

def taken (n : ℕ) (s : Deal) : ℕ := min (chargeOf s.pricePerTick n) s.deposit

def sellerPart (n : ℕ) (s : Deal) : ℕ :=
  clampedPay s.deposit (valueOf s.pricePerTick n) (fee (valueOf s.pricePerTick n))

def feePart (n : ℕ) (s : Deal) : ℕ :=
  clampedFee s.deposit (valueOf s.pricePerTick n) (fee (valueOf s.pricePerTick n))

theorem parts_sum (n : ℕ) (s : Deal) : sellerPart n s + feePart n s = taken n s :=
  clamped_sum _ _ _

theorem taken_le (n : ℕ) (s : Deal) : taken n s ≤ s.deposit := min_le_right _ _

structure Backed (s : Deal) : Prop where
  covered : s.earmarks ≤ s.balance
  balance_lt : s.balance < u128

theorem payTokens_eq {n : ℕ} {s : Deal} (hb : Backed s)
    (hn : chargeOf s.pricePerTick n < u128) :
    payTokens n s = { s with
      clamped := s.clamped || decide (chargeOf s.pricePerTick n > s.deposit)
      deposit := s.deposit - taken n s
      finalizedOwed := s.finalizedOwed + sellerPart n s
      feeAccrued := s.feeAccrued + feePart n s } := by
  have hsum := parts_sum n s
  have hle := taken_le n s
  have hcov := hb.covered
  have hlt := hb.balance_lt
  unfold Deal.earmarks at hcov
  have h2 : sellerPart n s + feePart n s ≤ s.deposit := by omega
  have h3 : s.finalizedOwed + sellerPart n s < u128 := by omega
  have h4 : s.feeAccrued + feePart n s < u128 := by omega
  unfold chargeOf at hn
  unfold payTokens
  simp only [Deal.check]
  rw [← hsum]
  simp only [sellerPart, feePart] at h2 h3 h4 ⊢
  simp [hn, h2, h3, h4, chargeOf]

/-! ## The weekly charge -/

def weekDue (s : Deal) : ℕ :=
  if (s.weekIndex + 1) * s.tokensPerWeek > s.tokensPaid then
    (s.weekIndex + 1) * s.tokensPerWeek - s.tokensPaid
  else 0

structure Weekly (s : Deal) : Prop where
  quota : s.subWeeks ≠ 0 → chargeOf s.pricePerTick s.tokensPerWeek < u128
  paid : s.weekIndex * s.tokensPerWeek ≤ s.tokensPaid
  term : s.subWeeks * s.tokensPerWeek < u128
  short : s.subWeeks < u8

theorem weekDue_le {s : Deal} (h : Weekly s) : weekDue s ≤ s.tokensPerWeek := by
  have hp := h.paid
  have hmul : (s.weekIndex + 1) * s.tokensPerWeek =
      s.weekIndex * s.tokensPerWeek + s.tokensPerWeek := by ring
  unfold weekDue
  split <;> omega

theorem chargeWeek_eq {s : Deal} (hb : Backed s) (hw : Weekly s)
    (hi : s.weekIndex + 1 ≤ s.subWeeks) :
    chargeWeek s = { s with
      clamped := s.clamped || decide (chargeOf s.pricePerTick (weekDue s) > s.deposit)
      deposit := s.deposit - taken (weekDue s) s
      finalizedOwed := s.finalizedOwed + sellerPart (weekDue s) s
      feeAccrued := s.feeAccrued + feePart (weekDue s) s
      tokensPaid := (s.weekIndex + 1) * s.tokensPerWeek
      weekIndex := s.weekIndex + 1
      weekBaseTokens := if s.tokensFinal > s.tokensPend then s.tokensFinal else s.tokensPend } := by
  have hcheck : s.weekIndex + 1 < u8 ∧ (s.weekIndex + 1) * s.tokensPerWeek < u128 :=
    ⟨hi.trans_lt hw.short, (Nat.mul_le_mul_right _ hi).trans_lt hw.term⟩
  have hfit : chargeOf s.pricePerTick (weekDue s) < u128 :=
    (chargeOf_mono _ (weekDue_le hw)).trans_lt (hw.quota (by omega))
  have hs : s.check (s.weekIndex + 1 < u8 ∧ (s.weekIndex + 1) * s.tokensPerWeek < u128) = s := by
    simp [Deal.check, hcheck]
  unfold chargeWeek
  simp only [hs]
  rw [show (if (s.weekIndex + 1) * s.tokensPerWeek > s.tokensPaid then
    (s.weekIndex + 1) * s.tokensPerWeek - s.tokensPaid else 0) = weekDue s from rfl,
    payTokens_eq hb hfit]

theorem chargeWeek_keeps {s : Deal} (hb : Backed s) (hw : Weekly s)
    (hi : s.weekIndex + 1 ≤ s.subWeeks) :
    Backed (chargeWeek s) ∧ Weekly (chargeWeek s) := by
  have hparts := parts_sum (weekDue s) s
  have hle := taken_le (weekDue s) s
  have hcov := hb.covered
  rw [chargeWeek_eq hb hw hi]
  refine ⟨⟨?_, hb.balance_lt⟩, hw.quota, le_rfl, hw.term, hw.short⟩
  simp only [Deal.earmarks] at hcov ⊢
  omega

theorem chargeWeeks_keeps {s : Deal} (hb : Backed s) (hw : Weekly s) (k : ℕ)
    (hk : s.weekIndex + k ≤ s.subWeeks) :
    Backed (chargeWeek^[k] s) ∧ Weekly (chargeWeek^[k] s) ∧
      (chargeWeek^[k] s).weekIndex = s.weekIndex + k ∧
      (chargeWeek^[k] s).subWeeks = s.subWeeks := by
  induction k with
  | zero => exact ⟨hb, hw, rfl, rfl⟩
  | succ k ih =>
    obtain ⟨hbk, hwk, hindex, hterm⟩ := ih (by omega)
    rw [Function.iterate_succ_apply']
    obtain ⟨h1, h2⟩ := chargeWeek_keeps hbk hwk (by omega)
    refine ⟨h1, h2, ?_, hterm⟩
    change (chargeWeek^[k] s).weekIndex + 1 = _
    omega

/-- The whole loop: it moves the weekly books and three earmarks, and nothing else. -/
theorem chargeWeeks_spec {s : Deal} (hb : Backed s) (hw : Weekly s) (k : ℕ)
    (hk : s.weekIndex + k ≤ s.subWeeks) :
    ∃ c d o f p b, chargeWeek^[k] s = { s with
        clamped := c, deposit := d, finalizedOwed := o, feeAccrued := f
        tokensPaid := p, weekIndex := s.weekIndex + k, weekBaseTokens := b } ∧
      d + o + f = s.deposit + s.finalizedOwed + s.feeAccrued ∧
      (k = 0 → p = s.tokensPaid ∧ b = s.weekBaseTokens) ∧
      (k ≠ 0 → p = (s.weekIndex + k) * s.tokensPerWeek ∧ b = max s.tokensFinal s.tokensPend) := by
  induction k with
  | zero =>
    refine ⟨s.clamped, s.deposit, s.finalizedOwed, s.feeAccrued, s.tokensPaid,
      s.weekBaseTokens, rfl, rfl, fun _ => ⟨rfl, rfl⟩, fun h => absurd rfl h⟩
  | succ k ih =>
    obtain ⟨hbk, hwk, hindex, hterm⟩ := chargeWeeks_keeps hb hw k (by omega)
    obtain ⟨c, d, o, f, p, b, heq, hsum, -, -⟩ := ih (by omega)
    rw [Function.iterate_succ_apply', chargeWeek_eq hbk hwk (by omega)]
    set u := chargeWeek^[k] s with hu
    have hparts := parts_sum (weekDue u) u
    have hle := taken_le (weekDue u) u
    refine ⟨u.clamped || decide (chargeOf u.pricePerTick (weekDue u) > u.deposit),
      u.deposit - taken (weekDue u) u, u.finalizedOwed + sellerPart (weekDue u) u,
      u.feeAccrued + feePart (weekDue u) u, (u.weekIndex + 1) * u.tokensPerWeek,
      max u.tokensFinal u.tokensPend, ?_, ?_, by simp, ?_⟩
    · have hmax : (if u.tokensFinal > u.tokensPend then u.tokensFinal else u.tokensPend) =
          max u.tokensFinal u.tokensPend := by
        split <;> omega
      rw [hmax, heq]
      rfl
    · have hold : u.deposit + u.finalizedOwed + u.feeAccrued =
          s.deposit + s.finalizedOwed + s.feeAccrued := by
        rw [heq]
        exact hsum
      omega
    · intro _
      rw [heq]
      exact ⟨by ring, rfl⟩

end TokenContractCharges
