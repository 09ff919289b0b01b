import Dexdo.TokenContractSteps

/-! # The states a TokenContract reaches

A live deal is idle (listed, possibly matched and bonded), on trial (open, the probe tick frozen)
or streaming (the trial tick accepted). -/
namespace TokenContractInvariant

open TokenContractState TokenContractCalls TokenContractCharges TokenContractPayouts
open TokenContractSteps

variable {env : Env} {m : Msg} {s t u : Deal}

/-- What holds at every stage. -/
structure Base (s : Deal) : Prop extends Backed s where
  price_pos : 0 < s.pricePerTick
  two_le_maxTicks : 2 ≤ s.maxTicks
  cap : s.maxTicks * unit s.pricePerTick < u128
  sellerBond : s.sellerBond = if s.sellerBondFunded then bondAmount s.pricePerTick else 0
  buyerBond : s.buyerBond = 0 ∨ s.buyerBond = bondAmount s.pricePerTick
  clock : s.now < 2 ^ 63
  funded_le : s.fundedTime ≤ s.now
  start_le : s.periodStart ≤ s.lastClaimTime
  claim_le : s.lastClaimTime ≤ s.now
  ever : s.everDisputed = s.disputed

/-- The volume a fill bought and how the term divides it. -/
structure Shape (ticks : ℕ) (s : Deal) : Prop where
  tokens : s.fundedTokens = ticks * tickSize
  low : 2 ≤ ticks
  high : ticks ≤ s.maxTicks
  fits : s.fundedTokens < u128
  kind : s.subWeeks = 0 ∧ s.tokensPerWeek = s.fundedTokens ∨
    s.subWeeks = subWeeksConst ∧ s.tokensPerWeek = s.fundedTokens / subWeeksConst

/-- Nothing was delivered yet. -/
structure Fresh (s : Deal) : Prop where
  unaccepted : s.probeAccepted = false
  tokensPaid : s.tokensPaid = 0
  tokensFinal : s.tokensFinal = 0
  tokensPend : s.tokensPend = 0
  weekIndex : s.weekIndex = 0
  ticksFinalized : s.ticksFinalized = 0
  finalizedOwed : s.finalizedOwed = 0
  feeAccrued : s.feeAccrued = 0

structure Idle (s : Deal) : Prop extends Fresh s where
  closed : s.opened = false
  undisputed : s.disputed = false
  probeTick : s.probeTick = 0
  unfunded : s.funded = false → s.deposit = 0
  shape : s.funded = true → ∃ ticks, Shape ticks s

/-- The clock of a dispute: raised after the last claim, frozen since. -/
structure Frozen (s : Deal) : Prop where
  claim_le : s.disputed = true → s.lastClaimTime ≤ s.disputeTime
  now_le : s.disputed = true → s.disputeTime ≤ s.now
  week_le : s.disputed = true → s.weekIndex * subWeekLen ≤ s.disputeTime - s.periodStart

structure Trial (s : Deal) : Prop extends Fresh s, Frozen s where
  opened : s.opened = true
  funded : s.funded = true
  bonded : s.sellerBondFunded = true
  buyerBonded : s.buyerBondFunded = true
  probeTick : s.probeTick = s.pricePerTick
  shape : ∃ ticks, Shape ticks s

structure Streaming (s : Deal) : Prop extends Frozen s where
  accepted : s.probeAccepted = true
  opened : s.opened = true
  funded : s.funded = true
  bonded : s.sellerBondFunded = true
  buyerBonded : s.buyerBondFunded = true
  probeTick : s.probeTick = 0
  shape : ∃ ticks, Shape ticks s
  tick_le_final : tickSize ≤ s.tokensFinal
  final_le_pend : s.tokensFinal ≤ s.tokensPend
  pend_le_funded : s.tokensPend ≤ s.fundedTokens
  slot : s.tokensPend ≤ s.tokensFinal + tickSize
  rate : (s.tokensPend - tickSize) * minSecondsPerTick ≤
    (s.lastClaimTime - s.periodStart) * tickSize
  paid : s.tokensPaid = if s.weekIndex = 0 then tickSize else s.weekIndex * s.tokensPerWeek
  weeks : s.weekIndex ≤ s.subWeeks
  elapsed : s.weekIndex * subWeekLen ≤ s.now - s.periodStart
  base_zero : s.weekIndex = 0 → s.weekBaseTokens = 0
  base_pos : s.weekIndex ≠ 0 → tickSize ≤ s.weekBaseTokens ∧ s.weekBaseTokens ≤ s.tokensPend
  quota : s.subWeeks ≠ 0 → s.tokensPend ≤ max tickSize (s.weekBaseTokens + s.tokensPerWeek)

structure Invariant (s : Deal) : Prop where
  base : Base s
  stage : Idle s ∨ Trial s ∨ Streaming s

/-! ## Changes that no stage notices -/

theorem Invariant.relisted (h : Invariant s) (r : Relisted s t) : Invariant t := by
  obtain ⟨hb, hi | ht | hs⟩ := h
  · rw [r.eq]
    exact ⟨{ hb with }, .inl { hi with shape := fun hf => (hi.shape hf).imp fun _ h => { h with } }⟩
  · rw [r.eq]
    exact ⟨{ hb with }, .inr (.inl { ht with shape := ht.shape.imp fun _ h => { h with } })⟩
  · rw [r.eq]
    exact ⟨{ hb with }, .inr (.inr { hs with shape := hs.shape.imp fun _ h => { h with } })⟩

theorem Invariant.enter (h : Invariant s) (hle : s.now ≤ m.now) (hlt : m.now < 2 ^ 63) :
    Invariant (enter m s) := by
  obtain ⟨hb, hstage⟩ := h
  have hbase : Base (TokenContractCalls.enter m s) :=
    { hb with
      clock := hlt
      funded_le := hb.funded_le.trans hle
      claim_le := hb.claim_le.trans hle }
  refine ⟨hbase, ?_⟩
  rcases hstage with hi | ht | hs
  · exact .inl { hi with shape := fun hf => (hi.shape hf).imp fun _ h => { h with } }
  · refine .inr (.inl { ht with
      shape := ht.shape.imp fun _ h => { h with }
      now_le := fun hd => (ht.now_le hd).trans hle })
  · refine .inr (.inr { hs with
      shape := hs.shape.imp fun _ h => { h with }
      now_le := fun hd => (hs.now_le hd).trans hle
      elapsed := hs.elapsed.trans (Nat.sub_le_sub_right hle _) })

/-! ## Idle -/

theorem Invariant.idle (h : Invariant s) (ho : s.opened = false) : Idle s := by
  rcases h.stage with hi | ht | hs
  · exact hi
  · rw [ht.opened] at ho
    cases ho
  · rw [hs.opened] at ho
    cases ho

theorem Invariant.closed_of_unfunded (h : Invariant s) (hf : s.funded = false) :
    s.opened = false := by
  rcases h.stage with hi | ht | hs
  · exact hi.closed
  · rw [ht.funded] at hf
    cases hf
  · rw [hs.funded] at hf
    cases hf

theorem Invariant.funded_of_opened (h : Invariant s) (ho : s.opened = true) : s.funded = true := by
  rcases h.stage with hi | ht | hs
  · rw [hi.closed] at ho
    cases ho
  · exact ht.funded
  · exact hs.funded

theorem filled_shape {paid : ℕ} {b : Address} {k f : ℕ} (hpos : 0 < s.pricePerTick)
    (h : Filled paid b k f s t) :
    Shape ((paid - fillBond f s.pricePerTick) / unit s.pricePerTick) t := by
  have hunit : 0 < unit s.pricePerTick := Nat.add_pos_left hpos _
  rw [h.eq]
  refine ⟨rfl, ?_, ?_, h.tokens_lt, ?_⟩
  · exact (Nat.le_div_iff_mul_le hunit).mpr h.low
  · exact Nat.div_le_of_le_mul (h.high.trans_eq (Nat.mul_comm _ _))
  · by_cases hsub : f &&& flagSubscription ≠ 0
    · right
      simp [hsub, subWeeksConst]
    · left
      simp [hsub]

theorem filled_invariant {paid : ℕ} {b : Address} {k f : ℕ} (h : Invariant s)
    (hfill : Filled paid b k f s t) : Invariant t := by
  have hi := h.idle (h.closed_of_unfunded hfill.unfunded)
  have hb := h.base
  have hcov := hb.covered
  have hshape := filled_shape hb.price_pos hfill
  have hle := hfill.bond_le
  unfold Deal.earmarks at hcov
  have hbase : Base t := by
    rw [hfill.eq]
    exact { hb with
      covered := by
        unfold Deal.earmarks
        dsimp only
        omega
      balance_lt := hfill.balance_lt
      buyerBond := by
        dsimp only
        unfold fillBond
        split
        · exact .inr rfl
        · exact .inl rfl
      funded_le := le_rfl
      start_le := le_rfl
      claim_le := le_rfl }
  refine ⟨hbase, .inl ?_⟩
  rw [hfill.eq] at hshape ⊢
  exact { hi with
    weekIndex := rfl
    unfunded := by simp
    shape := fun _ => ⟨_, hshape⟩ }

theorem fundDeal_invariant {amount : ℕ} {c : Option Bytes} (h : Invariant s)
    (hok : fundDeal amount c m s = .ok t) (hf : t.fault = false) : Invariant t := by
  obtain ⟨ho, hflag, hlt, hle, -, heq⟩ := fundDeal_ok hok hf
  have hi := h.idle ho
  have hb := h.base
  have hcov := hb.covered
  have hnone : s.sellerBond = 0 := by simpa [hflag] using hb.sellerBond
  unfold Deal.earmarks at hcov
  rw [heq]
  refine ⟨?_, .inl { hi with shape := fun hf => (hi.shape hf).imp fun _ h => { h with } }⟩
  exact { hb with
    covered := by
      unfold Deal.earmarks
      dsimp only
      omega
    balance_lt := by
      dsimp only
      omega
    sellerBond := by simp }

theorem fundBuyerBond_invariant {amount : ℕ} (h : Invariant s)
    (hok : fundBuyerBond amount m s = .ok t) (hf : t.fault = false) : Invariant t := by
  obtain ⟨-, ho, -, hlt, hle, -, heq⟩ := fundBuyerBond_ok hok hf
  have hi := h.idle ho
  have hb := h.base
  have hcov := hb.covered
  unfold Deal.earmarks at hcov
  rw [heq]
  refine ⟨?_, .inl { hi with shape := fun hf => (hi.shape hf).imp fun _ h => { h with } }⟩
  exact { hb with
    covered := by
      unfold Deal.earmarks
      dsimp only
      omega
    balance_lt := by
      dsimp only
      omega
    buyerBond := .inr rfl }

theorem cleanupUnopened_invariant (h : Invariant s) (hok : cleanupUnopened m s = .ok t) :
    Invariant t := by
  obtain ⟨-, ho, -, -, ht⟩ := cleanupUnopened_ok hok
  have hi := h.idle ho
  have hb := h.base
  have heq := cleanupUnopenedBody_eq (m := m) hb.toBacked
  rw [ht, heq]
  refine ⟨?_, .inl { hi with unfunded := fun _ => rfl, shape := by simp }⟩
  exact { hb with
    covered := by simp [Deal.earmarks, hi.probeTick, hi.finalizedOwed, hi.feeAccrued]
    balance_lt := by simp [u128]
    sellerBond := by simp
    buyerBond := .inl rfl }

/-! ## Trial -/

theorem openDeal_invariant {c : Bytes} (h : Invariant s) (hok : openDeal c m s = .ok t) :
    Invariant t := by
  obtain ⟨hfu, ho, hsb, hbb, hle, -, heq⟩ := openDeal_ok hok
  have hi := h.idle ho
  have hb := h.base
  have hcov := hb.covered
  have hz := hi.probeTick
  unfold Deal.earmarks at hcov
  rw [heq]
  refine ⟨?_, .inr (.inl ?_)⟩
  · exact { hb with
      covered := by
        unfold Deal.earmarks
        dsimp only
        omega
      start_le := hb.start_le.trans hb.claim_le
      claim_le := le_rfl }
  · have hquiet := hi.undisputed
    exact { hi.toFresh with
      unaccepted := rfl
      opened := rfl
      funded := hfu
      bonded := hsb
      buyerBonded := hbb
      probeTick := rfl
      shape := (hi.shape hfu).imp fun _ h => { h with }
      claim_le := by simp [hquiet]
      now_le := by simp [hquiet]
      week_le := by simp [hquiet] }

theorem Invariant.trial (h : Invariant s) (ho : s.opened = true) (ha : s.probeAccepted = false) :
    Trial s := by
  rcases h.stage with hi | ht | hs
  · rw [hi.closed] at ho
    cases ho
  · exact ht
  · rw [hs.accepted] at ha
    cases ha

theorem acceptProbe_invariant (h : Invariant s) (hok : acceptProbe m s = .ok t)
    (hf : t.fault = false) : Invariant t := by
  obtain ⟨ho, hd, ha, -, -, heq⟩ := acceptProbe_ok hok hf
  have ht := h.trial ho ha
  have hb := h.base
  have hcov := hb.covered
  obtain ⟨ticks, hshape⟩ := ht.shape
  have hvolume : tickSize ≤ s.fundedTokens := by
    rw [hshape.tokens]
    exact Nat.le_mul_of_pos_left _ (by have := hshape.low; omega)
  have hfee : (if fee s.pricePerTick > s.deposit then s.deposit else fee s.pricePerTick) ≤
      s.deposit := by
    split <;> omega
  unfold Deal.earmarks at hcov
  rw [heq]
  refine ⟨?_, .inr (.inr ?_)⟩
  · exact { hb with
      covered := by
        unfold Deal.earmarks
        dsimp only
        omega
      start_le := le_rfl
      claim_le := le_rfl }
  · exact { ht with
      accepted := rfl
      probeTick := rfl
      shape := ⟨ticks, { hshape with }⟩
      tick_le_final := le_rfl
      final_le_pend := le_rfl
      pend_le_funded := hvolume
      slot := Nat.le_add_right _ _
      rate := by simp
      paid := by simp [ht.weekIndex]
      weeks := by simp [ht.weekIndex]
      elapsed := by simp [ht.weekIndex]
      base_zero := fun _ => rfl
      base_pos := fun hne => absurd ht.weekIndex hne
      quota := fun _ => le_max_left _ _
      claim_le := by simp [hd]
      now_le := by simp [hd]
      week_le := by simp [hd] }

/-! ## Streaming -/

theorem Invariant.streaming (h : Invariant s) (ha : s.probeAccepted = true) : Streaming s := by
  rcases h.stage with hi | ht | hs
  · rw [hi.unaccepted] at ha
    cases ha
  · rw [ht.unaccepted] at ha
    cases ha
  · exact hs

theorem Base.ticks_lt (hb : Base s) {n : ℕ} (h : n ≤ s.maxTicks) :
    n * unit s.pricePerTick < u128 :=
  (Nat.mul_le_mul_right _ h).trans_lt hb.cap

theorem Base.ticks_price_lt (hb : Base s) {ticks : ℕ} (h : ticks ≤ s.maxTicks) :
    ticks * s.pricePerTick < u128 :=
  (Nat.mul_le_mul_left _ (Nat.le_add_right _ _)).trans_lt (hb.ticks_lt h)

theorem Base.bond_lt (hb : Base s) : bondAmount s.pricePerTick < u128 :=
  hb.ticks_price_lt hb.two_le_maxTicks

theorem Base.charge_lt (hb : Base s) {ticks n : ℕ} (hshape : Shape ticks s)
    (hn : 4 * n ≤ 3 * s.fundedTokens) : chargeOf s.pricePerTick n < u128 := by
  rw [hshape.tokens] at hn
  exact (chargeOf_le_of_three_quarters hn).trans_lt (hb.ticks_price_lt hshape.high)

theorem Shape.quarter {ticks : ℕ} (hshape : Shape ticks s) (hsub : s.subWeeks ≠ 0) :
    s.subWeeks = 4 ∧ 4 * s.tokensPerWeek ≤ s.fundedTokens := by
  rcases hshape.kind with ⟨hz, -⟩ | ⟨hfour, hweek⟩
  · exact absurd hz hsub
  · unfold subWeeksConst at hfour hweek
    omega

theorem Invariant.weekly (hb : Base s) (hs : Streaming s) : Weekly s := by
  obtain ⟨ticks, hshape⟩ := hs.shape
  constructor
  · intro hsub
    have := hshape.quarter hsub
    exact hb.charge_lt hshape (by omega)
  · rw [hs.paid]
    split
    · rename_i hz
      simp [hz]
    · exact le_rfl
  · by_cases hsub : s.subWeeks = 0
    · rw [hsub, Nat.zero_mul]
      decide
    · have := hshape.quarter hsub
      have := hshape.fits
      rw [(hshape.quarter hsub).1]
      omega
  · rcases hshape.kind with ⟨hz, -⟩ | ⟨hfour, -⟩
    · rw [hz]
      decide
    · rw [hfour]
      decide

/-- Booking boundaries that have passed keeps the deal streaming. -/
theorem books_invariant (hb : Base s) (hs : Streaming s) {k : ℕ}
    (hk : s.weekIndex + k ≤ s.subWeeks)
    (hnow : (s.weekIndex + k) * subWeekLen ≤ s.now - s.periodStart)
    (hdis : s.disputed = true → (s.weekIndex + k) * subWeekLen ≤ s.disputeTime - s.periodStart) :
    Base (chargeWeek^[k] s) ∧ Streaming (chargeWeek^[k] s) := by
  obtain ⟨c, d, o, f, p, b, heq, hsum, hzero, hpos⟩ :=
    chargeWeeks_spec hb.toBacked (Invariant.weekly hb hs) k hk
  have hcov := hb.covered
  unfold Deal.earmarks at hcov
  have hmax : max s.tokensFinal s.tokensPend = s.tokensPend := max_eq_right hs.final_le_pend
  rw [heq]
  refine ⟨?_, ?_⟩
  · exact { hb with
      covered := by
        unfold Deal.earmarks
        dsimp only
        omega }
  rcases Nat.eq_zero_or_pos k with rfl | hk0
  · obtain ⟨rfl, rfl⟩ := hzero rfl
    exact { hs with shape := hs.shape.imp fun _ h => { h with } }
  · obtain ⟨rfl, rfl⟩ := hpos (by omega)
    have hne : s.weekIndex + k ≠ 0 := by omega
    exact { hs with
      shape := hs.shape.imp fun _ h => { h with }
      paid := (if_neg hne).symm
      weeks := hk
      elapsed := hnow
      base_zero := fun h => absurd h hne
      base_pos := fun _ => by
        have h1 := hs.tick_le_final
        have h2 := hs.final_le_pend
        dsimp only
        omega
      quota := fun _ => by
        dsimp only
        omega
      week_le := hdis }

theorem settledBooks_invariant (hb : Base s) (hs : Streaming s) (hd : s.disputed = false) :
    Base (settledBooks s) ∧ Streaming (settledBooks s) := by
  have hle : weeksElapsed s ≤ (s.now - s.periodStart) / subWeekLen := min_le_left _ _
  have hcap : weeksElapsed s ≤ s.subWeeks := weeksElapsedAt_le _ _
  have hweeks := hs.weeks
  have helapsed := hs.elapsed
  apply books_invariant hb hs (by omega)
  · rcases Nat.le_total (weeksElapsed s) s.weekIndex with h | h
    · rw [Nat.sub_eq_zero_of_le h]
      exact helapsed
    · rw [Nat.add_sub_cancel' h]
      exact (Nat.mul_le_mul_right _ hle).trans (Nat.div_mul_le_self _ _)
  · simp [hd]

theorem booked_invariant (h : Booked u t) (hb : Base u) (hs : Streaming u) :
    Base t ∧ Streaming t := by
  rw [h.eq]
  exact ⟨{ hb with }, { hs with shape := hs.shape.imp fun _ h => { h with } }⟩

theorem claim_books (hb : Base s) (hs : Streaming s) (hd : s.disputed = false)
    (h : Booked (settledBooks s) u) : Base u ∧ Streaming u :=
  let hbooks := settledBooks_invariant hb hs hd
  booked_invariant h hbooks.1 hbooks.2

theorem claimCap_le (hs : Streaming u) : claimCap u ≤ u.fundedTokens := by
  have hpend := hs.pend_le_funded
  unfold claimCap
  split
  · exact le_rfl
  split
  · exact hpend
  · exact min_le_right _ _

theorem claimCap_quota (hsub : u.subWeeks ≠ 0) (hs : Streaming u) :
    claimCap u ≤ max tickSize (u.weekBaseTokens + u.tokensPerWeek) := by
  have hquota := hs.quota hsub
  unfold claimCap isSubscription
  split
  · rename_i hc
    simp [hsub] at hc
  split
  · exact hquota
  · exact (min_le_left _ _).trans (le_max_right _ _)

theorem claimed_invariant {n : ℕ} (h : Claimed n s u t) (hb : Base u) (hs : Streaming u)
    (hn : u.tokensPend < n) (hd : u.disputed = false) : Invariant t := by
  have hclaim := hb.claim_le
  have hstart := hb.start_le
  have hdelta := h.delta
  have hrate := h.rate
  have hold := hs.rate
  have hfinal := hs.tick_le_final
  have hpend := hs.final_le_pend
  rw [h.eq]
  refine ⟨?_, .inr (.inr ?_)⟩
  · exact { hb with
      start_le := hstart.trans hclaim
      claim_le := le_rfl }
  · exact { hs with
      shape := hs.shape.imp fun _ h => { h with }
      tick_le_final := hfinal.trans hpend
      final_le_pend := hn.le
      pend_le_funded := h.below_cap.trans (claimCap_le hs)
      slot := by
        unfold maxClaimDelta at hdelta
        dsimp only
        omega
      rate := by
        have hsplit : n - tickSize = (n - u.tokensPend) + (u.tokensPend - tickSize) := by omega
        have htime : u.now - u.periodStart =
            (u.now - u.lastClaimTime) + (u.lastClaimTime - u.periodStart) := by omega
        dsimp only
        rw [hsplit, htime, Nat.add_mul, Nat.add_mul]
        exact Nat.add_le_add hrate hold
      base_pos := fun hne => by
        have := hs.base_pos hne
        dsimp only
        omega
      quota := fun hsub => h.below_cap.trans (claimCap_quota hsub hs)
      claim_le := by simp [hd]
      now_le := by simp [hd]
      week_le := by simp [hd] }

theorem Base.promote_lt (hb : Base s) : s.lastClaimTime + claimPromoteWindow < u64 := by
  have h1 := hb.claim_le
  have h2 := hb.clock
  unfold u64 claimPromoteWindow minSecondsPerTick
  omega

theorem Base.start_le_now (hb : Base s) : s.periodStart ≤ s.now := hb.start_le.trans hb.claim_le

theorem promoted_invariant (hb : Base s) (hs : Streaming s) :
    Invariant { s with tokensFinal := s.tokensPend } := by
  have h1 := hs.tick_le_final
  have h2 := hs.final_le_pend
  refine ⟨{ hb with }, .inr (.inr ?_)⟩
  exact { hs with
    shape := hs.shape.imp fun _ h => { h with }
    tick_le_final := h1.trans h2
    final_le_pend := le_rfl
    slot := Nat.le_add_right _ _ }

theorem Invariant.streaming_of_pending (h : Invariant s) (hp : s.tokensFinal < s.tokensPend) :
    Streaming s := by
  rcases h.stage with hi | ht | hs
  · rw [hi.tokensPend] at hp
    omega
  · rw [ht.tokensPend] at hp
    omega
  · exact hs

theorem dispute_invariant (h : Invariant s) (hok : dispute m s = .ok t) : Invariant t := by
  obtain ⟨-, ho, hd, -, heq⟩ := dispute_ok hok
  have hb := h.base
  rcases h.stage with hi | ht | hs
  · rw [hi.closed] at ho
    cases ho
  · rw [heq]
    refine ⟨{ hb with ever := rfl }, .inr (.inl ?_)⟩
    exact { ht with
      shape := ht.shape.imp fun _ h => { h with }
      claim_le := fun _ => hb.claim_le
      now_le := fun _ => le_rfl
      week_le := fun _ => by simp [ht.weekIndex] }
  · rw [heq]
    refine ⟨{ hb with ever := rfl }, .inr (.inr ?_)⟩
    exact { hs with
      shape := hs.shape.imp fun _ h => { h with }
      claim_le := fun _ => hb.claim_le
      now_le := fun _ => le_rfl
      week_le := fun _ => hs.elapsed }

theorem Invariant.streaming_of_owed (h : Invariant s) (ho : 0 < s.finalizedOwed) :
    Streaming s := by
  rcases h.stage with hi | ht | hs
  · rw [hi.finalizedOwed] at ho
    omega
  · rw [ht.finalizedOwed] at ho
    omega
  · exact hs

theorem drawn_invariant {amount : ℕ} (h : Invariant s) (hpos : 0 < amount)
    (howed : amount ≤ s.finalizedOwed) (hbal : amount ≤ s.balance) :
    Invariant (drawn amount s) := by
  have hs := h.streaming_of_owed (hpos.trans_le howed)
  have hb := h.base
  have hcov := hb.covered
  have hlt := hb.balance_lt
  unfold Deal.earmarks at hcov
  rw [drawn_eq hbal]
  refine ⟨?_, .inr (.inr { hs with shape := hs.shape.imp fun _ h => { h with } })⟩
  exact { hb with
    covered := by
      unfold Deal.earmarks
      dsimp only
      omega
    balance_lt := by
      dsimp only
      omega }

/-! ## Every call -/

theorem settledBooks_spec (hb : Base s) (hs : Streaming s) :
    ∃ c d o f p b, settledBooks s = { s with
        clamped := c, deposit := d, finalizedOwed := o, feeAccrued := f
        tokensPaid := p, weekIndex := s.weekIndex + (weeksElapsed s - s.weekIndex)
        weekBaseTokens := b } ∧
      d + o + f = s.deposit + s.finalizedOwed + s.feeAccrued := by
  have h1 := hs.weeks
  have h2 : weeksElapsed s ≤ s.subWeeks := weeksElapsedAt_le _ _
  obtain ⟨c, d, o, f, p, b, heq, hsum, -⟩ := chargeWeeks_spec hb.toBacked
    (Invariant.weekly hb hs) (weeksElapsed s - s.weekIndex) (by omega)
  exact ⟨c, d, o, f, p, b, heq, hsum⟩

theorem claimTokens_invariant {n : ℕ} (h : Invariant s) (hok : claimTokens env n m s = .ok t)
    (hf : t.fault = false) : Invariant t := by
  obtain ⟨-, -, hd, ha, ⟨-, rfl⟩ | ⟨hn, u, hclaim⟩⟩ := claimTokens_ok hok hf h.base.start_le_now
  · exact h
  have hs := h.streaming ha
  obtain ⟨hbu, hsu⟩ := claim_books h.base hs hd hclaim.booked
  obtain ⟨c, d, o, f, p, b, heq, -⟩ := settledBooks_spec h.base hs
  have hsame : u.tokensPend = s.tokensPend ∧ u.disputed = s.disputed := by
    rw [hclaim.booked.eq, heq]
    exact ⟨rfl, rfl⟩
  exact claimed_invariant hclaim hbu hsu (by omega) (by rw [hsame.2, hd])

theorem finalize_invariant (h : Invariant s) (hok : finalize env s = .ok t)
    (hlive : t.destroyed = false) : Invariant t := by
  obtain ⟨-, -, hp, -, rfl | ⟨-, -, rfl⟩⟩ := finalize_ok hok h.base.promote_lt
  · exact promoted_invariant h.base (h.streaming_of_pending hp)
  · rw [payFinalAndClose_destroyed] at hlive
    cases hlive

/-- `settleWeek` on a deal that streams, with the side conditions of its inversion discharged. -/
theorem settleWeek_inv (h : Invariant s) (hok : settleWeek env s = .ok t) :
    s.subWeeks ≠ 0 ∧ Streaming s ∧ s.disputed = false ∧
    (s.weekIndex < weeksElapsed s ∨ s.subWeeks ≤ s.weekIndex) ∧
    ∃ u, Booked (settledBooks s) u ∧ Base u ∧ Streaming u ∧
      (t = u ∧ ¬ (u.subWeeks ≤ u.weekIndex ∧ u.lastClaimTime + claimPromoteWindow ≤ u.now) ∨
        u.subWeeks ≤ u.weekIndex ∧ u.lastClaimTime + claimPromoteWindow ≤ u.now ∧
        t = payFinalAndClose env { u with tokensFinal := u.tokensPend }) := by
  have ha : s.probeAccepted = true := by
    simp only [settleWeek, require_bind_ok] at hok
    exact hok.2.2.1
  have hs := h.streaming ha
  have hkeep : (settledBooks s).lastClaimTime = s.lastClaimTime := by
    obtain ⟨c, d, o, f, p, b, heq, -⟩ := settledBooks_spec h.base hs
    rw [heq]
  obtain ⟨hsub, -, hd, -, hg, u, hu, hcase⟩ :=
    settleWeek_ok hok h.base.start_le_now h.base.promote_lt hkeep
  obtain ⟨hbu, hsu⟩ := claim_books h.base hs hd hu
  rw [max_eq_right hsu.final_le_pend] at hcase
  exact ⟨hsub, hs, hd, hg, u, hu, hbu, hsu, hcase⟩

theorem settleWeek_invariant (h : Invariant s) (hok : settleWeek env s = .ok t)
    (hlive : t.destroyed = false) : Invariant t := by
  obtain ⟨-, -, -, -, u, -, hbu, hsu, ⟨rfl, -⟩ | ⟨-, -, rfl⟩⟩ := settleWeek_inv h hok
  · exact ⟨hbu, .inr (.inr hsu)⟩
  · rw [payFinalAndClose_destroyed] at hlive
    cases hlive

theorem withdrawShell_invariant {amount : ℕ} (h : Invariant s)
    (hok : withdrawShell amount m s = .ok t) (hlive : t.destroyed = false) : Invariant t := by
  obtain ⟨hpos, howed, hbal, rfl | ⟨-, -, rfl⟩⟩ := withdrawShell_ok hok
  · exact drawn_invariant h hpos howed hbal
  · rw [sweepAndDie_destroyed] at hlive
    cases hlive

theorem exec_ok {tx : Tx} (h : exec env tx s = .ok t) :
    s.destroyed = false ∧ dispatch env tx.msg (enter tx.msg s) tx.call = .ok t ∧
      t.fault = false := by
  unfold exec perform at h
  cases hd : s.destroyed with
  | true => simp [hd] at h
  | false =>
    simp only [hd, Bool.false_eq_true, if_false] at h
    cases hp : dispatch env tx.msg (enter tx.msg s) tx.call with
    | error e => simp [hp] at h
    | ok v =>
      rw [hp] at h
      dsimp only at h
      split at h
      · cases h
      · rename_i hf
        simp only [Except.ok.injEq] at h
        subst h
        exact ⟨rfl, rfl, by simpa using hf⟩

/-- The calls that always end the deal. -/
theorem ending_call (hok : dispatch env m s c = .ok t)
    (hc : c = .stop ∨ c = .sellerStop ∨ c = .releaseDispute ∨ c = .resolveDisputeTimeout ∨
      c = .destroy ∨ c = .close) : t.destroyed = true := by
  rcases hc with rfl | rfl | rfl | rfl | rfl | rfl
  · simp only [dispatch, stop, require_bind_ok, pure_ok, Except.ok.injEq] at hok
    obtain ⟨-, -, -, rfl⟩ := hok
    unfold stopBody
    split
    · rfl
    · rfl
  · simp only [dispatch, sellerStop, require_bind_ok, pure_ok, Except.ok.injEq] at hok
    obtain ⟨-, -, -, rfl⟩ := hok
    rfl
  · simp only [dispatch, releaseDispute, require_bind_ok, pure_ok, Except.ok.injEq] at hok
    obtain ⟨-, -, rfl⟩ := hok
    unfold releaseDisputeBody
    dsimp only
    split
    · rfl
    · rfl
  · simp only [dispatch, resolveDisputeTimeout, require_bind_ok, pure_ok, Except.ok.injEq] at hok
    obtain ⟨-, -, rfl⟩ := hok
    unfold resolveDisputeTimeoutBody
    dsimp only
    split
    · rfl
    · rfl
  · simp only [dispatch, destroy, require_bind_ok, pure_ok, Except.ok.injEq] at hok
    obtain ⟨-, -, -, -, rfl⟩ := hok
    rfl
  · simp only [dispatch, close, require_bind_ok, pure_ok, Except.ok.injEq] at hok
    obtain ⟨-, -, -, rfl⟩ := hok
    rfl

theorem dispatch_invariant {c : Call} (h : Invariant s) (hok : dispatch env m s c = .ok t)
    (hf : t.fault = false) (hlive : t.destroyed = false) : Invariant t := by
  have hend := ending_call hok
  rw [hlive] at hend
  cases c with
  | fundFromOrderBook p b k f =>
    rcases fundFromOrderBook_ok hok hf with hr | ⟨-, hfill⟩
    · exact h.relisted hr
    · exact filled_invariant h hfill
  | postFromNote a b c d e => exact h.relisted (postFromNote_ok hok)
  | onSellClosed => exact h.relisted (onSellClosed_ok hok)
  | close => simp at hend
  | fundDeal a c => exact fundDeal_invariant h hok hf
  | fundBuyerBond a => exact fundBuyerBond_invariant h hok hf
  | openDeal c => exact openDeal_invariant h hok
  | acceptProbe => exact acceptProbe_invariant h hok hf
  | claimTokens n => exact claimTokens_invariant h hok hf
  | finalize => exact finalize_invariant h hok hlive
  | settleWeek => exact settleWeek_invariant h hok hlive
  | stop => simp at hend
  | sellerStop => simp at hend
  | dispute => exact dispute_invariant h hok
  | releaseDispute => simp at hend
  | resolveDisputeTimeout => simp at hend
  | cleanupUnopened => exact cleanupUnopened_invariant h hok
  | withdrawShell a => exact withdrawShell_invariant h hok hlive
  | destroy => simp at hend
  | touchDeal => exact h.relisted (touchDeal_ok hok)

theorem constructed_invariant (h : Constructed env s) : Invariant s := by
  obtain ⟨m, a, hclock, h⟩ := h
  simp only [construct, require_bind_ok, pure_ok, Except.ok.injEq] at h
  obtain ⟨-, -, hpos, htwo, -, hcap, -, -, rfl⟩ := h
  refine ⟨?_, .inl ?_⟩
  · constructor
    · exact ⟨Nat.le_refl 0, by simp [Deal.send, u128]⟩
    · exact hpos
    · exact htwo
    · exact hcap
    · rfl
    · exact .inl rfl
    · exact hclock
    · exact Nat.zero_le _
    · exact le_rfl
    · exact Nat.zero_le _
    · rfl
  · exact ⟨⟨rfl, rfl, rfl, rfl, rfl, rfl, rfl, rfl⟩, rfl, rfl, rfl, fun _ => rfl,
      fun hf => by simp [Deal.send] at hf⟩

theorem exec_invariant {tx : Tx} (h : Invariant s) (ha : Admissible s tx)
    (hok : exec env tx s = .ok t) (hlive : t.destroyed = false) : Invariant t := by
  obtain ⟨-, hd, hf⟩ := exec_ok hok
  exact dispatch_invariant (h.enter ha.later ha.clock) hd hf hlive

theorem reachable_invariant {Φ : Deal → Tx → Prop} (h : Reachable env Φ s)
    (hlive : s.destroyed = false) : Invariant s := by
  revert hlive
  refine TransactionSystem.Reachable.invariant (I := fun s => s.destroyed = false → Invariant s)
    (fun s h _ => constructed_invariant h) ?_ h
  intro s a t ih hΦ hok hlive
  exact exec_invariant (ih (exec_ok hok).1) hΦ.1 hok hlive

/-! ## A deployment to play schedules on -/

def sampleEnv : Env := ⟨fun _ => 7, fun _ _ _ => 9, fun _ => 5⟩

def sampleArgs : CtorArgs :=
  { sellerPubkey := 1, rootModelAddress := 3, nonce := 0, modelName := "m", modelHash := 5
    pricePerTick := 10 ^ 9, maxTicks := 8, sellerNote := 7, depositIdentifierHash := 0 }

def sampleDeal : Deal :=
  (({ sellerPubkey := 1, rootModelAddress := 3, nonce := 0, modelName := "m", modelHash := 5
      pricePerTick := 10 ^ 9, maxTicks := 8, sellerNote := 7, now := 0 } : Deal).send
    .contractDeployed).send (.registerTokenContract 3)

theorem sampleDeal_constructed : Constructed sampleEnv sampleDeal := by
  refine ⟨{ sender := 7, pubkey := 0, now := 0 }, sampleArgs, by decide, ?_⟩
  simp only [construct, require_bind_ok]
  exact ⟨rfl, rfl, by decide, by decide, by decide, by decide,
    by decide, rfl, rfl⟩

def noteTx (now : ℕ) (c : Call) : Tx := ⟨{ sender := 7, pubkey := 0, now := now }, c⟩
def sellerTx (now : ℕ) (c : Call) : Tx := ⟨{ sender := 0, pubkey := 1, now := now }, c⟩
def bookTx (now : ℕ) (c : Call) : Tx := ⟨{ sender := 9, pubkey := 0, now := now }, c⟩
def buyerTx (now : ℕ) (c : Call) : Tx := ⟨{ sender := 8, pubkey := 0, now := now }, c⟩
def strangerTx (now : ℕ) (c : Call) : Tx := ⟨{ sender := 99, pubkey := 0, now := now }, c⟩

def played (Φ : Deal → Tx → Prop) [∀ s tx, Decidable (Φ s tx)] (l : List Tx) : Option Deal :=
  TransactionSystem.play (exec sampleEnv) (fun s tx => Admissible s tx ∧ Φ s tx) l sampleDeal

theorem played_reachable {Φ : Deal → Tx → Prop} [∀ s tx, Decidable (Φ s tx)] {l : List Tx}
    {p : Deal → Bool} (h : (played Φ l).any p = true) :
    ∃ s, Reachable sampleEnv Φ s ∧ p s = true := by
  obtain ⟨s, hs, hp⟩ := (Option.any_eq_true _ _).mp h
  exact ⟨s, (TransactionSystem.Reachable.start sampleDeal_constructed).play hs, hp⟩

/-- An ordinary deal of four ticks, matched, bonded, opened and past its trial. -/
def openedSchedule : List Tx :=
  [noteTx 10 (.postFromNote 1 1 0 0 0), bookTx 20 (.fundFromOrderBook 4100000000 8 4 0),
    buyerTx 30 (.fundBuyerBond 2000000000), noteTx 31 (.fundDeal 2000000000 none),
    sellerTx 40 (.openDeal [1]), sellerTx 300 .acceptProbe]

def subscribedSchedule : List Tx :=
  [noteTx 10 (.postFromNote 1 1 0 0 0), bookTx 20 (.fundFromOrderBook 10200000000 8 4 0x40),
    noteTx 31 (.fundDeal 2000000000 none), sellerTx 40 (.openDeal [1]),
    sellerTx 300 .acceptProbe]

end TokenContractInvariant
