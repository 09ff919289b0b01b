import Dexdo.TokenContractPayouts

/-! # What an accepted call leaves behind

One inversion lemma for each call that can leave the deal alive: the guards it met and the
record it produced. Later proofs use these and never unfold a call. -/
namespace TokenContractSteps

open TokenContractState TokenContractCalls TokenContractCharges TokenContractPayouts

variable {E : Env} {m : Msg} {s t u : Deal}

/-- No credit to the parties, no write-off and no withdrawal between `s` and `t`. -/
structure Quiet (s t : Deal) : Prop where
  buyer : t.credited .buyer = s.credited .buyer
  seller : t.credited .seller = s.credited .seller
  residual : t.credited .residual = s.credited .residual
  burned : t.burned = s.burned
  withdrawn : t.withdrawn = s.withdrawn

theorem Quiet.refl (s : Deal) : Quiet s s := ⟨rfl, rfl, rfl, rfl, rfl⟩

theorem Quiet.trans (h : Quiet s t) (h' : Quiet t u) : Quiet s u :=
  ⟨h'.buyer.trans h.buyer, h'.seller.trans h.seller, h'.residual.trans h.residual,
    h'.burned.trans h.burned, h'.withdrawn.trans h.withdrawn⟩

structure Relisted (s t : Deal) : Prop extends Quiet s t where
  eq : t = { s with
    iobHash := t.iobHash, iobDepth := t.iobDepth, noteAuthorized := t.noteAuthorized
    offerPosted := t.offerPosted, out := t.out }

/-! ## Listing and funding -/

theorem postFromNote_ok {a b c d e : ℕ} (h : postFromNote E a b c d e m s = .ok t) :
    Relisted s t := by
  simp only [postFromNote, require_bind_ok] at h
  obtain ⟨-, -, h⟩ := h
  split at h <;> simp only [pure_ok, Except.ok.injEq, Deal.send] at h <;> subst h
  · exact ⟨⟨rfl, rfl, rfl, rfl, rfl⟩, rfl⟩
  · refine ⟨⟨?_, ?_, ?_, ?_, ?_⟩, rfl⟩ <;>
      simp [Deal.credited, Deal.burned, Deal.withdrawn, creditOf, writeOffOf, withdrawalOf]

theorem onSellClosed_ok (h : onSellClosed E m s = .ok t) : Relisted s t := by
  unfold onSellClosed at h
  split at h
  · simp only [pure_ok, Except.ok.injEq] at h
    subst h
    exact ⟨.refl s, rfl⟩
  split at h
  · simp only [pure_ok, Except.ok.injEq] at h
    subst h
    exact ⟨.refl s, rfl⟩
  · simp only [pure_ok, Except.ok.injEq] at h
    subst h
    exact ⟨⟨rfl, rfl, rfl, rfl, rfl⟩, rfl⟩

theorem touchDeal_ok (h : touchDeal m s = .ok t) : Relisted s t := by
  simp only [touchDeal, require_bind_ok, pure_ok, Except.ok.injEq] at h
  obtain ⟨-, rfl⟩ := h
  exact ⟨.refl s, rfl⟩

/-- The fill a deal keeps: its guards and the record it starts the trial from. -/
structure Filled (paid : ℕ) (buyerNote : Address) (buyerPubkey dealFlags : ℕ) (s t : Deal) :
    Prop extends Quiet s t where
  unfunded : s.funded = false
  bond_le : fillBond dealFlags s.pricePerTick ≤ paid
  low : 2 * unit s.pricePerTick ≤ paid - fillBond dealFlags s.pricePerTick
  high : paid - fillBond dealFlags s.pricePerTick ≤ s.maxTicks * unit s.pricePerTick
  balance_lt : s.balance + paid < u128
  tokens_lt : (paid - fillBond dealFlags s.pricePerTick) / unit s.pricePerTick * tickSize < u128
  eq : t = { s with
    balance := s.balance + paid
    buyerBond := fillBond dealFlags s.pricePerTick
    buyerBondFunded := s.buyerBondFunded || decide (fillBond dealFlags s.pricePerTick > 0)
    buyer := buyerNote, buyerPubkey := buyerPubkey
    deposit := paid - fillBond dealFlags s.pricePerTick
    funded := true, offerPosted := false, fundedTime := s.now
    dealFlags := dealFlags
    subWeeks := if dealFlags &&& flagSubscription ≠ 0 then subWeeksConst else 0
    weekIndex := 0, periodStart := s.now, lastClaimTime := s.now
    tokensPerWeek :=
      if (if dealFlags &&& flagSubscription ≠ 0 then subWeeksConst else 0) = 0 then
        (paid - fillBond dealFlags s.pricePerTick) / unit s.pricePerTick * tickSize
      else (paid - fillBond dealFlags s.pricePerTick) / unit s.pricePerTick * tickSize /
        (if dealFlags &&& flagSubscription ≠ 0 then subWeeksConst else 0)
    fundedTokens := (paid - fillBond dealFlags s.pricePerTick) / unit s.pricePerTick * tickSize
    out := t.out }

theorem fundFromOrderBook_ok {paid : ℕ} {b : Address} {k f : ℕ}
    (h : fundFromOrderBook E paid b k f m s = .ok t) (hf : t.fault = false) :
    Relisted s t ∨ (m.sender = orderBook E s ∧ Filled paid b k f s t) := by
  unfold fundFromOrderBook at h
  split at h
  · simp only [pure_ok, Except.ok.injEq] at h
    subst h
    exact .inl ⟨.refl s, rfl⟩
  simp only [require_bind_ok] at h
  obtain ⟨-, h⟩ := h
  split at h
  · simp only [pure_ok, Except.ok.injEq] at h
    subst h
    exact .inl ⟨.refl s, rfl⟩
  rename_i hsender
  split at h
  · -- refused: the figure enters the record and leaves it again
    simp only [acceptHandover, payShell, Deal.check, Deal.send, Deal.sendIf, pure_ok,
      Except.ok.injEq] at h
    subst h
    left
    simp only [Nat.add_sub_cancel, Bool.or_eq_false_iff, Bool.not_eq_false',
      decide_eq_true_eq] at hf ⊢
    refine ⟨⟨?_, ?_, ?_, ?_, ?_⟩, ?_⟩
    iterate 5 simp [Deal.credited, Deal.burned, Deal.withdrawn, creditOf, writeOffOf, withdrawalOf]
    obtain ⟨⟨⟨hs, h1⟩, h2⟩, h3⟩ := hf
    simp [hs, h1, h2]
  · rename_i hkeep
    push Not at hkeep
    simp only [require_bind_ok, acceptFill, recordFunding, recordDealShape, acceptHandover,
      Deal.check, Deal.send, pure_ok, Except.ok.injEq] at h
    obtain ⟨hlow, hhigh, h⟩ := h
    subst h
    right
    simp only [Bool.or_eq_false_iff, Bool.not_eq_false', decide_eq_true_eq] at hf
    obtain ⟨⟨⟨hs, h1⟩, h2⟩, h3⟩ := hf
    refine ⟨by simpa using hsender, ⟨?_, ?_, ?_, ?_, ?_⟩, by simpa using hkeep.1, hkeep.2.1,
      hlow, hhigh, h1, of_decide_eq_true h3, ?_⟩
    iterate 5 simp [Deal.credited, Deal.burned, Deal.withdrawn, creditOf, writeOffOf, withdrawalOf]
    simp [hs, h1, h2, h3]

/-- A bond entered: what both bond calls leave behind. -/
theorem fundDeal_ok {amount : ℕ} {c : Option Bytes} (h : fundDeal amount c m s = .ok t)
    (hf : t.fault = false) :
    s.opened = false ∧ s.sellerBondFunded = false ∧ s.balance + amount < u128 ∧
    bondAmount s.pricePerTick ≤ amount ∧ Quiet s t ∧
    t = { s with
      balance := s.balance + bondAmount s.pricePerTick
      sellerBond := bondAmount s.pricePerTick, sellerBondFunded := true
      endpointCipher := t.endpointCipher, out := t.out } := by
  simp only [fundDeal, require_bind_ok] at h
  obtain ⟨-, ho, hb, -, hle, h⟩ := h
  have hback : s.balance + amount - (amount - bondAmount s.pricePerTick) =
      s.balance + bondAmount s.pricePerTick := by omega
  cases c with
  | none =>
    simp only [takeSellerBond, payShell, Deal.check, Deal.send, Deal.sendIf, pure_ok,
      Except.ok.injEq] at h
    subst h
    simp only [Bool.or_eq_false_iff, Bool.not_eq_false', decide_eq_true_eq] at hf
    obtain ⟨⟨hs, h1⟩, h2⟩ := hf
    refine ⟨ho, hb, h1.1, hle, ⟨?_, ?_, ?_, ?_, ?_⟩, ?_⟩
    iterate 5 simp [Deal.credited, Deal.burned, Deal.withdrawn, creditOf, writeOffOf, withdrawalOf]
    simp [hs, h1, h2, hback]
  | some c =>
    simp only [takeSellerBond, payShell, Deal.check, Deal.send, Deal.sendIf, pure_ok,
      Except.ok.injEq] at h
    subst h
    simp only [Bool.or_eq_false_iff, Bool.not_eq_false', decide_eq_true_eq] at hf
    obtain ⟨⟨hs, h1⟩, h2⟩ := hf
    refine ⟨ho, hb, h1.1, hle, ⟨?_, ?_, ?_, ?_, ?_⟩, ?_⟩
    iterate 5 simp [Deal.credited, Deal.burned, Deal.withdrawn, creditOf, writeOffOf, withdrawalOf]
    simp [hs, h1, h2, hback]

theorem fundBuyerBond_ok {amount : ℕ} (h : fundBuyerBond amount m s = .ok t)
    (hf : t.fault = false) :
    m.sender = s.buyer ∧ s.opened = false ∧ s.buyerBondFunded = false ∧
    s.balance + amount < u128 ∧ bondAmount s.pricePerTick ≤ amount ∧ Quiet s t ∧
    t = { s with
      balance := s.balance + bondAmount s.pricePerTick
      buyerBond := bondAmount s.pricePerTick, buyerBondFunded := true, out := t.out } := by
  simp only [fundBuyerBond, require_bind_ok] at h
  obtain ⟨hm, ho, hb, -, hle, h⟩ := h
  have hback : s.balance + amount - (amount - bondAmount s.pricePerTick) =
      s.balance + bondAmount s.pricePerTick := by omega
  simp only [takeBuyerBond, payShell, Deal.check, Deal.send, Deal.sendIf, pure_ok,
    Except.ok.injEq] at h
  subst h
  simp only [Bool.or_eq_false_iff, Bool.not_eq_false', decide_eq_true_eq] at hf
  obtain ⟨⟨hs, h1⟩, h2⟩ := hf
  refine ⟨hm, ho, hb, h1.1, hle, ⟨?_, ?_, ?_, ?_, ?_⟩, ?_⟩
  iterate 5 simp [Deal.credited, Deal.burned, Deal.withdrawn, creditOf, writeOffOf, withdrawalOf]
  simp [hs, h1, h2, hback]

/-! ## Trial -/

theorem openDeal_ok {c : Bytes} (h : openDeal c m s = .ok t) :
    s.funded = true ∧ s.opened = false ∧ s.sellerBondFunded = true ∧ s.buyerBondFunded = true ∧
    s.pricePerTick ≤ s.deposit ∧ Quiet s t ∧
    t = { s with
      probeTick := s.pricePerTick, deposit := s.deposit - s.pricePerTick
      probeAccepted := false, probeTime := s.now, lastClaimTime := s.now
      opened := true, everOpened := true
      endpointCipher := t.endpointCipher, out := t.out } := by
  simp only [openDeal, require_bind_ok] at h
  obtain ⟨-, hfu, ho, hsb, hbb, hd, h⟩ := h
  simp only [freezeProbe, Deal.send, pure_ok, Except.ok.injEq] at h
  subst h
  refine ⟨hfu, ho, hsb, hbb, hd, ⟨?_, ?_, ?_, ?_, ?_⟩, rfl⟩
  all_goals simp [Deal.credited, Deal.burned, Deal.withdrawn, creditOf, writeOffOf, withdrawalOf]

theorem acceptProbe_ok (h : acceptProbe m s = .ok t) (hf : t.fault = false) :
    s.opened = true ∧ s.disputed = false ∧ s.probeAccepted = false ∧
    s.probeTime + probeWindow ≤ s.now ∧ Quiet s t ∧
    t = { s with
      finalizedOwed := s.finalizedOwed + s.probeTick
      feeAccrued := s.feeAccrued +
        (if fee s.pricePerTick > s.deposit then s.deposit else fee s.pricePerTick)
      deposit := s.deposit -
        (if fee s.pricePerTick > s.deposit then s.deposit else fee s.pricePerTick)
      probeTick := 0, probeAccepted := true, periodStart := s.now
      tokensPaid := tickSize, tokensFinal := tickSize, tokensPend := tickSize
      weekBaseTokens := 0, ticksFinalized := 1, lastClaimTime := s.now, out := t.out } := by
  simp only [acceptProbe, require_bind_ok] at h
  obtain ⟨-, ho, hd, ha, hw, h⟩ := h
  simp only [takeProbe, Deal.check, Deal.send, pure_ok, Except.ok.injEq] at h
  subst h
  simp only [Bool.or_eq_false_iff, Bool.not_eq_false', decide_eq_true_eq] at hf
  obtain ⟨⟨hs, h1⟩, h2⟩ := hf
  refine ⟨ho, hd, ha, hw, ⟨?_, ?_, ?_, ?_, ?_⟩, ?_⟩
  iterate 5 simp [Deal.credited, Deal.burned, Deal.withdrawn, creditOf, writeOffOf, withdrawalOf]
  simp only [hs, h1, decide_true, Bool.not_true, Bool.or_false, of_decide_eq_true h2]
  simp

theorem dispute_ok (h : dispute m s = .ok t) :
    m.sender = s.buyer ∧ s.opened = true ∧ s.disputed = false ∧ Quiet s t ∧
    t = { s with disputed := true, everDisputed := true, disputeTime := s.now, out := t.out } := by
  simp only [dispute, require_bind_ok, Deal.send, pure_ok, Except.ok.injEq] at h
  obtain ⟨ho, hm, hd, h⟩ := h
  subst h
  refine ⟨hm, ho, hd, ⟨?_, ?_, ?_, ?_, ?_⟩, rfl⟩
  all_goals simp [Deal.credited, Deal.burned, Deal.withdrawn, creditOf, writeOffOf, withdrawalOf]

/-! ## The weekly books -/

/-- The books brought up to the clock, as every claim and `settleWeek` bring them. The loop runs
zero times where no boundary passed, and on an ordinary deal. -/
def settledBooks (s : Deal) : Deal := chargeWeek^[weeksElapsed s - s.weekIndex] s

theorem weeksElapsedAt_le (ts : ℕ) (s : Deal) : weeksElapsedAt ts s ≤ s.subWeeks :=
  min_le_right _ _

theorem chargeWeeksThrough_eq (ha : s.probeAccepted = true) {target : ℕ}
    (ht : target ≤ s.subWeeks) :
    chargeWeeksThrough target s = chargeWeek^[target - s.weekIndex] s := by
  unfold chargeWeeksThrough isSubscription
  by_cases hz : s.subWeeks = 0
  · have hzero : target - s.weekIndex = 0 := by omega
    simp [hz, hzero]
  · simp [hz, ha]

/-- The books moved as `u` says, with the delivered mark and the outgoing traffic beside them. -/
structure Booked (u t : Deal) : Prop extends Quiet u t where
  eq : t = { u with ticksFinalized := t.ticksFinalized, out := t.out }

theorem settleBoundaries_booked (ha : s.probeAccepted = true) :
    Booked (settledBooks s) (settleBoundaries E (weeksElapsed s) s) := by
  unfold settleBoundaries
  by_cases hdue : weeksElapsed s ≤ s.weekIndex
  · have hbooks : settledBooks s = s := by
      unfold settledBooks
      rw [Nat.sub_eq_zero_of_le hdue]
      rfl
    rw [if_pos hdue, hbooks]
    exact ⟨.refl s, rfl⟩
  · have hbooks : chargeWeeksThrough (weeksElapsed s) s = settledBooks s :=
      chargeWeeksThrough_eq ha (weeksElapsedAt_le _ _)
    rw [if_neg hdue]
    simp only [hbooks]
    refine ⟨⟨?_, ?_, ?_, ?_, ?_⟩, rfl⟩
    all_goals simp [reportFinalized, recordDelivered, Deal.send, Deal.sendIf, Deal.credited,
      Deal.burned, Deal.withdrawn, creditOf, writeOffOf, withdrawalOf]

/-- A claim above the record: what it demanded of the settled books `u`, and what it wrote. -/
structure Claimed (n : ℕ) (s u t : Deal) : Prop where
  booked : Booked (settledBooks s) u
  fits : u.weekBaseTokens + u.tokensPerWeek < u128
  below_cap : n ≤ claimCap u
  interval : minClaimInterval ≤ u.now - u.lastClaimTime
  delta : n - u.tokensPend ≤ maxClaimDelta
  rate : (n - u.tokensPend) * minSecondsPerTick ≤ (u.now - u.lastClaimTime) * tickSize
  quiet : Quiet u t
  eq : t = { u with
    tokensFinal := u.tokensPend, tokensPend := n, lastClaimTime := u.now, out := t.out }

theorem promoteDue_eq (h : s.lastClaimTime + claimPromoteWindow < u64) :
    promoteDue s = { s with
      tokensFinal := if s.lastClaimTime + claimPromoteWindow ≤ s.now then
        max s.tokensFinal s.tokensPend else s.tokensFinal } := by
  unfold promoteDue
  simp only [Deal.check_pass h, ge_iff_le]
  split
  · have hmax : (if s.tokensPend > s.tokensFinal then s.tokensPend else s.tokensFinal) =
        max s.tokensFinal s.tokensPend := by
      split <;> omega
    simp only [promote, hmax]
  · rfl

theorem promoteDue_fault :
    (promoteDue s).fault = (s.fault || !decide (s.lastClaimTime + claimPromoteWindow < u64)) := by
  have heq : promoteDue s = if s.now ≥ s.lastClaimTime + claimPromoteWindow then
      promote (s.check (s.lastClaimTime + claimPromoteWindow < u64))
      else s.check (s.lastClaimTime + claimPromoteWindow < u64) := rfl
  rw [heq]
  split <;> rfl

theorem claimTokens_ok {n : ℕ} (h : claimTokens E n m s = .ok t) (hf : t.fault = false)
    (hstart : s.periodStart ≤ s.now) :
    m.pubkey = s.sellerPubkey ∧ s.opened = true ∧ s.disputed = false ∧ s.probeAccepted = true ∧
    (n = s.tokensPend ∧ t = s ∨ s.tokensPend < n ∧ ∃ u, Claimed n s u t) := by
  simp only [claimTokens, require_bind_ok] at h
  obtain ⟨hk, ho, hd, ha, hn, h⟩ := h
  refine ⟨hk, ho, hd, ha, ?_⟩
  split at h
  · rename_i heq
    simp only [pure_ok, Except.ok.injEq] at h
    exact .inl ⟨heq, h.symm⟩
  rename_i hne
  have hbooked := settleBoundaries_booked (E := E) ha
  simp only [settleToClock, Deal.check_pass hstart] at h
  generalize settleBoundaries E (weeksElapsed s) s = u at h hbooked
  simp only [claimAbove, require_bind_ok, pure_ok, Except.ok.injEq] at h
  obtain ⟨hcap, hint, hdelta, hrate, hslot, h⟩ := h
  -- the call committed, so the checks on the settled books held
  have hfault : (promoteDue (u.check (u.weekBaseTokens + u.tokensPerWeek < u128 ∧
      u.lastClaimTime ≤ u.now))).fault = false := by
    rw [← hf, ← h]
    rfl
  rw [promoteDue_fault] at hfault
  simp only [Deal.check, Bool.or_eq_false_iff, Bool.not_eq_false', decide_eq_true_eq] at hfault
  obtain ⟨⟨-, hchk⟩, hwin⟩ := hfault
  rw [Deal.check_pass hchk] at hcap hint hdelta hrate hslot h
  rw [promoteDue_eq (of_decide_eq_true hwin)] at hslot h
  have hout : Quiet u t := by
    subst h
    refine ⟨?_, ?_, ?_, ?_, ?_⟩ <;> simp [recordClaim, Deal.send, Deal.credited, Deal.burned,
      Deal.withdrawn, creditOf, writeOffOf, withdrawalOf]
  refine .inr ⟨by omega, u, hbooked, hchk.1, hcap, hint, hdelta, hrate, hout, ?_⟩
  subst h
  simp only [recordClaim, Deal.send] at hslot ⊢
  simp only [← hslot]

/-- A claim above the record that meets the settled books is accepted. -/
theorem claimTokens_of_books {n : ℕ} (hk : m.pubkey = s.sellerPubkey) (ho : s.opened = true)
    (hd : s.disputed = false) (ha : s.probeAccepted = true) (hn : s.tokensPend < n)
    (hstart : s.periodStart ≤ s.now) (hf : (settledBooks s).fault = false)
    (hle : (settledBooks s).tokensFinal ≤ (settledBooks s).tokensPend)
    (hclaim : (settledBooks s).lastClaimTime ≤ (settledBooks s).now)
    (hwin : (settledBooks s).lastClaimTime + claimPromoteWindow < u64)
    (hfits : (settledBooks s).weekBaseTokens + (settledBooks s).tokensPerWeek < u128)
    (hcap : n ≤ claimCap (settledBooks s))
    (hint : minClaimInterval ≤ (settledBooks s).now - (settledBooks s).lastClaimTime)
    (hdelta : n - (settledBooks s).tokensPend ≤ maxClaimDelta)
    (hrate : (n - (settledBooks s).tokensPend) * minSecondsPerTick ≤
      ((settledBooks s).now - (settledBooks s).lastClaimTime) * tickSize) :
    ∃ t, claimTokens E n m s = .ok t ∧ t.fault = false := by
  have hbooked := (settleBoundaries_booked (E := E) ha).eq
  have hclock : settleToClock E s = (settleBoundaries E (weeksElapsed s) s).check
      ((settleBoundaries E (weeksElapsed s) s).weekBaseTokens +
        (settleBoundaries E (weeksElapsed s) s).tokensPerWeek < u128 ∧
      (settleBoundaries E (weeksElapsed s) s).lastClaimTime ≤
        (settleBoundaries E (weeksElapsed s) s).now) := by
    simp only [settleToClock, Deal.check_pass hstart]
  generalize settleBoundaries E (weeksElapsed s) s = u at hbooked hclock
  have hu : u.tokensFinal = (settledBooks s).tokensFinal ∧
      u.tokensPend = (settledBooks s).tokensPend ∧
      u.lastClaimTime = (settledBooks s).lastClaimTime ∧ u.now = (settledBooks s).now ∧
      u.weekBaseTokens = (settledBooks s).weekBaseTokens ∧
      u.tokensPerWeek = (settledBooks s).tokensPerWeek ∧ u.fault = (settledBooks s).fault ∧
      claimCap u = claimCap (settledBooks s) := by
    rw [hbooked]
    exact ⟨rfl, rfl, rfl, rfl, rfl, rfl, rfl, rfl⟩
  obtain ⟨hfin, hpend, hlast, hnow, hbase, hweek, hfault, hroom⟩ := hu
  rw [← hfin, ← hpend] at hle
  rw [← hlast, ← hnow] at hclaim hint hrate
  rw [← hlast] at hwin
  rw [← hbase, ← hweek] at hfits
  rw [← hpend] at hdelta hrate
  rw [← hroom] at hcap
  rw [← hfault] at hf
  have hchk : u.check (u.weekBaseTokens + u.tokensPerWeek < u128 ∧ u.lastClaimTime ≤ u.now) = u :=
    Deal.check_pass ⟨hfits, hclaim⟩
  refine ⟨recordClaim n (promoteDue u), ?_, ?_⟩
  · simp only [claimTokens, require_bind_ok]
    refine ⟨hk, ho, hd, ha, hn.le, ?_⟩
    rw [if_neg (by omega), hclock, hchk]
    simp only [claimAbove, require_bind_ok, pure_ok]
    refine ⟨hcap, hint, hdelta, hrate, ?_, trivial⟩
    rw [promoteDue_eq hwin]
    dsimp only
    rw [if_pos (by unfold minClaimInterval at hint; unfold claimPromoteWindow; omega)]
    omega
  · change (promoteDue u).fault = false
    rw [promoteDue_fault, hf]
    simp [hwin]

/-! ## Promotion and boundaries without a claim -/

theorem finalize_ok (h : finalize E s = .ok t)
    (hwin : s.lastClaimTime + claimPromoteWindow < u64) :
    s.opened = true ∧ s.disputed = false ∧ s.tokensFinal < s.tokensPend ∧
    s.lastClaimTime + claimPromoteWindow ≤ s.now ∧
    (t = { s with tokensFinal := s.tokensPend } ∨
      s.subWeeks = 0 ∧ s.fundedTokens ≤ s.tokensPend ∧
        t = payFinalAndClose E { s with tokensFinal := s.tokensPend }) := by
  simp only [finalize, require_bind_ok] at h
  obtain ⟨ho, hp, h⟩ := h
  have hmax : max s.tokensFinal s.tokensPend = s.tokensPend := max_eq_right hp.1.le
  have hpro : promoteDue s = { s with tokensFinal := s.tokensPend } := by
    rw [promoteDue_eq hwin, if_pos hp.2, hmax]
  rw [hpro] at h
  refine ⟨ho.1, ho.2, hp.1, hp.2, ?_⟩
  split at h
  · rename_i hc
    simp only [isSubscription, Bool.and_eq_true, Bool.not_eq_true', bne_eq_false_iff_eq,
      decide_eq_true_eq] at hc
    simp only [pure_ok, Except.ok.injEq] at h
    exact .inr ⟨hc.1, hc.2, h.symm⟩
  · simp only [pure_ok, Except.ok.injEq] at h
    exact .inl h.symm

theorem settleWeek_ok (h : settleWeek E s = .ok t) (hstart : s.periodStart ≤ s.now)
    (hwin : s.lastClaimTime + claimPromoteWindow < u64)
    (hkeep : (settledBooks s).lastClaimTime = s.lastClaimTime) :
    s.subWeeks ≠ 0 ∧ s.opened = true ∧ s.disputed = false ∧ s.probeAccepted = true ∧
    (s.weekIndex < weeksElapsed s ∨ s.subWeeks ≤ s.weekIndex) ∧
    ∃ u, Booked (settledBooks s) u ∧
      (t = u ∧ ¬ (u.subWeeks ≤ u.weekIndex ∧ u.lastClaimTime + claimPromoteWindow ≤ u.now) ∨
        u.subWeeks ≤ u.weekIndex ∧ u.lastClaimTime + claimPromoteWindow ≤ u.now ∧
        t = payFinalAndClose E
          { u with tokensFinal := max u.tokensFinal u.tokensPend }) := by
  simp only [settleWeek, require_bind_ok] at h
  obtain ⟨hsub, ho, ha, hg, h⟩ := h
  have hbooked := settleBoundaries_booked (E := E) ha
  have hlast : (settleBoundaries E (weeksElapsed s) s).lastClaimTime = s.lastClaimTime := by
    rw [hbooked.eq]
    exact hkeep
  simp only [settleWeekBooks, Deal.check_pass hstart] at h
  generalize settleBoundaries E (weeksElapsed s) s = u at h hbooked hlast
  have hwin' : u.lastClaimTime + claimPromoteWindow < u64 := by rw [hlast]; exact hwin
  have hchk : u.weekIndex ≥ u.subWeeks → u.lastClaimTime + claimPromoteWindow < u64 :=
    fun _ => hwin'
  rw [Deal.check_pass hchk] at h
  refine ⟨by simpa [isSubscription] using hsub, ho.1, ho.2, ha, hg, u, hbooked, ?_⟩
  split at h
  · rename_i hc
    simp only [pure_ok, Except.ok.injEq] at h
    rw [promoteDue_eq hwin', if_pos hc.2] at h
    exact .inr ⟨hc.1, hc.2, h.symm⟩
  · rename_i hc
    simp only [pure_ok, Except.ok.injEq] at h
    exact .inl ⟨h.symm, hc⟩

/-! ## Withdrawal and cleanup -/

def drawn (amount : ℕ) (s : Deal) : Deal :=
  (payShell .seller s.sellerNote amount { s with
    finalizedOwed := s.finalizedOwed - amount }).send (.shellWithdrawn s.sellerNote amount)

theorem drawn_eq {amount : ℕ} (h : amount ≤ s.balance) :
    drawn amount s = { s with
      finalizedOwed := s.finalizedOwed - amount, balance := s.balance - amount
      out := (drawn amount s).out } := by
  have hlow : ¬ s.balance < amount := by omega
  simp [drawn, payShell, Deal.send, Deal.sendIf, hlow]

/-- What a withdrawal adds to the totals. -/
structure Drew (amount : ℕ) (s u : Deal) : Prop where
  buyer : u.credited .buyer = s.credited .buyer
  seller : u.credited .seller = s.credited .seller + amount
  residual : u.credited .residual = s.credited .residual
  burned : u.burned = s.burned
  withdrawn : u.withdrawn = s.withdrawn + amount

theorem drawn_drew (amount : ℕ) (s : Deal) : Drew amount s (drawn amount s) := by
  constructor <;> simp [drawn, payShell, Deal.send, Deal.sendIf, Deal.credited, Deal.burned,
    Deal.withdrawn, creditOf, writeOffOf, withdrawalOf]

theorem withdrawShell_ok {amount : ℕ} (h : withdrawShell amount m s = .ok t) :
    0 < amount ∧ amount ≤ s.finalizedOwed ∧ amount ≤ s.balance ∧
    (t = drawn amount s ∨
      s.funded = true ∧ s.opened = false ∧ t = sweepAndDie (drawn amount s)) := by
  simp only [withdrawShell, require_bind_ok] at h
  obtain ⟨-, hpos, howed, hbal, h⟩ := h
  refine ⟨hpos, howed, hbal, ?_⟩
  split at h
  · rename_i hc
    simp only [pure_ok, Except.ok.injEq] at h
    exact .inr ⟨hc.1, hc.2.1, h.symm⟩
  · simp only [pure_ok, Except.ok.injEq] at h
    exact .inl h.symm

theorem cleanupUnopened_ok (h : cleanupUnopened m s = .ok t) :
    s.funded = true ∧ s.opened = false ∧ s.everOpened = false ∧
    (m.sender = s.buyer ∨ s.fundedTime + matchOpenTimeout ≤ s.now) ∧
    t = cleanupUnopenedBody m s := by
  simp only [cleanupUnopened, require_bind_ok, pure_ok, Except.ok.injEq] at h
  obtain ⟨hfu, ho, he, hw, h⟩ := h
  exact ⟨hfu, ho, he, hw, h.symm⟩

def cleanupFault (m : Msg) (s : Deal) : Bool :=
  !decide (m.sender = s.buyer ∨ s.fundedTime + matchOpenTimeout < u64) ||
    !decide (m.shellAttached < u64)

theorem cleanupUnopenedBody_eq (hb : Backed s) :
    cleanupUnopenedBody m s = { s with
      balance := 0, deposit := 0, buyerBond := 0, sellerBond := 0, funded := false
      sellerBondFunded := false, buyerBondFunded := false, offerPosted := false
      endpointCipher := [], fault := s.fault || cleanupFault m s
      out := (cleanupUnopenedBody m s).out } := by
  have hcov := hb.covered
  have hlt := hb.balance_lt
  unfold Deal.earmarks at hcov
  have h1 : s.deposit + s.buyerBond < u128 := by omega
  have h2 : ¬ s.balance < s.deposit + s.buyerBond := by omega
  have h3 : ¬ s.balance - (s.deposit + s.buyerBond) < s.sellerBond := by omega
  simp [cleanupUnopenedBody, cleanupFault, releaseBuyerBond, payShell, burnShell, announceClosed,
    Deal.check, Deal.sendIf, h1, h2, h3, Bool.or_assoc]

theorem cleanupUnopenedBody_figures (m : Msg) (s : Deal) :
    (cleanupUnopenedBody m s).credited .residual = s.credited .residual ∧
      (cleanupUnopenedBody m s).withdrawn = s.withdrawn := by
  constructor <;> simp [cleanupUnopenedBody, releaseBuyerBond, payShell, burnShell,
    announceClosed, Deal.check, Deal.sendIf, Deal.credited, Deal.withdrawn, creditOf,
    withdrawalOf]

end TokenContractSteps
