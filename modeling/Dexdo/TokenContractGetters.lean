import Dexdo.DealGetters
import Dexdo.TokenContractLedger
import Dexdo.InferenceOrderBookMessages
import Dexdo.InferenceOrderBookStructure

/-! # The client reads every state of a deal

The getters of a TokenContract, rendered as the ABI renders them, and the strict decoders of the
client on the other side. -/
namespace TokenContractGetters

open TokenContractState TokenContractCalls TokenContractCharges TokenContractPayouts
open TokenContractSteps TokenContractInvariant TokenContractExits TokenContractEarmarks
open TokenContractStreaming TokenContractLedger DealGetters

/-! ## The getters -/

def getState (s : Deal) : Value :=
  .object [("funded", .bool s.funded), ("opened", .bool s.opened),
    ("probeAccepted", .bool s.probeAccepted), ("disputed", .bool s.disputed),
    ("deposit", decimal s.deposit), ("probeTick", decimal s.probeTick),
    ("finalizedOwed", decimal s.finalizedOwed), ("tokensFinal", decimal s.tokensFinal),
    ("tokensPending", decimal s.tokensPend), ("probeTime", decimal s.probeTime),
    ("lastClaimTime", decimal s.lastClaimTime), ("disputeTime", decimal s.disputeTime),
    ("fundedTime", decimal s.fundedTime)]

def getSubscription (s : Deal) : Value :=
  .object [("dealFlags", decimal s.dealFlags), ("subWeeks", decimal s.subWeeks),
    ("weekIndex", decimal s.weekIndex), ("tokensPerWeek", decimal s.tokensPerWeek),
    ("fundedTokens", decimal s.fundedTokens), ("tokensPaid", decimal s.tokensPaid),
    ("periodStart", decimal s.periodStart), ("weekBaseTokens", decimal s.weekBaseTokens)]

def getSellerBond (s : Deal) : Value :=
  .object [("bondFunded", .bool s.sellerBondFunded), ("bondHeld", decimal s.sellerBond),
    ("bondRequired", decimal (bondAmount s.pricePerTick))]

def buyerBondRequired (s : Deal) : ℕ :=
  if TokenContractCalls.isSubscription s then bondAmount s.pricePerTick else 0

def getBuyerBond (s : Deal) : Value :=
  .object [("bondHeld", decimal s.buyerBond), ("bondRequired", decimal (buyerBondRequired s))]

/-! ## What a faithful read would hold -/

def chainState (s : Deal) : DealChainState where
  funded := s.funded
  opened := s.opened
  probeAccepted := s.probeAccepted
  disputed := s.disputed
  deposit := s.deposit
  finalizedOwed := s.finalizedOwed
  tokensFinal := s.tokensFinal
  tokensPending := s.tokensPend
  probeTick := s.probeTick
  fundedTime := if s.fundedTime ≠ 0 then some s.fundedTime else none
  probeTime := s.probeTime
  lastClaimTime := s.lastClaimTime
  disputeTime := s.disputeTime

def subscription (s : Deal) : DealSubscription where
  dealFlags := s.dealFlags
  subWeeks := s.subWeeks
  weekIndex := s.weekIndex
  tokensPerWeek := s.tokensPerWeek
  fundedTokens := s.fundedTokens
  tokensPaid := s.tokensPaid
  periodStart := s.periodStart
  weekBaseTokens := s.weekBaseTokens

def sellerBond (s : Deal) : DealSellerBond :=
  ⟨s.sellerBondFunded, s.sellerBond, bondAmount s.pricePerTick⟩

def buyerBond (s : Deal) : DealBuyerBond := ⟨s.buyerBond, buyerBondRequired s⟩

def snapshot (code boc : String) (s : Deal) : DealChainSnapshot :=
  ⟨code, boc, chainState s, subscription s, sellerBond s, buyerBond s⟩

/-- The client reads the deal as it is and finds nothing to refuse. -/
structure Legible (s : Deal) : Prop where
  state : DealChainState.decodeGetter (getState s) = .ok (chainState s)
  shape : DealSubscription.decodeGetter (getSubscription s) = .ok (subscription s)
  seller : DealSellerBond.decodeGetter (getSellerBond s) = .ok (sellerBond s)
  buyer : DealBuyerBond.decodeGetter (getBuyerBond s) = .ok (buyerBond s)
  cross : ∀ code boc, (snapshot code boc s).validateCrossGetterInvariants = .ok ()

/-! ## What the decoders need of a deal -/

/-- The relations the client checks and the widths it parses. -/
structure Readable (s : Deal) : Prop where
  probe_le : s.probeTime ≤ s.now
  dispute_le : s.disputeTime ≤ s.now
  mask : s.dealFlags &&& dealMask = s.dealFlags
  flag : s.subWeeks = if s.dealFlags &&& flagSubscription ≠ 0 then subWeeksConst else 0
  volume : ∃ ticks, s.fundedTokens = ticks * tickSize
  fits : s.fundedTokens < u128
  quota : s.tokensPerWeek =
    if s.subWeeks = 0 then s.fundedTokens else s.fundedTokens / s.subWeeks
  base : s.probeAccepted = false → s.weekBaseTokens = 0
  bond : s.funded = true → s.subWeeks ≠ 0 →
    s.buyerBond = bondAmount s.pricePerTick ∧ s.buyerBondFunded = true

variable {env : Env} {m : Msg} {s t u : Deal} {c : Call}

theorem Readable.term (h : Readable s) : s.subWeeks = 0 ∨ s.subWeeks = 4 := by
  rw [h.flag]
  split
  · exact .inr rfl
  · exact .inl rfl

theorem Readable.whole (h : Readable s) (hsub : s.subWeeks = 4) :
    s.tokensPerWeek * s.subWeeks = s.fundedTokens := by
  obtain ⟨ticks, hticks⟩ := h.volume
  have hquota := h.quota
  rw [hsub] at hquota ⊢
  simp only [OfNat.ofNat_ne_zero, if_false] at hquota
  unfold tickSize at hticks
  omega

/-! ## Decoding -/

theorem earmark_widths (hb : Base s) :
    s.deposit < 2 ^ 128 ∧ s.probeTick < 2 ^ 128 ∧ s.finalizedOwed < 2 ^ 128 ∧
      s.buyerBond < 2 ^ 128 ∧ s.sellerBond < 2 ^ 128 := by
  have hcov := hb.covered
  have hlt := hb.balance_lt
  unfold Deal.earmarks at hcov
  unfold u128 at hlt
  omega

theorem claims_ordered (hi : Invariant s) (hr : Readable s) :
    s.tokensFinal ≤ s.tokensPend ∧ s.tokensPend < 2 ^ 128 := by
  have hfits := hr.fits
  unfold u128 at hfits
  rcases hi.stage with hidle | ht | hs
  · rw [hidle.tokensFinal, hidle.tokensPend]
    exact ⟨le_rfl, by decide⟩
  · rw [ht.tokensFinal, ht.tokensPend]
    exact ⟨le_rfl, by decide⟩
  · exact ⟨hs.final_le_pend, hs.pend_le_funded.trans_lt hfits⟩

theorem time_widths (hb : Base s) (hr : Readable s) :
    s.probeTime < 2 ^ 64 ∧ s.lastClaimTime < 2 ^ 64 ∧ s.disputeTime < 2 ^ 64 ∧
      s.fundedTime < 2 ^ 64 ∧ s.periodStart < 2 ^ 64 := by
  have hclock := hb.clock
  have h1 := hb.claim_le
  have h2 := hb.funded_le
  have h3 := hb.start_le
  have h4 := hr.probe_le
  have h5 := hr.dispute_le
  omega

theorem decode_state (hi : Invariant s) (hr : Readable s) :
    DealChainState.decodeGetter (getState s) = .ok (chainState s) := by
  obtain ⟨w1, w2, w3, -, -⟩ := earmark_widths hi.base
  obtain ⟨horder, w4⟩ := claims_ordered hi hr
  obtain ⟨d1, d2, d3, d4, -⟩ := time_widths hi.base hr
  have hexact : getterExactObject (getState s) "getState()" DealChainState.getStateFields = .ok _ :=
    getterExactObject_ok rfl _
  have hfunded : getterBool (getState s) "getState()" "funded" = .ok s.funded :=
    getterBool_bool rfl
  have hopened : getterBool (getState s) "getState()" "opened" = .ok s.opened :=
    getterBool_bool rfl
  have hprobeAccepted : getterBool (getState s) "getState()" "probeAccepted" = .ok s.probeAccepted :=
    getterBool_bool rfl
  have hdisputed : getterBool (getState s) "getState()" "disputed" = .ok s.disputed :=
    getterBool_bool rfl
  have hdeposit : getterUint 128 (getState s) "getState()" "deposit" = .ok s.deposit :=
    getterUint_decimal rfl w1
  have hprobeTick : getterUint 128 (getState s) "getState()" "probeTick" = .ok s.probeTick :=
    getterUint_decimal rfl w2
  have hfinalizedOwed : getterUint 128 (getState s) "getState()" "finalizedOwed" = .ok s.finalizedOwed :=
    getterUint_decimal rfl w3
  have htokensFinal : getterUint 128 (getState s) "getState()" "tokensFinal" = .ok s.tokensFinal :=
    getterUint_decimal rfl (horder.trans_lt w4)
  have htokensPending : getterUint 128 (getState s) "getState()" "tokensPending" = .ok s.tokensPend :=
    getterUint_decimal rfl w4
  have hprobeTime : getterUint 64 (getState s) "getState()" "probeTime" = .ok s.probeTime :=
    getterUint_decimal rfl d1
  have hlastClaimTime : getterUint 64 (getState s) "getState()" "lastClaimTime" = .ok s.lastClaimTime :=
    getterUint_decimal rfl d2
  have hdisputeTime : getterUint 64 (getState s) "getState()" "disputeTime" = .ok s.disputeTime :=
    getterUint_decimal rfl d3
  have hfundedTime : getterUint 64 (getState s) "getState()" "fundedTime" = .ok s.fundedTime :=
    getterUint_decimal rfl d4
  have hmonotone : ¬ s.tokensFinal > s.tokensPend := by omega
  simp only [DealChainState.decodeGetter, getterU64, getterU128, bind, Except.bind, hexact, hfunded,
    hopened, hprobeAccepted, hdisputed, hdeposit, hprobeTick, hfinalizedOwed, htokensFinal,
    htokensPending, hprobeTime, hlastClaimTime, hdisputeTime, hfundedTime,
    refuse_of_not hmonotone]
  rfl

/-- The weekly books stay inside the term and the volume. -/
theorem books_within (hi : Invariant s) (hr : Readable s) :
    s.weekIndex ≤ s.subWeeks ∧ s.tokensPaid ≤ s.fundedTokens ∧ s.weekBaseTokens ≤ s.fundedTokens ∧
      (s.subWeeks = 0 → s.weekBaseTokens = 0) := by
  have hfresh : Fresh s → s.weekIndex ≤ s.subWeeks ∧ s.tokensPaid ≤ s.fundedTokens ∧
      s.weekBaseTokens ≤ s.fundedTokens ∧ (s.subWeeks = 0 → s.weekBaseTokens = 0) := by
    intro hf
    have hbase := hr.base hf.unaccepted
    have hindex := hf.weekIndex
    have hpaid := hf.tokensPaid
    omega
  rcases hi.stage with hidle | ht | hs
  · exact hfresh hidle.toFresh
  · exact hfresh ht.toFresh
  · have hweeks := hs.weeks
    have hfinal := hs.tick_le_final
    have hpend := hs.final_le_pend
    have hvolume := hs.pend_le_funded
    have hbase : s.weekBaseTokens ≤ s.tokensPend := by
      by_cases hz : s.weekIndex = 0
      · rw [hs.base_zero hz]
        omega
      · exact (hs.base_pos hz).2
    have hpaid : s.tokensPaid ≤ s.fundedTokens := by
      rw [hs.paid]
      split
      · omega
      · rename_i hpos
        have hfour : s.subWeeks = 4 := by
          rcases hr.term with h | h <;> omega
        rw [← hr.whole hfour, Nat.mul_comm]
        exact Nat.mul_le_mul_left _ hweeks
    exact ⟨hweeks, hpaid, by omega, fun hz => hs.base_zero (by omega)⟩

theorem checkShape_ok (hi : Invariant s) (hr : Readable s) :
    DealSubscription.checkShape (subscription s) = .ok () := by
  obtain ⟨hindex, hpaid, hbase, hordinary⟩ := books_within hi hr
  have hmask : (subscription s).unknownBits = 0 := by
    have hsplit : s.dealFlags &&& (0xff ^^^ dealMask) =
        s.dealFlags &&& (dealMask &&& (0xff ^^^ dealMask)) := by
      rw [← Nat.and_assoc, hr.mask]
    exact hsplit.trans (Nat.and_zero _)
  have hflag : (subscription s).subscriptionFlag = (s.subWeeks != 0) := by
    have hterm := hr.flag
    by_cases hbit : s.dealFlags &&& flagSubscription = 0
    · simp [DealSubscription.subscriptionFlag, subscription, hbit, hterm]
    · simp [DealSubscription.subscriptionFlag, subscription, hbit, hterm, subWeeksConst]
  have hweekly : (subscription s).checkWeekly = .ok () := by
    rcases hr.term with hzero | hfour
    · have hquota := hr.quota
      rw [if_pos hzero] at hquota
      have hplain : ¬ (s.weekIndex ≠ 0 ∨ s.tokensPerWeek ≠ s.fundedTokens ∨
          s.weekBaseTokens ≠ 0) := by
        have hz := hordinary hzero
        omega
      unfold DealSubscription.checkWeekly
      rw [hflag, hzero]
      exact refuse_of_not hplain _
    · have hwhole := hr.whole hfour
      have hfits := hr.fits
      unfold DealSubscription.checkWeekly
      rw [hflag, if_pos (by simp [hfour])]
      simp only [refuse_bind_ok]
      refine ⟨not_not_intro hfour, ?_, refuse_of_not (not_not_intro hwhole) _⟩
      change ¬ u128 ≤ s.tokensPerWeek * s.subWeeks
      omega
  simp only [DealSubscription.checkShape, refuse_bind_ok]
  exact ⟨not_not_intro hmask, not_not_intro hflag, Nat.not_lt.mpr hindex, Nat.not_lt.mpr hpaid,
    Nat.not_lt.mpr hbase, hweekly⟩

theorem decode_subscription (hi : Invariant s) (hr : Readable s) :
    DealSubscription.decodeGetter (getSubscription s) = .ok (subscription s) := by
  obtain ⟨hindex, hpaid, hbase, -⟩ := books_within hi hr
  obtain ⟨-, -, -, -, d1⟩ := time_widths hi.base hr
  have w1 : s.dealFlags < 2 ^ 8 := by
    rw [← hr.mask]
    exact Nat.lt_of_le_of_lt Nat.and_le_right (by decide)
  have w2 : s.subWeeks < 2 ^ 8 := by
    rcases hr.term with h | h <;> omega
  have hfits : s.fundedTokens < 2 ^ 128 := hr.fits
  have hquota : s.tokensPerWeek ≤ s.fundedTokens := by
    rw [hr.quota]
    split
    · exact le_rfl
    · exact Nat.div_le_self _ _
  have w3 : s.weekIndex < 2 ^ 8 := by omega
  have w4 : s.tokensPerWeek < 2 ^ 128 := by omega
  have w5 : s.tokensPaid < 2 ^ 128 := by omega
  have w6 : s.weekBaseTokens < 2 ^ 128 := by omega
  have hexact : getterExactObject (getSubscription s) "getSubscription()"
      DealSubscription.getSubscriptionFields = .ok _ := getterExactObject_ok rfl _
  have hdealFlags : getterUint 8 (getSubscription s) "getSubscription()" "dealFlags" = .ok s.dealFlags :=
    getterUint_decimal rfl w1
  have hsubWeeks : getterUint 8 (getSubscription s) "getSubscription()" "subWeeks" = .ok s.subWeeks :=
    getterUint_decimal rfl w2
  have hweekIndex : getterUint 8 (getSubscription s) "getSubscription()" "weekIndex" = .ok s.weekIndex :=
    getterUint_decimal rfl w3
  have htokensPerWeek : getterUint 128 (getSubscription s) "getSubscription()" "tokensPerWeek" = .ok s.tokensPerWeek :=
    getterUint_decimal rfl w4
  have hfundedTokens : getterUint 128 (getSubscription s) "getSubscription()" "fundedTokens" = .ok s.fundedTokens :=
    getterUint_decimal rfl hr.fits
  have htokensPaid : getterUint 128 (getSubscription s) "getSubscription()" "tokensPaid" = .ok s.tokensPaid :=
    getterUint_decimal rfl w5
  have hperiodStart : getterUint 64 (getSubscription s) "getSubscription()" "periodStart" = .ok s.periodStart :=
    getterUint_decimal rfl d1
  have hweekBaseTokens : getterUint 128 (getSubscription s) "getSubscription()" "weekBaseTokens" = .ok s.weekBaseTokens :=
    getterUint_decimal rfl w6
  have hshape := checkShape_ok hi hr
  unfold subscription at hshape
  simp only [DealSubscription.decodeGetter, getterU8, getterU64, getterU128, bind, Except.bind,
    hexact, hdealFlags, hsubWeeks, hweekIndex, htokensPerWeek, hfundedTokens, htokensPaid,
    hperiodStart, hweekBaseTokens, hshape]
  rfl

theorem decode_sellerBond (hb : Base s) :
    DealSellerBond.decodeGetter (getSellerBond s) = .ok (sellerBond s) := by
  obtain ⟨-, -, -, -, w1⟩ := earmark_widths hb
  have w2 : bondAmount s.pricePerTick < 2 ^ 128 := hb.bond_lt
  have hexact : getterExactObject (getSellerBond s) "getSellerBond()"
      ["bondFunded", "bondHeld", "bondRequired"] = .ok _ := getterExactObject_ok rfl _
  have hfunded : getterBool (getSellerBond s) "getSellerBond()" "bondFunded" =
      .ok s.sellerBondFunded := getterBool_bool rfl
  have hheld : getterUint 128 (getSellerBond s) "getSellerBond()" "bondHeld" = .ok s.sellerBond :=
    getterUint_decimal rfl w1
  have hrequired : getterUint 128 (getSellerBond s) "getSellerBond()" "bondRequired" =
      .ok (bondAmount s.pricePerTick) := getterUint_decimal rfl w2
  simp only [DealSellerBond.decodeGetter, getterU128, bind, Except.bind, hexact, hfunded, hheld,
    hrequired]
  rfl

theorem decode_buyerBond (hb : Base s) :
    DealBuyerBond.decodeGetter (getBuyerBond s) = .ok (buyerBond s) := by
  obtain ⟨-, -, -, w1, -⟩ := earmark_widths hb
  have w2 : buyerBondRequired s < 2 ^ 128 := by
    unfold buyerBondRequired
    split
    · exact hb.bond_lt
    · decide
  have hexact : getterExactObject (getBuyerBond s) "getBuyerBond()" ["bondHeld", "bondRequired"] =
      .ok _ := getterExactObject_ok rfl _
  have hheld : getterUint 128 (getBuyerBond s) "getBuyerBond()" "bondHeld" = .ok s.buyerBond :=
    getterUint_decimal rfl w1
  have hrequired : getterUint 128 (getBuyerBond s) "getBuyerBond()" "bondRequired" =
      .ok (buyerBondRequired s) := getterUint_decimal rfl w2
  simp only [DealBuyerBond.decodeGetter, getterU128, bind, Except.bind, hexact, hheld, hrequired]
  rfl

/-! ## The relations across getters -/

theorem funded_two_ticks (hi : Invariant s) (hf : s.funded = true) :
    tickSize * 2 ≤ s.fundedTokens := by
  have hshape : (∃ ticks, Shape ticks s) → tickSize * 2 ≤ s.fundedTokens := by
    rintro ⟨ticks, h⟩
    rw [h.tokens, Nat.mul_comm]
    exact Nat.mul_le_mul_right _ h.low
  rcases hi.stage with hidle | ht | hs
  · exact hshape (hidle.shape hf)
  · exact hshape ht.shape
  · exact hshape hs.shape

theorem opened_bonded (hi : Invariant s) (ho : s.opened = true) : s.sellerBondFunded = true := by
  rcases hi.stage with hidle | ht | hs
  · rw [hidle.closed] at ho
    cases ho
  · exact ht.bonded
  · exact hs.bonded

theorem cross_ok (hi : Invariant s) (hr : Readable s) (code boc : String) :
    (snapshot code boc s).validateCrossGetterInvariants = .ok () := by
  have hb := hi.base
  have hpos : bondAmount s.pricePerTick ≠ 0 := by
    have := hb.price_pos
    unfold bondAmount
    omega
  have hseller := hb.sellerBond
  have hbuyer := hb.buyerBond
  have h1 : ¬ (s.funded = true ∧ s.fundedTokens < tickSize * 2) := by
    rintro ⟨hf, hlt⟩
    exact absurd (funded_two_ticks hi hf) (by omega)
  have h2 : ¬ s.sellerBond > bondAmount s.pricePerTick := by
    rw [hseller]
    split <;> omega
  have h3 : ¬ (s.sellerBondFunded = false ∧ s.sellerBond ≠ 0) := by
    rintro ⟨hf, hne⟩
    rw [hseller, hf] at hne
    exact hne rfl
  have h4 : ¬ (s.opened = true ∧ s.funded = false) := by
    rintro ⟨ho, hf⟩
    rw [hi.funded_of_opened ho] at hf
    cases hf
  have h5 : ¬ (s.opened = true ∧ (s.sellerBondFunded = false ∨ bondAmount s.pricePerTick = 0 ∨
      s.sellerBond ≠ bondAmount s.pricePerTick)) := by
    rintro ⟨ho, hbad⟩
    have hbond := opened_bonded hi ho
    rw [hbond, if_pos rfl] at hseller
    rcases hbad with h | h | h
    · rw [hbond] at h
      cases h
    · exact hpos h
    · exact h hseller
  have h6 : ¬ buyerBondRequired s ≠ (snapshot code boc s).expectedBuyerRequired := by
    exact not_not_intro rfl
  have h7 : ¬ s.buyerBond > bondAmount s.pricePerTick := by
    omega
  have h8 : s.subWeeks ≠ 0 → ¬ ((snapshot code boc s).liveFunded = true ∧
      (buyerBondRequired s = 0 ∨ s.buyerBond ≠ buyerBondRequired s)) := by
    rintro hsub ⟨hlive, hbad⟩
    have hf : s.funded = true := (Bool.and_eq_true_iff.mp hlive).1
    have hreq : buyerBondRequired s = bondAmount s.pricePerTick := by
      simp [buyerBondRequired, TokenContractCalls.isSubscription, hsub]
    obtain ⟨hheld, -⟩ := hr.bond hf hsub
    rw [hreq] at hbad
    rcases hbad with h | h
    · exact hpos h
    · exact h hheld
  simp only [DealChainSnapshot.validateCrossGetterInvariants, refuse_bind_ok]
  refine ⟨h1, h2, h3, h4, h5, h6, h7, ?_⟩
  by_cases hsub : s.subWeeks = 0
  · rw [if_pos (by simp [snapshot, subscription, DealSubscription.isSubscription, hsub])]
    rfl
  · rw [if_neg (by simp [snapshot, subscription, DealSubscription.isSubscription, hsub])]
    exact refuse_of_not (h8 hsub) _

theorem legible (hi : Invariant s) (hr : Readable s) : Legible s where
  state := decode_state hi hr
  shape := decode_subscription hi hr
  seller := decode_sellerBond hi.base
  buyer := decode_buyerBond hi.base
  cross := cross_ok hi hr

/-! ## Every call keeps the deal readable -/

/-- A fill from the address of the deal's own book is a message the book's code sends. -/
def BookSent (books : InferenceOrderBookCalls.Env) (env : Env) (s : Deal) (tx : Tx) : Prop :=
  ∀ paid b k f, tx.call = .fundFromOrderBook paid b k f → tx.msg.sender = orderBook env s →
    ∃ book, InferenceOrderBookCalls.Reachable books book ∧ ∃ x ∈ book.out, ∃ deal,
      x.body = .fundFromOrderBook deal paid b k f

def MaskedFill (env : Env) (s : Deal) (tx : Tx) : Prop :=
  ∀ f ∈ fillOf tx.call, tx.msg.sender = orderBook env s → f.2 &&& dealMask = f.2

theorem BookSent.masked {books : InferenceOrderBookCalls.Env} {tx : Tx}
    (h : BookSent books env s tx) : MaskedFill env s tx := by
  intro f hf hsender
  obtain ⟨m, c⟩ := tx
  cases c with
  | fundFromOrderBook p b k g =>
    cases hf
    obtain ⟨book, hbook, x, hx, deal, hbody⟩ := h p b k g rfl hsender
    have hmask := InferenceOrderBookMessages.reachable_masked hbook x hx
    rw [hbody] at hmask
    exact hmask
  | _ => cases hf

theorem filled_readable {paid : ℕ} {b : Address} {k f : ℕ} (hi : Invariant s) (hr : Readable s)
    (hfill : Filled paid b k f s t) (hmask : f &&& dealMask = f) : Readable t := by
  have hidle := hi.idle (hi.closed_of_unfunded hfill.unfunded)
  have hbase := hr.base hidle.unaccepted
  have hpos := hi.base.price_pos
  rw [hfill.eq]
  refine ⟨hr.probe_le, hr.dispute_le, hmask, rfl, ⟨_, rfl⟩, hfill.tokens_lt, rfl, fun _ => hbase,
    fun _ hsub => ?_⟩
  have hflag : f &&& flagSubscription ≠ 0 := by
    intro hz
    simp [hz] at hsub
  simp [fillBond, hflag, bondAmount, hpos]

theorem FreshStep.readable (hi : Invariant s) (hr : Readable s)
    (hmask : ∀ f ∈ fillOf c, m.sender = orderBook env s → f.2 &&& dealMask = f.2)
    (h : FreshStep env m s c t) : Readable t := by
  cases h with
  | relisted _ _ _ hrel =>
    rw [hrel.eq]
    exact { hr with }
  | filled p b k f hm hfill => exact filled_readable hi hr hfill (hmask (p, f) rfl hm)
  | sellerBonded a c _ _ _ heq =>
    rw [heq]
    exact { hr with }
  | buyerBonded a _ hflag _ heq =>
    -- a funded subscription brought its bond and refuses another
    have hbond : s.funded = true → s.subWeeks ≠ 0 → False := by
      intro hf hsub
      rw [(hr.bond hf hsub).2] at hflag
      cases hflag
    rw [heq]
    exact { hr with bond := fun hf hsub => (hbond hf hsub).elim }
  | opened c _ _ _ _ heq =>
    have hbase := hr.base
    rw [heq]
    refine { hr with probe_le := le_rfl, base := fun _ => ?_ }
    exact hbase ((hi.idle (by assumption)).unaccepted)
  | accepted _ _ _ heq =>
    rw [heq]
    exact { hr with base := fun _ => rfl }
  | disputed _ _ heq =>
    rw [heq]
    exact { hr with dispute_le := le_rfl }
  | cleaned _ heq =>
    rw [heq]
    exact { hr with bond := by simp }

theorem booked_readable (hb : Base s) (hs : Streaming s) (hr : Readable s)
    (hu : Booked (settledBooks s) u) : Readable u := by
  obtain ⟨_, _, _, _, _, _, heq, -⟩ := booked_fields hb hs hu
  have haccepted := hs.accepted
  rw [heq]
  refine { hr with base := fun h => ?_ }
  rw [haccepted] at h
  cases h

theorem StreamStep.readable (hb : Base s) (hs : Streaming s) (hr : Readable s)
    (h : StreamStep s c t) : Readable t := by
  cases h with
  | relisted _ _ _ hrel =>
    rw [hrel.eq]
    exact { hr with }
  | unchanged n _ => exact hr
  | claimed n u _ _ _ _ hclaim =>
    have hru := booked_readable hb hs hr hclaim.booked
    rw [hclaim.eq]
    exact { hru with }
  | promoted _ _ _ => exact { hr with }
  | settled _ _ hu _ => exact booked_readable hb hs hr hu
  | disputed _ _ heq =>
    rw [heq]
    exact { hr with dispute_le := le_rfl }
  | drew a _ hbal =>
    rw [drawn_eq hbal]
    exact { hr with }

theorem Readable.enter (h : Readable s) (hle : s.now ≤ m.now) : Readable (enter m s) :=
  { h with
    probe_le := h.probe_le.trans hle
    dispute_le := h.dispute_le.trans hle }

theorem dispatch_readable (hi : Invariant s) (hr : Readable s)
    (hmask : ∀ f ∈ fillOf c, m.sender = orderBook env s → f.2 &&& dealMask = f.2)
    (hok : dispatch env m s c = .ok t) (hf : t.fault = false) (hlive : t.destroyed = false) :
    Readable t := by
  cases ha : s.probeAccepted with
  | true =>
    have hs := hi.streaming ha
    exact StreamStep.readable hi.base hs hr (stream_step hi hs hok hf hlive)
  | false => exact FreshStep.readable hi hr hmask (fresh_step hi ha hok hf hlive)

theorem constructed_readable (h : Constructed env s) : Readable s := by
  obtain ⟨m, a, -, h⟩ := h
  simp only [construct, require_bind_ok, pure_ok, Except.ok.injEq] at h
  obtain ⟨-, -, -, -, -, -, -, -, rfl⟩ := h
  refine ⟨Nat.zero_le _, Nat.zero_le _, ?_, ?_, ⟨0, rfl⟩, ?_, ?_, fun _ => rfl,
    fun h => by cases h⟩ <;> simp [Deal.send, u128]

theorem reachable_readable {Φ : Deal → Tx → Prop} (hΦ : ∀ s tx, Φ s tx → MaskedFill env s tx)
    (h : Reachable env Φ s) (hlive : s.destroyed = false) : Invariant s ∧ Readable s := by
  revert hlive
  refine TransactionSystem.Reachable.invariant
    (I := fun s => s.destroyed = false → Invariant s ∧ Readable s)
    (fun s h _ => ⟨constructed_invariant h, constructed_readable h⟩) ?_ h
  intro s a t ih hadm hok hlive
  obtain ⟨hlives, hd, hf⟩ := exec_ok hok
  obtain ⟨hi, hr⟩ := ih hlives
  refine ⟨exec_invariant hi hadm.1 hok hlive, ?_⟩
  exact dispatch_readable (hi.enter hadm.1.later hadm.1.clock) (hr.enter hadm.1.later)
    (hΦ s a hadm.2) hd hf hlive

/-- Every live deal, through any number of funding cycles, is read by the client as it is. -/
theorem live_deal_legible (env : Env) (books : InferenceOrderBookCalls.Env) (s : Deal)
    (h : Reachable env (BookSent books env) s) (hlive : s.destroyed = false) : Legible s := by
  obtain ⟨hi, hr⟩ := reachable_readable (fun _ _ hsent => hsent.masked) h hlive
  exact legible hi hr

def sampleFill : Call := .fundFromOrderBook 10200000000 1003 0 0x40

def fundsSample : InferenceOrderBookState.Out → Bool
  | .fundFromOrderBook _ paid b k f => decide (paid = 10200000000 ∧ b = 1003 ∧ k = 0 ∧ f = 0x40)
  | _ => false

theorem sampleFill_sent : ∃ book,
    InferenceOrderBookCalls.Reachable InferenceOrderBookStructure.sampleEnv book ∧
    ∃ x ∈ book.out, ∃ deal, x.body = .fundFromOrderBook deal 10200000000 1003 0 0x40 := by
  have hplay : (InferenceOrderBookStructure.playedBook
      [InferenceOrderBookStructure.sampleSell 1 1 8 0x60 20,
        InferenceOrderBookStructure.sampleBuy 1 8 0x60 11 30]).any (fun s =>
      s.out.any fun x => fundsSample x.body) = true := by
    decide +kernel
  obtain ⟨book, hbook, hp⟩ := InferenceOrderBookStructure.playedBook_reachable hplay
  obtain ⟨x, hx, hbody⟩ := List.any_eq_true.mp hp
  refine ⟨book, hbook, x, hx, ?_⟩
  unfold fundsSample at hbody
  split at hbody
  · rename_i deal paid b k f heq
    obtain ⟨rfl, rfl, rfl, rfl⟩ := of_decide_eq_true hbody
    exact ⟨deal, heq⟩
  · cases hbody

def OnlySample (_ : Deal) (tx : Tx) : Prop := ∀ f ∈ fillOf tx.call, tx.call = sampleFill

instance (s : Deal) (tx : Tx) : Decidable (OnlySample s tx) :=
  inferInstanceAs (Decidable (∀ f ∈ fillOf tx.call, tx.call = sampleFill))

theorem OnlySample.sent {tx : Tx} (h : OnlySample s tx) :
    BookSent InferenceOrderBookStructure.sampleEnv env s tx := by
  intro paid b k f hcall _
  have honly := h (paid, f) (by rw [hcall]; rfl)
  rw [hcall] at honly
  cases honly
  exact sampleFill_sent

/-- A subscription cleaned up before it opened, then a stray bond of its old buyer: unfunded, with
the shape of the last fill and a bond it does not owe. -/
theorem cleaned_subscription_legible : ∃ s,
    Reachable sampleEnv (BookSent InferenceOrderBookStructure.sampleEnv sampleEnv) s ∧
    s.funded = false ∧ s.subWeeks = 4 ∧ s.buyerBond = 2000000000 ∧ Legible s := by
  have hplay : (played OnlySample [noteTx 10 (.postFromNote 1 1 0 0 0), bookTx 20 sampleFill,
      ⟨{ sender := 1003, pubkey := 0, now := 30 }, .cleanupUnopened⟩,
      ⟨{ sender := 1003, pubkey := 0, now := 40 }, .fundBuyerBond 2000000000⟩]).any (fun s =>
        !s.destroyed && !s.funded && decide (s.subWeeks = 4) &&
          decide (s.buyerBond = 2000000000)) = true := by
    decide
  obtain ⟨s, hs, hp⟩ := played_reachable hplay
  simp only [Bool.and_eq_true, Bool.not_eq_true', decide_eq_true_eq] at hp
  have hreach : Reachable sampleEnv (BookSent InferenceOrderBookStructure.sampleEnv sampleEnv) s :=
    hs.mono fun _ _ h => ⟨h.1, h.2.sent⟩
  exact ⟨s, hreach, hp.1.1.2, hp.1.2, hp.2,
    live_deal_legible sampleEnv InferenceOrderBookStructure.sampleEnv s hreach hp.1.1.1⟩

end TokenContractGetters
