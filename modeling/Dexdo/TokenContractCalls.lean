import Dexdo.TokenContractState
import Dexdo.TransactionSystem
import Mathlib.Logic.Function.Iterate

/-! # The calls of a TokenContract

Every function of `TokenContract.sol` that moves money or deal state, in its order. Addresses
derived by `DexLib` and the hash builtin come from outside the repository and are the parameters of
`Env`. -/
namespace TokenContractCalls

open TokenContractState

/-- `DexLib.computeCanonicalNoteAddressFromHash` at the pinned note code,
`DexLib.computeInferenceOrderBookAddressFromHash`, and `sha256`. -/
structure Env where
  noteAddress : ℕ → Address
  bookAddress : ℕ → ℕ → ℕ → Address
  sha256 : String → ℕ

/-- What a call can read of the message that made it. `shellAttached` is
`msg.currencies[SHELL_ECC_ID]`. -/
structure Msg where
  sender : Address
  pubkey : ℕ
  now : ℕ
  shellAttached : ℕ := 0

def require (p : Prop) [Decidable p] (e : Err) : Except Err Unit :=
  if p then .ok () else .error e

@[simp] theorem require_bind_ok {p : Prop} [Decidable p] {e : Err} {α : Type}
    {f : Unit → Except Err α} {t : α} :
    (require p e >>= f) = .ok t ↔ p ∧ f () = .ok t := by
  by_cases h : p <;> simp [require, h, bind, Except.bind]

@[simp] theorem pure_ok {α : Type} (a : α) : (pure a : Except Err α) = .ok a := rfl

variable (env : Env)

/-! ## Money primitives -/

def payShell (payee : Payee) (dest : Address) (amount : ℕ) (s : Deal) : Deal :=
  { s with
    balance := s.balance - amount
    fault := s.fault || decide (s.balance < amount) }.sendIf (amount ≠ 0)
      (.creditFromDeal payee dest amount)

def burnShell (amount : ℕ) (s : Deal) : Deal :=
  { s with
    balance := s.balance - amount
    fault := s.fault || decide (s.balance < amount) }.sendIf (amount ≠ 0)
      (.reportDealWriteOff amount)

def announceClosed (dest : Address) (s : Deal) : Deal :=
  s.sendIf (dest ≠ 0) (.onDealClosed dest)

def die (s : Deal) : Deal :=
  let s := announceClosed s.buyer s
  let s := announceClosed s.sellerNote s
  { s.send .contractDestroyed with destroyed := true }

def sweepAndDie (s : Deal) : Deal := die (payShell .residual s.sellerNote s.balance s)

def payOwedAndDie (s : Deal) : Deal :=
  let owed := s.finalizedOwed
  let s := { s with finalizedOwed := 0 }
  let s := payShell .seller s.sellerNote owed s
  sweepAndDie s

def bondAmount (p : ℕ) : ℕ := 2 * p

def isSubscription (s : Deal) : Bool := s.subWeeks != 0

def rebate (p n : ℕ) : ℕ := min (rebateSlopeBps * n) rebateMaxBps * n * p / bpsDenominator

def reportFinalized (s : Deal) : Deal :=
  s.sendIf (s.ticksFinalized ≠ 0 ∧ s.iobHash ≠ 0)
    (.reportFinalized (env.bookAddress s.iobHash s.iobDepth s.modelHash) s.pricePerTick
      s.ticksFinalized)

/-- The rebate of `_settleFees`, after its clamp to the accrued fee. -/
def rebateDue (clean : Bool) (s : Deal) : ℕ :=
  if clean && !s.everDisputed then min (rebate s.pricePerTick s.ticksFinalized) s.feeAccrued
  else 0

def settleFees (clean : Bool) (s : Deal) : Deal :=
  let r := rebateDue clean s
  let netBurn := s.feeAccrued - r
  let s := s.check (clean && !s.everDisputed → rebate s.pricePerTick s.ticksFinalized < u128)
  let s := s.check (s.finalizedOwed + r < u128)
  let s := { s with finalizedOwed := s.finalizedOwed + r }
  let s := burnShell netBurn s
  reportFinalized env { s with feeAccrued := 0 }

/-! ## Claims and weeks -/

def promote (s : Deal) : Deal :=
  { s with tokensFinal := if s.tokensPend > s.tokensFinal then s.tokensPend else s.tokensFinal }

def promoteDue (s : Deal) : Deal :=
  let s := s.check (s.lastClaimTime + claimPromoteWindow < u64)
  if s.now ≥ s.lastClaimTime + claimPromoteWindow then promote s else s

def chargeOf (p n : ℕ) : ℕ := valueOf p n + fee (valueOf p n)

/-- The clamp all three payouts share: `pay + fee` is cut as one sum to the deposit. -/
def clampedFee (room pay f : ℕ) : ℕ := if pay + f > room then (if room < f then room else f) else f

def clampedPay (room pay f : ℕ) : ℕ := if pay + f > room then room - clampedFee room pay f else pay

/-- Pay the seller for `n` tokens out of the deposit, with the fee on top; the common body of
`_chargeWeeksThrough`, `_payFinalAndClose` and `_settleTrustedAndClose`. -/
def payTokens (n : ℕ) (s : Deal) : Deal :=
  let pay := valueOf s.pricePerTick n
  let f := fee pay
  let pay' := clampedPay s.deposit pay f
  let f' := clampedFee s.deposit pay f
  let s := s.check (pay + f < u128)
  let s := s.check (pay' + f' ≤ s.deposit)
  let s := s.check (s.finalizedOwed + pay' < u128)
  let s := s.check (s.feeAccrued + f' < u128)
  { s with
    clamped := s.clamped || decide (pay + f > s.deposit)
    deposit := s.deposit - (pay' + f')
    finalizedOwed := s.finalizedOwed + pay'
    feeAccrued := s.feeAccrued + f' }

def weeksElapsedAt (ts : ℕ) (s : Deal) : ℕ := min ((ts - s.periodStart) / subWeekLen) s.subWeeks

def weeksElapsed (s : Deal) : ℕ := weeksElapsedAt s.now s

def weeksStartedAt (ts : ℕ) (s : Deal) : ℕ :=
  if weeksElapsedAt ts s < s.subWeeks then weeksElapsedAt ts s + 1 else weeksElapsedAt ts s

def weeksStarted (s : Deal) : ℕ := weeksStartedAt s.now s

/-- One iteration of the loop in `_chargeWeeksThrough`. -/
def chargeWeek (s : Deal) : Deal :=
  let target := (s.weekIndex + 1) * s.tokensPerWeek
  let due := if target > s.tokensPaid then target - s.tokensPaid else 0
  let s := s.check (s.weekIndex + 1 < u8 ∧ target < u128)
  let s := payTokens due s
  { s with
    tokensPaid := target
    weekIndex := s.weekIndex + 1
    weekBaseTokens := if s.tokensFinal > s.tokensPend then s.tokensFinal else s.tokensPend }

/-- `_chargeWeeksThrough`: the loop runs until `_weekIndex` reaches `target`. -/
def chargeWeeksThrough (target : ℕ) (s : Deal) : Deal :=
  if isSubscription s && s.probeAccepted then chargeWeek^[target - s.weekIndex] s else s

def recordDelivered (s : Deal) : Deal :=
  let delivered := if s.probeAccepted && decide (s.tokensFinal < tickSize) then tickSize
    else s.tokensFinal
  { s with ticksFinalized := delivered / tickSize }

def settleBoundaries (due : ℕ) (s : Deal) : Deal :=
  if due ≤ s.weekIndex then s
  else
    let s := chargeWeeksThrough due s
    let s := s.send (.tickFinalized s.finalizedOwed s.deposit)
    reportFinalized env (recordDelivered s)

def claimCap (s : Deal) : ℕ :=
  if !isSubscription s then s.fundedTokens
  else if s.weekIndex ≥ s.subWeeks then s.tokensPend
  else min (s.weekBaseTokens + s.tokensPerWeek) s.fundedTokens

/-! ## Closing -/

def releaseProbe (s : Deal) : Deal :=
  if s.probeAccepted || s.probeTick == 0 then s
  else { s.check (s.deposit + s.probeTick < u128) with
    deposit := s.deposit + s.probeTick
    probeTick := 0 }

def releaseBuyerBond (s : Deal) : Deal :=
  { s.check (s.deposit + s.buyerBond < u128) with
    deposit := s.deposit + s.buyerBond
    buyerBond := 0 }

def returnBond (s : Deal) : Deal :=
  if s.sellerBond = 0 then s
  else payShell .seller s.sellerNote s.sellerBond
    { s with sellerBond := 0, sellerBondFunded := false }

def creditSellerBond (s : Deal) : Deal :=
  { s.check (s.finalizedOwed + s.sellerBond < u128) with
    finalizedOwed := s.finalizedOwed + s.sellerBond
    sellerBond := 0 }

def forfeitBonds (fromBuyer fromSeller : ℕ) (s : Deal) : Deal :=
  let b := if fromBuyer ≤ s.buyerBond then fromBuyer else s.buyerBond
  let c := if fromSeller ≤ s.sellerBond then fromSeller else s.sellerBond
  let s := s.check (b + c < u128)
  burnShell (b + c) { s with buyerBond := s.buyerBond - b, sellerBond := s.sellerBond - c }

def closeClean (s : Deal) : Deal :=
  let s := releaseProbe s
  let s := releaseBuyerBond s
  let s := recordDelivered s
  let refund := s.deposit
  let s := creditSellerBond { s with deposit := 0 }
  let s := settleFees env true { s with opened := false }
  let s := payShell .buyer s.buyer refund s
  let s := s.send (.streamStopped s.buyer s.finalizedOwed refund)
  payOwedAndDie s

/-- Tokens `_payFinalAndClose` still owes for: nothing on a subscription. -/
def finalOwed (s : Deal) : ℕ :=
  if !isSubscription s && decide (s.tokensFinal > s.tokensPaid) then s.tokensFinal - s.tokensPaid
  else 0

def payFinalAndClose (s : Deal) : Deal :=
  let owed := finalOwed s
  let s := payTokens owed s
  let s := if owed > 0 ∧ s.tokensFinal > s.tokensPaid then { s with tokensPaid := s.tokensFinal }
    else s
  closeClean env s

/-- The exit during the trial, first branch of `stop`. -/
def stopOnProbe (s : Deal) : Deal :=
  let bondBurn := if s.probeTick ≤ s.sellerBond then s.probeTick else s.sellerBond
  let burned := s.probeTick + bondBurn
  let s := s.check (burned < u128)
  let s := releaseBuyerBond s
  let refund := s.deposit
  let s := creditSellerBond { s with sellerBond := s.sellerBond - bondBurn }
  let s := { s with probeTick := 0, deposit := 0, opened := false }
  let s := burnShell burned s
  let s := payShell .buyer s.buyer refund s
  let s := s.send (.probeBurned s.buyer s.pricePerTick bondBurn refund)
  payOwedAndDie s

/-- `stop` past its guards. -/
def stopBody (s : Deal) : Deal :=
  if !s.probeAccepted then stopOnProbe s
  else
    let s := promoteDue s
    let s := if !isSubscription s then forfeitBonds s.pricePerTick 0 (promote s) else s
    let s := s.check (s.periodStart ≤ s.now)
    payFinalAndClose env (chargeWeeksThrough (weeksStarted s) s)

def forfeitTrial (s : Deal) : Deal :=
  let bondBurn := if s.pricePerTick ≤ s.sellerBond then s.pricePerTick else s.sellerBond
  burnShell bondBurn { s with sellerBond := s.sellerBond - bondBurn }

/-- What `sellerStop` does on every stage after that. -/
def sellerExit (s : Deal) : Deal :=
  let s := promoteDue s
  let s := if s.probeAccepted && !isSubscription s then
      forfeitBonds 0 s.pricePerTick { s with tokensPend := s.tokensFinal }
    else s
  let s := s.check (s.periodStart ≤ s.now)
  payFinalAndClose env (chargeWeeksThrough (weeksElapsed s) s)

def sellerStopBody (s : Deal) : Deal :=
  sellerExit env (if !s.probeAccepted then forfeitTrial s else s)

/-! ## Disputes -/

def claimBase (s : Deal) : ℕ :=
  if isSubscription s && decide (s.weekIndex > 0) then s.weekBaseTokens else s.tokensPaid

def claimedUnpaid (s : Deal) : ℕ :=
  if s.tokensPend > claimBase s then s.tokensPend - claimBase s else 0

/-- `_disputeStake`: value, floor, cap, then what each side holds. -/
def disputeStake (s : Deal) : ℕ :=
  let d := chargeOf s.pricePerTick (claimedUnpaid s)
  let d := if d < s.pricePerTick then s.pricePerTick else d
  let d := if d > bondAmount s.pricePerTick then bondAmount s.pricePerTick else d
  let mine := if isSubscription s then s.buyerBond else s.deposit
  let d := if d > mine then mine else d
  if d > s.sellerBond then s.sellerBond else d

def checkStake (s : Deal) : Deal :=
  s.check (chargeOf s.pricePerTick (claimedUnpaid s) < u128 ∧ bondAmount s.pricePerTick < u128)

/-- `_voidClaims`: the pending claim stands only if it had matured when the dispute rose. -/
def voidClaims (s : Deal) : Deal :=
  let s := s.check (s.tokensPend > s.tokensFinal → s.lastClaimTime + claimPromoteWindow < u64)
  let final := if s.tokensPend > s.tokensFinal ∧
      s.lastClaimTime + claimPromoteWindow ≤ s.disputeTime then s.tokensPend else s.tokensFinal
  { s with tokensFinal := final, tokensPend := final }

def liftDispute (s : Deal) : Deal := { voidClaims s with disputed := false }

def unstartedTokens (s : Deal) : ℕ :=
  let started := weeksStartedAt s.disputeTime s
  let unstarted := if s.subWeeks > started then s.subWeeks - started else 0
  unstarted * s.tokensPerWeek

def unstartedCharge (s : Deal) : ℕ := chargeOf s.pricePerTick (unstartedTokens s)

/-- The burn of the unearned part of the disputed week; the second component is the refund. -/
def burnUnearned (s : Deal) : Deal × ℕ :=
  if isSubscription s && s.probeAccepted then
    let s' := s.check (s.periodStart ≤ s.disputeTime ∧ unstartedTokens s < u128 ∧
      unstartedCharge s < u128)
    if unstartedCharge s < s.deposit then
      (burnShell (s.deposit - unstartedCharge s) s', unstartedCharge s)
    else (s', s.deposit)
  else (s, s.deposit)

/-- First part of `_settleTrustedAndClose`: the completed weeks and the trusted tokens are paid. -/
def payTrusted (s : Deal) : Deal :=
  let s := releaseProbe s
  let s := s.check (s.periodStart ≤ s.disputeTime)
  let s := chargeWeeksThrough (weeksElapsedAt s.disputeTime s) s
  let base := claimBase s
  let owed := if s.tokensFinal > base then s.tokensFinal - base else 0
  let s := recordDelivered (payTokens owed s)
  { s with tokensPaid := if s.tokensFinal > s.tokensPaid then s.tokensFinal else s.tokensPaid }

/-- Second part: both stakes are burned, each cut to the bond it comes from. -/
def burnStakes (buyerStake sellerStake : ℕ) (s : Deal) : Deal :=
  let db := if buyerStake > s.buyerBond then s.buyerBond else buyerStake
  let ds := if sellerStake > s.sellerBond then s.sellerBond else sellerStake
  let s := s.check (db + ds < u128)
  burnShell (db + ds) { s with buyerBond := s.buyerBond - db, sellerBond := s.sellerBond - ds }

/-- Third part: the unearned rest of the week is burned and both sides are paid. -/
def closeDisputed (released : Bool) (s : Deal) : Deal :=
  let (s, refund) := burnUnearned s
  let s := s.check (refund + s.buyerBond < u128)
  let refund := refund + s.buyerBond
  let s := creditSellerBond { s with buyerBond := 0, deposit := 0 }
  let s := settleFees env false { s with opened := false }
  let s := payShell .buyer s.buyer refund s
  let s := s.send (.disputeResolved s.finalizedOwed refund released)
  payOwedAndDie s

def settleTrustedAndClose (buyerStake sellerStake : ℕ) (s : Deal) : Deal :=
  closeDisputed env (sellerStake == 0) (burnStakes buyerStake sellerStake (payTrusted s))

/-- `releaseDispute` past its guards. -/
def releaseDisputeBody (s : Deal) : Deal :=
  let s := s.check (s.periodStart ≤ s.disputeTime)
  let s := chargeWeeksThrough (weeksElapsedAt s.disputeTime s) s
  let s := liftDispute s
  if isSubscription s then settleTrustedAndClose env (disputeStake s) 0 (checkStake s)
  else settleTrustedAndClose env s.pricePerTick s.pricePerTick s

def pendingCharge (s : Deal) : ℕ :=
  if s.tokensPend > s.tokensFinal then chargeOf s.pricePerTick (s.tokensPend - s.tokensFinal)
  else 0

/-- `resolveDisputeTimeout` past its guards. -/
def resolveDisputeTimeoutBody (s : Deal) : Deal :=
  let s := s.check (s.periodStart ≤ s.disputeTime)
  let s := chargeWeeksThrough (weeksElapsedAt s.disputeTime s) s
  if isSubscription s then
    let d := disputeStake s
    let s := liftDispute (checkStake s)
    settleTrustedAndClose env d d s
  else
    -- Measured before `_voidClaims` decides whether this same claim had matured.
    let burnPend := pendingCharge s
    let s := s.check (burnPend < u128)
    let s := liftDispute s
    let burnPend := if burnPend > s.deposit then s.deposit else burnPend
    let s := burnShell burnPend { s with deposit := s.deposit - burnPend }
    let s := s.check (2 * s.pricePerTick < u128)
    settleTrustedAndClose env (2 * s.pricePerTick) (2 * s.pricePerTick) s

/-! ## Entry points -/

structure CtorArgs where
  sellerPubkey : ℕ
  rootModelAddress : Address
  nonce : ℕ
  modelName : String
  modelHash : ℕ
  pricePerTick : ℕ
  maxTicks : ℕ
  sellerNote : Address
  depositIdentifierHash : ℕ

/-- `constructor`. -/
def construct (m : Msg) (a : CtorArgs) : Except Err Deal := do
  require (m.sender = a.sellerNote) .invalidSender
  require (a.sellerNote = env.noteAddress a.depositIdentifierHash) .invalidSender
  require (a.pricePerTick > 0) .badParam
  require (a.maxTicks ≥ 2) .badParam
  require (unit a.pricePerTick < u128) .arithmetic
  require (a.maxTicks * unit a.pricePerTick < u128) .overflow
  require (a.modelName.utf8ByteSize ≤ 127) .badParam
  require (env.sha256 a.modelName = a.modelHash) .badParam
  let s : Deal :=
    { sellerPubkey := a.sellerPubkey, rootModelAddress := a.rootModelAddress, nonce := a.nonce
      modelName := a.modelName, modelHash := a.modelHash
      pricePerTick := a.pricePerTick, maxTicks := a.maxTicks, sellerNote := a.sellerNote
      now := m.now }
  return (s.send .contractDeployed).send (.registerTokenContract a.rootModelAddress)

def orderBook (s : Deal) : Address := env.bookAddress s.iobHash s.iobDepth s.modelHash

def recordDealShape (dealFlags ticks : ℕ) (s : Deal) : Deal :=
  let subWeeks := if dealFlags &&& flagSubscription ≠ 0 then subWeeksConst else 0
  let tokens := ticks * tickSize
  { s.check (tokens < u128) with
    dealFlags := dealFlags
    subWeeks := subWeeks
    weekIndex := 0
    periodStart := s.now
    tokensPerWeek := if subWeeks = 0 then tokens else tokens / subWeeks
    fundedTokens := tokens
    lastClaimTime := s.now }

/-- The assignments of `_recordFunding`; its two `require`s stand in `fundFromOrderBook`. -/
def recordFunding (buyer : Address) (buyerPubkey paid : ℕ) (s : Deal) : Deal :=
  let s := { s with
    buyer := buyer, buyerPubkey := buyerPubkey, deposit := paid, funded := true
    offerPosted := false, fundedTime := s.now }
  s.send (.streamFunded buyer paid)

def fillBond (dealFlags p : ℕ) : ℕ :=
  if dealFlags &&& flagSubscription ≠ 0 then bondAmount p else 0

/-- The figure enters the record and the book is answered, whatever becomes of the fill. -/
def acceptHandover (paid dealFlags : ℕ) (m : Msg) (s : Deal) : Deal :=
  let s := s.check (s.balance + paid < u128)
  let s := s.check (fillBond dealFlags s.pricePerTick < u128 ∧ 2 * unit s.pricePerTick < u128)
  { s with balance := s.balance + paid }.send (.onHandoverAccepted m.sender)

/-- The fundable branch of `fundFromOrderBook`. -/
def acceptFill (paid : ℕ) (buyerNote : Address) (buyerPubkey dealFlags : ℕ) (s : Deal) : Deal :=
  let bond := fillBond dealFlags s.pricePerTick
  let s := { s with
    buyerBond := bond
    buyerBondFunded := s.buyerBondFunded || decide (bond > 0) }
  let s := recordFunding buyerNote buyerPubkey (paid - bond) s
  recordDealShape dealFlags ((paid - bond) / unit s.pricePerTick) s

def fundFromOrderBook (paid : ℕ) (buyerNote : Address) (buyerPubkey dealFlags : ℕ) (m : Msg)
    (s : Deal) : Except Err Deal := do
  if paid = 0 then return s
  require (s.iobHash ≠ 0) .invalidSender
  if m.sender ≠ orderBook env s then return s
  let bond := fillBond dealFlags s.pricePerTick
  if s.funded = true ∨ paid < bond ∨ paid - bond < 2 * unit s.pricePerTick ∨
      paid - bond > s.maxTicks * unit s.pricePerTick then
    return payShell .fillBuyer buyerNote paid (acceptHandover paid dealFlags m s)
  require (paid - bond ≥ 2 * unit s.pricePerTick) .insufficientDeposit
  require (paid - bond ≤ s.maxTicks * unit s.pricePerTick) .overflow
  return acceptFill paid buyerNote buyerPubkey dealFlags (acceptHandover paid dealFlags m s)

def postFromNote (iobHash iobDepth depositIdentifierHash flags deadline : ℕ) (m : Msg)
    (s : Deal) : Except Err Deal := do
  require (m.sender = s.sellerNote) .invalidSender
  require (s.sellerNote = env.noteAddress depositIdentifierHash) .badParam
  let s' := { s with noteAuthorized := true, iobHash := iobHash, iobDepth := iobDepth }
  if s.offerPosted = true ∨ s.funded = true then return s'
  return { s' with offerPosted := true }.send
    (.placeSellOffer (orderBook env s') s.pricePerTick s.maxTicks flags deadline)

def onSellClosed (m : Msg) (s : Deal) : Except Err Deal := do
  if s.iobHash = 0 ∨ m.sender ≠ orderBook env s then return s
  if s.funded = true then return s
  return { s with offerPosted := false }

/-- The seller's bond enters, with the excess sent back; what `fundDeal` does past its guards,
the endpoint apart. -/
def takeSellerBond (amount : ℕ) (m : Msg) (s : Deal) : Deal :=
  let need := bondAmount s.pricePerTick
  let s := s.check (s.balance + amount < u128 ∧ need < u128)
  let s := { s with
    balance := s.balance + amount, sellerBond := need, sellerBondFunded := true }
  (payShell .caller m.sender (amount - need) s).send (.sellerBondFunded need)

def fundDeal (amount : ℕ) (endpointCipher : Option Bytes) (m : Msg) (s : Deal) :
    Except Err Deal := do
  require (m.sender = s.sellerNote) .invalidSender
  require (s.opened = false) .alreadyOpen
  require (s.sellerBondFunded = false) .bondAlreadyFunded
  require (amount > 0) .noShell
  require (amount ≥ bondAmount s.pricePerTick) .insufficientDeposit
  let s := takeSellerBond amount m s
  match endpointCipher with
  | none => return s
  | some c => return { s with endpointCipher := c }.send (.endpointSet c)

/-- `fundBuyerBond` past its guards. -/
def takeBuyerBond (amount : ℕ) (m : Msg) (s : Deal) : Deal :=
  let need := bondAmount s.pricePerTick
  let s := s.check (s.balance + amount < u128 ∧ need < u128)
  let s := { s with
    balance := s.balance + amount, buyerBond := need, buyerBondFunded := true }
  (payShell .caller m.sender (amount - need) s).send (.buyerBondFunded need)

def fundBuyerBond (amount : ℕ) (m : Msg) (s : Deal) : Except Err Deal := do
  require (m.sender = s.buyer) .invalidSender
  require (s.opened = false) .alreadyOpen
  require (s.buyerBondFunded = false) .bondAlreadyFunded
  require (amount > 0) .noShell
  require (amount ≥ bondAmount s.pricePerTick) .insufficientDeposit
  return takeBuyerBond amount m s

/-- `open` past its guards: the probe tick is frozen out of the escrow. -/
def freezeProbe (endpointCipher : Bytes) (s : Deal) : Deal :=
  let cipher := if endpointCipher.isEmpty then s.endpointCipher else endpointCipher
  let s := { s with endpointCipher := cipher }.send (.endpointSet cipher)
  let s := { s with
    probeTick := s.pricePerTick, deposit := s.deposit - s.pricePerTick
    probeAccepted := false, probeTime := s.now, lastClaimTime := s.now
    opened := true, everOpened := true }
  s.send (.streamOpened s.buyer s.pricePerTick)

/-- `open`; the word is reserved here. -/
def openDeal (endpointCipher : Bytes) (m : Msg) (s : Deal) : Except Err Deal := do
  require (m.pubkey = s.sellerPubkey) .notOwner
  require (s.funded = true) .notFunded
  require (s.opened = false) .alreadyOpen
  require (s.sellerBondFunded = true) .bondNotFunded
  require (s.buyerBondFunded = true) .bondNotFunded
  require (s.deposit ≥ s.pricePerTick) .insufficientDeposit
  return freezeProbe endpointCipher s

/-- `acceptProbe` past its guards: the trial tick is paid and seeds the claim pipeline. -/
def takeProbe (s : Deal) : Deal :=
  let f := if fee s.pricePerTick > s.deposit then s.deposit else fee s.pricePerTick
  let s := s.check (s.probeTime + probeWindow < u64)
  let s := s.check (s.finalizedOwed + s.probeTick < u128 ∧ s.feeAccrued + f < u128)
  let s := { s with
    finalizedOwed := s.finalizedOwed + s.probeTick, feeAccrued := s.feeAccrued + f
    deposit := s.deposit - f, probeTick := 0, probeAccepted := true, periodStart := s.now
    tokensPaid := tickSize, tokensFinal := tickSize, tokensPend := tickSize
    weekBaseTokens := 0, ticksFinalized := 1, lastClaimTime := s.now }
  s.send (.probeAccepted s.buyer s.pricePerTick 0)

def acceptProbe (m : Msg) (s : Deal) : Except Err Deal := do
  require (m.pubkey = s.sellerPubkey) .notOwner
  require (s.opened = true) .notOpen
  require (s.disputed = false) .disputed
  require (s.probeAccepted = false) .alreadyRegistered
  require (s.now ≥ s.probeTime + probeWindow) .settleWindowOpen
  return takeProbe s

/-- The books as `claimTokens` brings them up to the clock before it measures the ceiling. -/
def settleToClock (s : Deal) : Deal :=
  let s := s.check (s.periodStart ≤ s.now)
  let s := settleBoundaries env (weeksElapsed s) s
  s.check (s.weekBaseTokens + s.tokensPerWeek < u128 ∧ s.lastClaimTime ≤ s.now)

def recordClaim (cumulativeTokens : ℕ) (s : Deal) : Deal :=
  let s := { s with tokensPend := cumulativeTokens, lastClaimTime := s.now }
  s.send (.ticksClaimed s.tokensFinal s.tokensPend)

/-- `claimTokens` past the guards that precede the weekly books. -/
def claimAbove (cumulativeTokens : ℕ) (s : Deal) : Except Err Deal := do
  require (cumulativeTokens ≤ claimCap s) .badParam
  require (s.now - s.lastClaimTime ≥ minClaimInterval) .settleWindowOpen
  require (cumulativeTokens - s.tokensPend ≤ maxClaimDelta) .badParam
  require ((cumulativeTokens - s.tokensPend) * minSecondsPerTick ≤
    (s.now - s.lastClaimTime) * tickSize) .badParam
  require ((promoteDue s).tokensPend = (promoteDue s).tokensFinal) .settleWindowOpen
  return recordClaim cumulativeTokens (promoteDue s)

def claimTokens (cumulativeTokens : ℕ) (m : Msg) (s : Deal) : Except Err Deal := do
  require (m.pubkey = s.sellerPubkey) .notOwner
  require (s.opened = true) .notOpen
  require (s.disputed = false) .disputed
  require (s.probeAccepted = true) .notOpen
  require (cumulativeTokens ≥ s.tokensPend) .badParam
  if cumulativeTokens = s.tokensPend then return s
  claimAbove cumulativeTokens (settleToClock env s)

def finalize (s : Deal) : Except Err Deal := do
  require (s.opened = true ∧ s.disputed = false) .notOpen
  require (s.tokensPend > s.tokensFinal ∧ s.now ≥ s.lastClaimTime + claimPromoteWindow)
    .settleWindowOpen
  let s := promoteDue s
  if !isSubscription s && decide (s.tokensFinal ≥ s.fundedTokens) then
    return payFinalAndClose env s
  return s

/-- The weeks `settleWeek` books, with the timestamp sum of its closing test. -/
def settleWeekBooks (s : Deal) : Deal :=
  let s := s.check (s.periodStart ≤ s.now)
  let s := settleBoundaries env (weeksElapsed s) s
  s.check (s.weekIndex ≥ s.subWeeks → s.lastClaimTime + claimPromoteWindow < u64)

def settleWeek (s : Deal) : Except Err Deal := do
  require (isSubscription s = true) .badParam
  require (s.opened = true ∧ s.disputed = false) .notOpen
  require (s.probeAccepted = true) .notOpen
  require (weeksElapsed s > s.weekIndex ∨ s.weekIndex ≥ s.subWeeks) .settleWindowOpen
  let s := settleWeekBooks env s
  if s.weekIndex ≥ s.subWeeks ∧ s.now ≥ s.lastClaimTime + claimPromoteWindow then
    return payFinalAndClose env (promoteDue s)
  return s

def stop (m : Msg) (s : Deal) : Except Err Deal := do
  require (s.opened = true) .notOpen
  require (m.sender = s.buyer) .notBuyer
  require (s.disputed = false) .disputed
  return stopBody env s

def sellerStop (m : Msg) (s : Deal) : Except Err Deal := do
  require (m.pubkey = s.sellerPubkey) .notOwner
  require (s.opened = true) .notOpen
  require (s.disputed = false) .disputed
  return sellerStopBody env s

def dispute (m : Msg) (s : Deal) : Except Err Deal := do
  require (s.opened = true) .notOpen
  require (m.sender = s.buyer) .notBuyer
  require (s.disputed = false) .disputed
  return { s with disputed := true, everDisputed := true, disputeTime := s.now }.send
    (.streamDisputed s.buyer s.now)

def releaseDispute (m : Msg) (s : Deal) : Except Err Deal := do
  require (m.pubkey = s.sellerPubkey) .notOwner
  require (s.disputed = true) .notDisputed
  return releaseDisputeBody env s

def resolveDisputeTimeout (s : Deal) : Except Err Deal := do
  require (s.disputed = true) .notDisputed
  require (s.now ≥ s.disputeTime + disputeWindow) .disputeWindowOpen
  return resolveDisputeTimeoutBody env (s.check (s.disputeTime + disputeWindow < u64))

/-- `cleanupUnopened` past its guards. What the caller attached is burned through a `uint64`
conversion. -/
def cleanupUnopenedBody (m : Msg) (s : Deal) : Deal :=
  let s := s.check (m.sender = s.buyer ∨ s.fundedTime + matchOpenTimeout < u64)
  let s := s.check (m.shellAttached < u64)
  let s := releaseBuyerBond s
  let refund := s.deposit
  let bondBack := s.sellerBond
  let s := { s with
    deposit := 0, sellerBond := 0, funded := false
    sellerBondFunded := false, buyerBondFunded := false
    offerPosted := false, endpointCipher := [] }
  let s := payShell .buyer s.buyer refund s
  let s := payShell .seller s.sellerNote bondBack s
  let s := burnShell s.balance s
  announceClosed s.sellerNote (announceClosed s.buyer s)

def cleanupUnopened (m : Msg) (s : Deal) : Except Err Deal := do
  require (s.funded = true) .notFunded
  require (s.opened = false) .alreadyOpen
  require (s.everOpened = false) .alreadyOpen
  require (m.sender = s.buyer ∨ s.now ≥ s.fundedTime + matchOpenTimeout) .streamTimeoutOpen
  return cleanupUnopenedBody m s

def withdrawShell (amount : ℕ) (m : Msg) (s : Deal) : Except Err Deal := do
  require (m.pubkey = s.sellerPubkey) .notOwner
  require (amount > 0) .zeroAmount
  require (amount ≤ s.finalizedOwed) .insufficientTokens
  require (amount ≤ s.balance) .insufficientTokens
  let s' := (payShell .seller s.sellerNote amount
    { s with finalizedOwed := s.finalizedOwed - amount }).send (.shellWithdrawn s.sellerNote amount)
  if s.funded = true ∧ s.opened = false ∧ s.disputed = false ∧ s'.finalizedOwed = 0 ∧
      s.offerPosted = false then
    return sweepAndDie s'
  return s'

/-- The refund `destroy` makes on a matched deal that never opened. -/
def refundUnopened (s : Deal) : Deal :=
  let s := releaseBuyerBond (releaseProbe s)
  payShell .buyer s.buyer s.deposit { s with deposit := 0, funded := false }

def destroy (m : Msg) (s : Deal) : Except Err Deal := do
  require (m.pubkey = s.sellerPubkey) .notOwner
  require (s.opened = false) .stillOpen
  require (s.disputed = false) .disputed
  require (s.offerPosted = false) .offerLive
  return sweepAndDie (returnBond (if s.funded = true then refundUnopened s else s))

def close (m : Msg) (s : Deal) : Except Err Deal := do
  require (m.pubkey = s.sellerPubkey) .notOwner
  require (s.funded = false) .alreadyFunded
  require (s.offerPosted = false) .offerLive
  return sweepAndDie (returnBond s)

def touchDeal (m : Msg) (s : Deal) : Except Err Deal := do
  require (m.sender = s.buyer ∨ m.sender = s.sellerNote) .invalidSender
  return s

inductive Call where
  | fundFromOrderBook (paid : ℕ) (buyerNote : Address) (buyerPubkey dealFlags : ℕ)
  | postFromNote (iobHash iobDepth depositIdentifierHash flags deadline : ℕ)
  | onSellClosed
  | close
  | fundDeal (amount : ℕ) (endpointCipher : Option Bytes)
  | fundBuyerBond (amount : ℕ)
  | openDeal (endpointCipher : Bytes)
  | acceptProbe
  | claimTokens (cumulativeTokens : ℕ)
  | finalize
  | settleWeek
  | stop
  | sellerStop
  | dispute
  | releaseDispute
  | resolveDisputeTimeout
  | cleanupUnopened
  | withdrawShell (amount : ℕ)
  | destroy
  | touchDeal
  deriving DecidableEq

structure Tx where
  msg : Msg
  call : Call

def dispatch (m : Msg) (s : Deal) : Call → Except Err Deal
  | .fundFromOrderBook p b k f => fundFromOrderBook env p b k f m s
  | .postFromNote h d i f t => postFromNote env h d i f t m s
  | .onSellClosed => onSellClosed env m s
  | .close => close m s
  | .fundDeal a c => fundDeal a c m s
  | .fundBuyerBond a => fundBuyerBond a m s
  | .openDeal c => openDeal c m s
  | .acceptProbe => acceptProbe m s
  | .claimTokens n => claimTokens env n m s
  | .finalize => finalize env s
  | .settleWeek => settleWeek env s
  | .stop => stop env m s
  | .sellerStop => sellerStop env m s
  | .dispute => dispute m s
  | .releaseDispute => releaseDispute env m s
  | .resolveDisputeTimeout => resolveDisputeTimeout env s
  | .cleanupUnopened => cleanupUnopened m s
  | .withdrawShell a => withdrawShell a m s
  | .destroy => destroy m s
  | .touchDeal => touchDeal m s

def enter (m : Msg) (s : Deal) : Deal := { s with now := m.now, fault := false }

def perform (tx : Tx) (s : Deal) : Except Err Deal :=
  if s.destroyed then .error .destroyed else dispatch env tx.msg (enter tx.msg s) tx.call

def exec (tx : Tx) (s : Deal) : Except Err Deal :=
  match perform env tx s with
  | .error e => .error e
  | .ok t => if t.fault then .error .arithmetic else .ok t

/-! ## Runs -/

/-- Block times do not go back, and a block time is a unix time in seconds: `uint64` holds it
with room to spare. -/
structure Admissible (s : Deal) (tx : Tx) : Prop where
  later : s.now ≤ tx.msg.now
  clock : tx.msg.now < 2 ^ 63

instance (s : Deal) (tx : Tx) : Decidable (Admissible s tx) :=
  decidable_of_iff (s.now ≤ tx.msg.now ∧ tx.msg.now < 2 ^ 63)
    ⟨fun h => ⟨h.1, h.2⟩, fun h => ⟨h.later, h.clock⟩⟩

def Constructed (s : Deal) : Prop :=
  ∃ m a, m.now < 2 ^ 63 ∧ construct env m a = .ok s

def Reachable (Φ : Deal → Tx → Prop) (s : Deal) : Prop :=
  TransactionSystem.Reachable (Constructed env) (exec env)
    (fun s tx => Admissible s tx ∧ Φ s tx) s

def AnyTx (_ : Deal) (_ : Tx) : Prop := True

instance (s : Deal) (tx : Tx) : Decidable (AnyTx s tx) := inferInstanceAs (Decidable True)

end TokenContractCalls
