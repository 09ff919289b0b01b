import Mathlib.Data.List.Basic
import Mathlib.Tactic.Linarith

/-! # The record a TokenContract keeps

One deal contract of `contracts/airegistry/TokenContract.sol`: its storage, the messages and events
it sends, and the figures read off them. An arithmetic exception reverts the whole transaction, so
it is recorded as a flag that every checked operation may raise and that the commit at the end of
the call inspects. -/
namespace TokenContractState

abbrev Address := ℕ
abbrev Bytes := List UInt8

def u8 : ℕ := 2 ^ 8
def u64 : ℕ := 2 ^ 64
def u128 : ℕ := 2 ^ 128

def bpsDenominator : ℕ := 10000
def platformFeeBps : ℕ := 250
def rebateMaxBps : ℕ := 200
def rebateSlopeBps : ℕ := 4
def probeWindow : ℕ := 180
def disputeWindow : ℕ := 600
def matchOpenTimeout : ℕ := 600
def subWeekLen : ℕ := 604800
def subWeeksConst : ℕ := 4
def minSecondsPerTick : ℕ := 60
def claimPromoteWindow : ℕ := minSecondsPerTick
def minClaimInterval : ℕ := minSecondsPerTick
def tickSize : ℕ := 1000000
def maxClaimDelta : ℕ := tickSize
def flagSubscription : ℕ := 0x40

/-- The names of `AiRegistryErrors`; the numbers behind them are not in the repository. -/
inductive Err where
  | invalidSender | notOwner | badParam | overflow | insufficientDeposit | noShell
  | alreadyFunded | notFunded | alreadyOpen | notOpen | stillOpen | bondAlreadyFunded
  | bondNotFunded | offerLive | disputed | notDisputed | alreadyRegistered
  | settleWindowOpen | disputeWindowOpen | streamTimeoutOpen | notBuyer | zeroAmount
  | insufficientTokens
  | arithmetic
  | destroyed
  deriving DecidableEq, Repr

/-- Which expression of the source named the note a credit goes to. `residual` is the sweep
of what is left on `_balance` to `_sellerNote` right before `selfdestruct`; `caller` and
`fillBuyer` are `msg.sender` and the `buyerNote` argument of a refused fill. -/
inductive Payee where
  | buyer | seller | residual | caller | fillBuyer
  deriving DecidableEq, Repr

/-- Outgoing messages and events, in the words of the source. -/
inductive Out where
  | creditFromDeal (payee : Payee) (dest : Address) (amount : ℕ)
  | reportDealWriteOff (amount : ℕ)
  | onDealClosed (dest : Address)
  | onHandoverAccepted (dest : Address)
  | placeSellOffer (book : Address) (pricePerTick maxTicks flags deadline : ℕ)
  | reportFinalized (book : Address) (pricePerTick cumulativeFinalized : ℕ)
  | registerTokenContract (rootModel : Address)
  | contractDeployed
  | streamFunded (buyer : Address) (deposit : ℕ)
  | sellerBondFunded (amount : ℕ)
  | buyerBondFunded (amount : ℕ)
  | streamOpened (buyer : Address) (pricePerTick : ℕ)
  | endpointSet (endpointCipher : Bytes)
  | tickFinalized (finalizedOwed deposit : ℕ)
  | ticksClaimed (trusted claimed : ℕ)
  | streamStopped (buyer : Address) (toSeller refundToBuyer : ℕ)
  | probeAccepted (buyer : Address) (toSeller bondReturned : ℕ)
  | probeBurned (buyer : Address) (burnedProbe burnedBond refundToBuyer : ℕ)
  | streamDisputed (buyer : Address) (time : ℕ)
  | disputeResolved (toSeller refundToBuyer : ℕ) (released : Bool)
  | shellWithdrawn (recipient : Address) (amount : ℕ)
  | contractDestroyed

structure Sent where
  time : ℕ
  body : Out

/-! ## Storage, by what it is about -/

structure Config where
  sellerPubkey : ℕ
  rootModelAddress : Address
  nonce : ℕ
  modelName : String
  modelHash : ℕ
  pricePerTick : ℕ
  maxTicks : ℕ
  sellerNote : Address

structure Listing where
  iobHash : ℕ := 0
  iobDepth : ℕ := 0
  noteAuthorized : Bool := false
  offerPosted : Bool := false
  buyer : Address := 0
  buyerPubkey : ℕ := 0
  endpointCipher : Bytes := []
  fundedTime : ℕ := 0

structure Phase where
  funded : Bool := false
  opened : Bool := false
  everOpened : Bool := false
  disputed : Bool := false
  everDisputed : Bool := false
  probeAccepted : Bool := false
  sellerBondFunded : Bool := false
  buyerBondFunded : Bool := false
  probeTime : ℕ := 0
  disputeTime : ℕ := 0

structure Purse where
  balance : ℕ := 0
  deposit : ℕ := 0
  probeTick : ℕ := 0
  finalizedOwed : ℕ := 0
  feeAccrued : ℕ := 0
  buyerBond : ℕ := 0
  sellerBond : ℕ := 0

structure Term where
  dealFlags : ℕ := 0
  subWeeks : ℕ := 0
  weekIndex : ℕ := 0
  tokensPerWeek : ℕ := 0
  fundedTokens : ℕ := 0
  tokensPaid : ℕ := 0
  periodStart : ℕ := 0
  weekBaseTokens : ℕ := 0

structure Claims where
  tokensFinal : ℕ := 0
  tokensPend : ℕ := 0
  lastClaimTime : ℕ := 0
  ticksFinalized : ℕ := 0

/-- Not storage: the block time of the transaction being executed, whether the account is
gone, whether a checked operation of this transaction threw, whether a
`pay + fee > _deposit` clamp ever fired, and everything sent so far. -/
structure Journal where
  now : ℕ := 0
  destroyed : Bool := false
  fault : Bool := false
  clamped : Bool := false
  out : List Sent := []

structure Deal extends Config, Listing, Phase, Purse, Term, Claims, Journal

def Deal.check (s : Deal) (p : Prop) [Decidable p] : Deal :=
  { s with fault := s.fault || !decide p }

theorem Deal.check_pass {s : Deal} {p : Prop} [Decidable p] (h : p) : s.check p = s := by
  simp [Deal.check, h]

def Deal.send (s : Deal) (o : Out) : Deal := { s with out := s.out ++ [⟨s.now, o⟩] }

def sentIf (p : Prop) [Decidable p] (time : ℕ) (o : Out) : List Sent :=
  if p then [⟨time, o⟩] else []

def Deal.sendIf (s : Deal) (p : Prop) [Decidable p] (o : Out) : Deal :=
  { s with out := s.out ++ sentIf p s.now o }

def Deal.earmarks (s : Deal) : ℕ :=
  s.deposit + s.probeTick + s.finalizedOwed + s.feeAccrued + s.buyerBond + s.sellerBond

/-! ## Figures read off the outgoing traffic -/

def tally (f : Out → ℕ) (l : List Sent) : ℕ := (l.map (fun m => f m.body)).sum

@[simp] theorem tally_nil (f : Out → ℕ) : tally f [] = 0 := rfl

@[simp] theorem tally_append (f : Out → ℕ) (l m : List Sent) :
    tally f (l ++ m) = tally f l + tally f m := by
  simp [tally]

@[simp] theorem tally_cons (f : Out → ℕ) (m : Sent) (l : List Sent) :
    tally f (m :: l) = f m.body + tally f l := by
  simp [tally]

@[simp] theorem tally_sentIf (f : Out → ℕ) (p : Prop) [Decidable p] (time : ℕ) (o : Out) :
    tally f (sentIf p time o) = if p then f o else 0 := by
  unfold sentIf
  split <;> simp

def creditOf (p : Payee) : Out → ℕ
  | .creditFromDeal q _ amount => if q = p then amount else 0
  | _ => 0

def writeOffOf : Out → ℕ
  | .reportDealWriteOff amount => amount
  | _ => 0

def withdrawalOf : Out → ℕ
  | .shellWithdrawn _ amount => amount
  | _ => 0

def Deal.credited (s : Deal) (p : Payee) : ℕ := tally (creditOf p) s.out

def Deal.burned (s : Deal) : ℕ := tally writeOffOf s.out

def Deal.withdrawn (s : Deal) : ℕ := tally withdrawalOf s.out

/-! ## Prices -/

def fee (amount : ℕ) : ℕ := amount * platformFeeBps / bpsDenominator

def unit (p : ℕ) : ℕ := p + fee p

theorem fee_mono {a b : ℕ} (h : a ≤ b) : fee a ≤ fee b := by
  unfold fee platformFeeBps bpsDenominator
  omega

theorem unit_mono {a b : ℕ} (h : a ≤ b) : unit a ≤ unit b :=
  Nat.add_le_add h (fee_mono h)

def valueOf (p n : ℕ) : ℕ := n * p / tickSize

theorem valueOf_mono (p : ℕ) {m n : ℕ} (h : m ≤ n) : valueOf p m ≤ valueOf p n :=
  Nat.div_le_div_right (Nat.mul_le_mul_right p h)

end TokenContractState
