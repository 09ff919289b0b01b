import Dexdo.TokenContractState
import Dexdo.SolidityMapping

/-! # The record a dex OrderBook keeps

The book of `contracts/dex/OrderBook.sol` for one prediction event: resting orders in two families
of linked lists, price levels with the amount that rests on each, a circular queue of admitted
operations, and the messages and events it sends. The three static fields that every callback
repeats to name the book are left out of the messages, and so is gas. An arithmetic exception is a
flag that the end of the transaction inspects; a conversion that cut a figure short is another one,
which nothing inspects. -/
namespace DexOrderBookState

open TokenContractState (Address u64 u128)
open SolidityMapping

def u32 : ℕ := 2 ^ 32
def u256 : ℕ := 2 ^ 256

def maxMatchesPerCall : ℕ := 30
def maxCancelAllPerCall : ℕ := 30
def maxShutdownBatch : ℕ := 10
def maxPrecheckIterations : ℕ := 3000
def maxBatchSize : ℕ := 10
def queueCapacity : ℕ := 100
def queuePlaceLimit : ℕ := 90

def flagIoc : ℕ := 0x01
def flagFok : ℕ := 0x02
def flagMarket : ℕ := 0x04
def flagPostOnly : ℕ := 0x08

def currenciesIdShell : ℕ := 2
def currenciesIdUsdc : ℕ := 3

def minOrderNotional (tokenType : ℕ) : ℕ :=
  if tokenType = currenciesIdShell then 100000000000
  else if tokenType = currenciesIdUsdc then 1000000
  else 10000000000

def lotSize (tokenType : ℕ) : ℕ :=
  if tokenType = currenciesIdShell then 10000000
  else if tokenType = currenciesIdUsdc then 10000
  else 10000000

def tickSize : ℕ := 10
def fullPercent : ℕ := 10000
def feeDenominator : ℕ := 100000
def takerFeeRate : ℕ := 45
def makerRebateNum : ℕ := 3
def makerRebateDen : ℕ := 4

inductive Err where
  | alreadyCancelled | resultNotStarted | invalidSender | batchTooLarge | invalidParams
  | badMessage | noAccount | arithmetic
  deriving DecidableEq, Repr

/-! ## Storage -/

/-- What an order says. -/
structure Terms where
  depositHash : ℕ := 0
  price : ℕ := 0
  amount : ℕ := 0
  minAmount : ℕ := 0
  initialAmount : ℕ := 0
  filledAccum : ℕ := 0
  clientOrderId : ℕ := 0
  epochId : ℕ := 0
  opNonce : ℕ := 0
  outcomeId : ℕ := 0
  flags : ℕ := 0
  isBuy : Bool := false

structure Links where
  nextAtPrice : ℕ := 0
  prevAtPrice : ℕ := 0
  nextInOwner : ℕ := 0
  prevInOwner : ℕ := 0

structure Order extends Terms, Links

instance : Inhabited Order := ⟨{}⟩

structure PriceLevel where
  firstOrderId : ℕ := 0
  lastOrderId : ℕ := 0
  totalAmount : ℕ := 0

instance : Inhabited PriceLevel := ⟨{}⟩

/-- The keys of `_levels` above the price: one side of one outcome in one epoch. -/
structure Side where
  outcomeId : ℕ
  isBuy : Bool
  epochId : ℕ
  deriving DecidableEq, Repr

def Terms.side (o : Terms) : Side := ⟨o.outcomeId, o.isBuy, o.epochId⟩

def Terms.place (o : Terms) : Side × ℕ := (o.side, o.price)

structure PlaceParams where
  outcomeId : ℕ := 0
  isBuy : Bool := false
  flags : ℕ := 0
  price : ℕ := 0
  amount : ℕ := 0
  minAmount : ℕ := 0
  epochId : ℕ := 0
  clientOrderId : ℕ := 0
  deriving DecidableEq, Repr

inductive EntryType where
  | absent | place | cancel | cancelAll
  deriving DecidableEq, Repr

/-- `call` and `index` are not storage: which admitted call the entry stems from, and which of
the orders of that call it is. -/
structure QueueEntry extends PlaceParams where
  entryType : EntryType := .absent
  queueId : ℕ := 0
  depositHash : ℕ := 0
  targetOrderId : ℕ := 0
  filledAccum : ℕ := 0
  precheckDone : Bool := false
  precheckAccum : ℕ := 0
  precheckLastPrice : ℕ := 0
  isBatchEnd : Bool := false
  opNonce : ℕ := 0
  call : ℕ := 0
  index : ℕ := 0

instance : Inhabited QueueEntry := ⟨{}⟩

/-! ## Outgoing messages and events -/

inductive Out where
  | onOrderRejected (note outcomeId : ℕ) (isBuy : Bool) (flags price amount numOutcomes
      clientOrderId opNonce : ℕ)
  | onOrderPlaced (note orderId feeReserve lock clientOrderId outcomeId : ℕ) (isBuy : Bool)
      (flags price amount opNonce : ℕ)
  | onOrderFilled (note outcomeId filledAmount clearingPrice : ℕ) (isBuy : Bool)
      (buyerRefund feeAmount : ℕ) (isMaker : Bool) (orderId : ℕ) (isFinal : Bool)
      (numOutcomes clientOrderId : ℕ)
  | onOrderCancelled (note orderId outcomeId : ℕ) (isBuy : Bool)
      (returnAmt clientOrderId opNonce : ℕ)
  | onBatchComplete (note opNonce : ℕ)
  | processHead
  | shutdown
  | collectProtocolFee (amount : ℕ)
  | onOrderBookShutdownComplete
  | orderPlaced (orderId outcomeId : ℕ) (isBuy : Bool)
      (flags price amount clientOrderId depositHash opNonce : ℕ)
  | orderCancelled (orderId clientOrderId : ℕ)
  | orderFilled (orderId filledAmount clearingPrice feeAmount : ℕ) (isTaker : Bool)
      (matchId depositHash : ℕ)
  | partialFill (orderId clientOrderId filledAmount remainingAmount : ℕ)
  | fullyFilled (orderId clientOrderId filledAmount : ℕ)
  | queued (slot queueId : ℕ) (entryType : EntryType)
  | rejected (entryType : EntryType) (depositHash : ℕ)
  | callbackBounced (dest : Address) (lt : ℕ)
  deriving DecidableEq, Repr

structure Sent where
  call : ℕ
  index : ℕ
  body : Out
  deriving DecidableEq, Repr

structure Admitted where
  depositHash : ℕ
  opNonce : ℕ
  orders : List PlaceParams
  deriving DecidableEq, Repr

/-- Storage, then what is not: the block time, whether the account is gone, the two arithmetic
flags, the calls admitted so far and everything sent. -/
structure Book where
  tokenType : ℕ := 0
  self : Address := 0
  pmpAddress : Address := 0
  resultStart : ℕ := 0
  numOutcomes : ℕ := 0
  orders : Mapping Order := .empty
  levels : Side → Mapping PriceLevel := fun _ => .empty
  ownerHead : ℕ → ℕ := fun _ => 0
  ownerTail : ℕ → ℕ := fun _ => 0
  nextOrderId : ℕ := 0
  orderCount : ℕ := 0
  shuttingDown : Bool := false
  shutdownPending : Bool := false
  shutdownCursor : ℕ := 0
  totalMakerRebatesPaid : ℕ := 0
  totalProtocolFees : ℕ := 0
  matchSeq : ℕ := 0
  queue : Mapping QueueEntry := .empty
  queueHead : ℕ := 0
  queueTail : ℕ := 0
  queueSize : ℕ := 0
  nextQueueId : ℕ := 0
  now : ℕ := 0
  destroyed : Bool := false
  fault : Bool := false
  lossy : Bool := false
  admitted : List Admitted := []
  out : List Sent := []

def Book.check (s : Book) (p : Prop) [Decidable p] : Book :=
  { s with fault := s.fault || !decide p }

def toU128 (x : ℕ) : ℕ := x % u128

def Book.cast (s : Book) (x : ℕ) : Book :=
  { s with lossy := s.lossy || !decide (x < u128) }

def Book.answer (s : Book) (call index : ℕ) (o : Out) : Book :=
  { s with out := s.out ++ [⟨call, index, o⟩] }

def Book.send (s : Book) (o : Out) : Book := s.answer 0 0 o

def Book.level (s : Book) (side : Side) (price : ℕ) : PriceLevel := (s.levels side).get price

def Book.editOrder (s : Book) (id : ℕ) (f : Order → Order) : Book :=
  { s with orders := s.orders.modify id f }

end DexOrderBookState
