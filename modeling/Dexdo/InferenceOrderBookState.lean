import Dexdo.TokenContractState
import Dexdo.SolidityMapping

/-! # The record an InferenceOrderBook keeps

The book of `contracts/airegistry/InferenceOrderBook.sol`: orders in two families of linked lists,
price levels, the circular queue, and the messages and events it sends. Reference-price statistics
are fed by `reportFinalized` alone, read nothing kept here and are left out, and so is gas. As for
a deal, an arithmetic exception is a flag that the end of the transaction inspects. -/
namespace InferenceOrderBookState

open TokenContractState SolidityMapping

def flagIoc : ℕ := 0x01
def flagFok : ℕ := 0x02
def flagMarket : ℕ := 0x04
def flagPostOnly : ℕ := 0x08
def takerFlags : ℕ := 0x07
def flagTee : ℕ := 0x10
def flagAon : ℕ := 0x20
def dealFlagsMask : ℕ := 0x50
def unsupportedFlags : ℕ := 0x80

def maxMatchesPerCall : ℕ := 30
def maxCancelPerCall : ℕ := 30
def maxPrecheckLevels : ℕ := 40
def maxScanPerCall : ℕ := 100
def maxPrecheckScan : ℕ := 400
def queueCapacity : ℕ := 100
def queuePlaceLimit : ℕ := 90
def subTicksPerWeek : ℕ := subWeekLen / minSecondsPerTick
def priceStep : ℕ := 1000000000
def maxPrice : ℕ := 2 ^ 256 - 1

inductive Removed where
  | filled | cancelled | expired | dust | rejected
  deriving DecidableEq, Repr

inductive CancelRej where
  | notFound | notOwner | queueFull
  deriving DecidableEq, Repr

inductive PlaceRej where
  | postOnly | fok | expired | endTaker
  deriving DecidableEq, Repr

inductive Err where
  | notDeployerNote | nameTooLong | badModelName | badTokenContract | invalidSender | badParam
  | badFlags | expired | noShell | insufficientDeposit | queueFull | arithmetic
  deriving DecidableEq, Repr

/-! ## Storage -/

/-- What an order says. `tag` is not storage: the number of the accepted BUY it stems from. -/
structure Terms where
  note : Address := 0
  buyerPubkey : ℕ := 0
  tokenContract : Address := 0
  price : ℕ := 0
  amount : ℕ := 0
  initialAmount : ℕ := 0
  filledAccum : ℕ := 0
  escrow : ℕ := 0
  deadline : ℕ := 0
  clientOrderId : ℕ := 0
  ts : ℕ := 0
  flags : ℕ := 0
  isBuy : Bool := false
  tag : ℕ := 0

structure Links where
  nextAtPrice : ℕ := 0
  prevAtPrice : ℕ := 0
  nextInOwner : ℕ := 0
  prevInOwner : ℕ := 0

structure Order extends Terms, Links

instance : Inhabited Order := ⟨{}⟩

structure PriceLevel where
  firstOrderId : ℕ := 0
  lastOrderId : ℕ := 0

instance : Inhabited PriceLevel := ⟨{}⟩

inductive EntryType where
  | absent | place | cancel | cancelAll | expire
  deriving DecidableEq, Repr

structure QueueEntry where
  entryType : EntryType := .absent
  owner : Address := 0
  buyerPubkey : ℕ := 0
  isBuy : Bool := false
  flags : ℕ := 0
  price : ℕ := 0
  amount : ℕ := 0
  escrow : ℕ := 0
  tokenContract : Address := 0
  deadline : ℕ := 0
  clientOrderId : ℕ := 0
  targetOrderId : ℕ := 0
  contOrderId : ℕ := 0
  contRemaining : ℕ := 0
  contLeftover : ℕ := 0
  contScanOrder : ℕ := 0
  tag : ℕ := 0

instance : Inhabited QueueEntry := ⟨{}⟩

/-! ## Outgoing messages and events -/

inductive Out where
  | fundFromOrderBook (deal : Address) (paid : ℕ) (buyerNote : Address)
      (buyerPubkey dealFlags : ℕ)
  | onSellClosed (deal : Address)
  | creditFromBook (note : Address) (amount modelHash : ℕ)
  | onInferencePlaced (note : Address) (modelHash : ℕ) (tokenContract : Address)
      (orderId clientOrderId : ℕ) (isBuy : Bool) (price ticks : ℕ)
  | onInferenceFilled (note : Address) (modelHash : ℕ) (tokenContract : Address)
      (orderId clientOrderId ticks clearingPrice spent : ℕ) (isBuy : Bool)
  | onInferenceRejected (note : Address) (modelHash clientOrderId : ℕ) (reason : PlaceRej)
      (refunded : ℕ)
  | onInferenceOrderRemoved (note : Address) (modelHash orderId : ℕ) (cause : Removed)
      (refunded : ℕ)
  | processHead
  | inferenceOrderBookDeployed (note : Address) (modelHash : ℕ) (modelName : String)
  | inferenceOrderPlaced (orderId : ℕ) (isBuy : Bool) (price ticks : ℕ)
      (note tokenContract : Address) (deadline flags : ℕ)
  | inferenceOrderCancelled (orderId refunded : ℕ) (note : Address)
  | inferenceOrderCancelRejected (orderId : ℕ) (reason : CancelRej) (note : Address)
  | inferenceFilled (makerId takerId ticks clearingPrice : ℕ)
      (sellerTC buyerNote sellerNote : Address)
  | inferenceExecuted (ticks clearingPrice cost : ℕ)
  | inferenceRefunded (orderId : ℕ) (note : Address) (amount : ℕ)
  | inferenceOrderRejected (reason : PlaceRej) (note tokenContract : Address) (refund : ℕ)
  | inferenceOrderExpired (orderId : ℕ) (isBuy : Bool) (note tokenContract : Address)

structure Sent where
  tag : ℕ
  body : Out

/-- Storage, then what is not: the block time, the arithmetic flag, whether one of the two escrow
subtractions of `_match` ever went below zero, whether an escrow ever cut a fill of a resting bid
short, the number of BUYs accepted, and everything sent. -/
structure Book where
  modelHash : ℕ := 0
  modelName : String := ""
  deployerNote : Address := 0
  orders : Mapping Order := .empty
  nextOrderId : ℕ := 0
  orderCount : ℕ := 0
  levels : Bool → Mapping PriceLevel := fun _ => .empty
  ownerHead : Address → ℕ := fun _ => 0
  ownerTail : Address → ℕ := fun _ => 0
  executedNotional : ℕ := 0
  executedTicks : ℕ := 0
  matchSeq : ℕ := 0
  queue : Mapping QueueEntry := .empty
  queueHead : ℕ := 0
  queueTail : ℕ := 0
  queueSize : ℕ := 0
  handoverBuyer : Address → Address := fun _ => 0
  now : ℕ := 0
  fault : Bool := false
  underflow : Bool := false
  shortfall : Bool := false
  bids : ℕ := 0
  out : List Sent := []

def Book.check (s : Book) (p : Prop) [Decidable p] : Book :=
  { s with fault := s.fault || !decide p }

def Book.sendFor (s : Book) (tag : ℕ) (o : Out) : Book := { s with out := s.out ++ [⟨tag, o⟩] }

def Book.send (s : Book) (o : Out) : Book := s.sendFor 0 o

def Book.level (s : Book) (isBuy : Bool) (price : ℕ) : PriceLevel := (s.levels isBuy).get price

def Book.editOrder (s : Book) (id : ℕ) (f : Order → Order) : Book :=
  { s with orders := s.orders.modify id f }

end InferenceOrderBookState
