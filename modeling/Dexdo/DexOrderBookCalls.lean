import Dexdo.DexOrderBookState
import Dexdo.TransactionSystem

/-! # The calls of a dex OrderBook

`OrderBook.sol` function by function: navigation, book mutation, callbacks, the matching engine,
the queue and the public entries. Loops are recursions on the budgets the source gives them; the
walk over price levels, which has no budget of its own, is bounded by the number of levels it can
visit. -/
namespace DexOrderBookCalls

open TokenContractState (Address u64 u128)
open SolidityMapping DexOrderBookState

/-- `computePrivateNoteAddressFromHash` for a deposit hash and `computePMPAddressFromHash` for a
token type. -/
structure Env where
  noteAddress : ℕ → Address
  pmpAddress : ℕ → Address

structure Msg where
  sender : Address
  now : ℕ
  lt : ℕ := 0

def require (p : Prop) [Decidable p] (e : Err) : Except Err Unit :=
  if p then .ok () else .error e

@[simp] theorem require_bind_ok {p : Prop} [Decidable p] {e : Err} {α : Type}
    {f : Unit → Except Err α} {t : α} : (require p e >>= f) = .ok t ↔ p ∧ f () = .ok t := by
  by_cases h : p <;> simp [require, h, bind, Except.bind]

@[simp] theorem pure_ok {α : Type} (a : α) : (pure a : Except Err α) = .ok a := rfl

/-! ## Level navigation -/

structure Taker extends PlaceParams where
  depositHash : ℕ
  orderId : ℕ
  storedPrice : ℕ
  isMarket : Bool
  opNonce : ℕ

def Taker.opposite (k : Taker) : Side := ⟨k.outcomeId, !k.isBuy, k.epochId⟩

def Taker.countsQuote (k : Taker) : Bool := k.isBuy && k.isMarket

def bestOpposite (k : Taker) (s : Book) : Option ℕ :=
  if k.isBuy then (s.levels k.opposite).min else (s.levels k.opposite).max

def nextOpposite (k : Taker) (currentPrice : ℕ) (s : Book) : Option ℕ :=
  if k.isBuy then (s.levels k.opposite).next currentPrice
  else (s.levels k.opposite).prev currentPrice

def pricesCross (newIsBuy : Bool) (newPrice : ℕ) (newIsMarket : Bool) (cpPrice : ℕ) : Bool :=
  if newIsMarket then true
  else if newIsBuy then decide (newPrice ≥ cpPrice) else decide (cpPrice ≥ newPrice)

def Taker.crosses (k : Taker) (price : ℕ) : Bool :=
  pricesCross k.isBuy k.storedPrice k.isMarket price

def collateralFor (isBuy : Bool) (price amount : ℕ) : ℕ :=
  if isBuy then toU128 (amount * price / fullPercent) else amount

def Book.priced (s : Book) (isBuy : Bool) (price amount : ℕ) : Book :=
  if isBuy then (s.check (amount * price < u256)).cast (amount * price / fullPercent) else s

/-! ## Book mutation -/

def amend (id : ℕ) (f : Order → Order) (m : Mapping Order) : Mapping Order :=
  if id = 0 then m else m.modify id f

def setLevel (side : Side) (price : ℕ) (level : PriceLevel) (s : Book) : Book :=
  { s with levels := Function.update s.levels side ((s.levels side).set price level) }

def deleteLevel (side : Side) (price : ℕ) (s : Book) : Book :=
  { s with levels := Function.update s.levels side ((s.levels side).delete price) }

def levelWith (orderId amount : ℕ) (level : PriceLevel) : PriceLevel :=
  if level.lastOrderId = 0 then ⟨orderId, orderId, amount⟩
  else { level with lastOrderId := orderId, totalAmount := level.totalAmount + amount }

/-- The new order joins the list of its price level. -/
def linkAtPrice (orderId : ℕ) (o : Order) (s : Book) : Book :=
  let level := s.level o.side o.price
  let s := s.check (level.lastOrderId ≠ 0 → level.totalAmount + o.amount < u128)
  setLevel o.side o.price (levelWith orderId o.amount level) { s with
    orders := amend level.lastOrderId (fun p => { p with nextAtPrice := orderId }) s.orders }

/-- And that of its owner. -/
def linkInOwner (orderId : ℕ) (o : Order) (s : Book) : Book :=
  let oTail := s.ownerTail o.depositHash
  { s with
    orders := amend oTail (fun p => { p with nextInOwner := orderId }) s.orders
    ownerHead := if oTail = 0 then Function.update s.ownerHead o.depositHash orderId
      else s.ownerHead
    ownerTail := Function.update s.ownerTail o.depositHash orderId }

def insertIntoBook (orderId : ℕ) (o : Order) (s : Book) : Book :=
  let o := { o with
    nextAtPrice := 0, prevAtPrice := (s.level o.side o.price).lastOrderId
    nextInOwner := 0, prevInOwner := s.ownerTail o.depositHash }
  let s := { s with orders := s.orders.set orderId o }
  let s := linkInOwner orderId o (linkAtPrice orderId o s)
  { s.check (s.orderCount + 1 < u32) with orderCount := s.orderCount + 1 }

/-- The level that `o` leaves. -/
def levelAfter (o : Order) (level : PriceLevel) : PriceLevel where
  firstOrderId := if o.prevAtPrice = 0 then o.nextAtPrice else level.firstOrderId
  lastOrderId := if o.nextAtPrice = 0 then o.prevAtPrice else level.lastOrderId
  -- the source clamps at zero
  totalAmount := level.totalAmount - o.amount

/-- `_removeFromBook` takes the order out of its price level; an empty level is deleted. -/
def unlinkAtPrice (o : Order) (s : Book) : Book :=
  let level := levelAfter o (s.level o.side o.price)
  let s := { s with
    orders := amend o.nextAtPrice (fun p => { p with prevAtPrice := o.prevAtPrice })
      (amend o.prevAtPrice (fun p => { p with nextAtPrice := o.nextAtPrice }) s.orders) }
  if level.firstOrderId = 0 then deleteLevel o.side o.price s
  else setLevel o.side o.price level s

/-- And out of its owner's list. -/
def unlinkInOwner (o : Order) (s : Book) : Book :=
  { s with
    orders := amend o.nextInOwner (fun p => { p with prevInOwner := o.prevInOwner })
      (amend o.prevInOwner (fun p => { p with nextInOwner := o.nextInOwner }) s.orders)
    ownerHead := if o.prevInOwner = 0 then Function.update s.ownerHead o.depositHash o.nextInOwner
      else s.ownerHead
    ownerTail := if o.nextInOwner = 0 then Function.update s.ownerTail o.depositHash o.prevInOwner
      else s.ownerTail }

def removeFromBook (orderId : ℕ) (s : Book) : Book :=
  let o := s.orders.get orderId
  if o.depositHash = 0 ∧ o.amount = 0 then s
  else
    let s := unlinkInOwner o (unlinkAtPrice o s)
    { s.check (1 ≤ s.orderCount) with
      orders := s.orders.delete orderId, orderCount := s.orderCount - 1 }

/-! ## Callbacks -/

def notifyRejectedPlace (depositHash : ℕ) (op : PlaceParams) (opNonce call index : ℕ) (s : Book) :
    Book :=
  s.answer call index (.onOrderRejected depositHash op.outcomeId op.isBuy op.flags op.price
    op.amount s.numOutcomes op.clientOrderId opNonce)

def notifyBatchAccepted (depositHash opNonce call : ℕ) (s : Book) : Book :=
  s.answer call 0 (.onBatchComplete depositHash opNonce)

def placeCost (op : PlaceParams) : ℕ :=
  if op.flags &&& flagMarket ≠ 0 then op.amount else toU128 (op.amount * op.price / fullPercent)

def feeReserveOf (op : PlaceParams) : ℕ :=
  if op.isBuy then placeCost op * takerFeeRate / feeDenominator else 0

def lockOf (op : PlaceParams) : ℕ := if op.isBuy then placeCost op + feeReserveOf op else 0

/-- `_emitOrderPlacedTo`. -/
def emitOrderPlaced (orderId : ℕ) (e : QueueEntry) (s : Book) : Book :=
  let s := if e.isBuy ∧ e.flags &&& flagMarket = 0 then Book.priced s true e.price e.amount else s
  let s := s.check (lockOf e.toPlaceParams < u128)
  let s := s.send (.orderPlaced orderId e.outcomeId e.isBuy e.flags e.price e.amount
    e.clientOrderId e.depositHash e.opNonce)
  s.answer e.call e.index (.onOrderPlaced e.depositHash orderId (feeReserveOf e.toPlaceParams)
    (lockOf e.toPlaceParams) e.clientOrderId e.outcomeId e.isBuy e.flags e.price e.amount e.opNonce)

/-- `_emitOrderCancelled` with `_notifyOrderCancelledTo`. -/
def sayCancelled (note orderId outcomeId : ℕ) (isBuy : Bool) (returnAmt clientOrderId opNonce : ℕ)
    (s : Book) : Book :=
  (s.send (.orderCancelled orderId clientOrderId)).send
    (.onOrderCancelled note orderId outcomeId isBuy returnAmt clientOrderId opNonce)

/-- An order that rests leaves with its collateral: the common part of `_doCancel`,
`_doCancelAll` and `shutdown`. -/
def cancelResting (note orderId opNonce : ℕ) (s : Book) : Book :=
  let o := s.orders.get orderId
  let s := removeFromBook orderId (Book.priced s o.isBuy o.price o.amount)
  sayCancelled note orderId o.outcomeId o.isBuy (collateralFor o.isBuy o.price o.amount)
    o.clientOrderId opNonce s

def notionalOf (filledAmount clearingPrice : ℕ) : ℕ :=
  toU128 (filledAmount * clearingPrice / fullPercent)

def takerFeeOf (filledAmount clearingPrice : ℕ) : ℕ :=
  notionalOf filledAmount clearingPrice * takerFeeRate / feeDenominator

def makerRebateOf (filledAmount clearingPrice : ℕ) : ℕ :=
  takerFeeOf filledAmount clearingPrice * makerRebateNum / makerRebateDen

/-- The share of a fee that stays with the book, or the rebate that leaves it. -/
def bookFee (isTaker : Bool) (filledAmount clearingPrice : ℕ) (s : Book) : Book :=
  let takerFee := takerFeeOf filledAmount clearingPrice
  let makerRebate := makerRebateOf filledAmount clearingPrice
  if isTaker then
    { s.check (s.totalProtocolFees + (takerFee - makerRebate) < u128) with
      totalProtocolFees := s.totalProtocolFees + (takerFee - makerRebate) }
  else
    { s.check (s.totalMakerRebatesPaid + makerRebate < u128) with
      totalMakerRebatesPaid := s.totalMakerRebatesPaid + makerRebate }

/-- `_processFill` and `_processFillTo`. -/
def processFill (note orderId outcomeId filledAmount clearingPrice : ℕ) (isBuy : Bool)
    (buyerRefund : ℕ) (isTaker isFinal : Bool) (clientOrderId matchId : ℕ) (s : Book) : Book :=
  let s := (s.check (filledAmount * clearingPrice < u256)).cast
    (filledAmount * clearingPrice / fullPercent)
  let feeAmount := if isTaker then takerFeeOf filledAmount clearingPrice
    else makerRebateOf filledAmount clearingPrice
  let s := bookFee isTaker filledAmount clearingPrice s
  let s := s.send (.orderFilled orderId filledAmount clearingPrice feeAmount isTaker matchId note)
  s.send (.onOrderFilled note outcomeId filledAmount clearingPrice isBuy buyerRefund feeAmount
    (!isTaker) orderId isFinal s.numOutcomes clientOrderId)

/-! ## Matching engine -/

structure Progress where
  book : Book
  remaining : ℕ
  filledAccum : ℕ

def affordBase (remaining clearingPrice makerAmount : ℕ) : ℕ :=
  if clearingPrice > 0 then toU128 (remaining * fullPercent / clearingPrice) else makerAmount

/-- The base units a taker trades with the maker it meets. -/
def tradeOf (k : Taker) (clearingPrice makerAmount remaining : ℕ) : ℕ :=
  if k.countsQuote then
    if makerAmount < affordBase remaining clearingPrice makerAmount then makerAmount
    else affordBase remaining clearingPrice makerAmount
  else if remaining < makerAmount then remaining else makerAmount

def spentQuote (trade clearingPrice : ℕ) : ℕ := toU128 (trade * clearingPrice / fullPercent)

def consumed (k : Taker) (trade clearingPrice : ℕ) : ℕ :=
  if k.countsQuote then spentQuote trade clearingPrice else trade

def weighed (k : Taker) (clearingPrice remaining : ℕ) (s : Book) : Book :=
  if k.countsQuote ∧ clearingPrice > 0 then s.cast (remaining * fullPercent / clearingPrice) else s

def refundOf (ownPrice clearingPrice trade : ℕ) : ℕ :=
  toU128 (trade * (ownPrice - clearingPrice) / fullPercent)

/-- The two callbacks of a match and the events of the maker. -/
def announceMatch (k : Taker) (clearingPrice cur trade remaining : ℕ) (s : Book) : Book :=
  let cp := s.orders.get cur
  let s := if k.countsQuote then
      (s.check (trade * clearingPrice < u256)).cast (trade * clearingPrice / fullPercent) else s
  -- whose price improvement it is, if anybody's
  let ownPrice := if k.isBuy then if k.isMarket then 0 else k.storedPrice else cp.price
  let refund := refundOf ownPrice clearingPrice trade
  let s := (s.check (trade * (ownPrice - clearingPrice) < u256)).cast
    (trade * (ownPrice - clearingPrice) / fullPercent)
  let s := { s.check (s.matchSeq + 1 < u64) with matchSeq := s.matchSeq + 1 }
  let s := processFill cp.depositHash cur k.outcomeId trade clearingPrice cp.isBuy
    (if k.isBuy then 0 else refund) false (decide (cp.amount = trade)) cp.clientOrderId s.matchSeq s
  let s := processFill k.depositHash k.orderId k.outcomeId trade clearingPrice k.isBuy
    (if k.isBuy then refund else 0) true (decide (consumed k trade clearingPrice = remaining))
    k.clientOrderId s.matchSeq s
  if cp.amount = trade then s.send (.fullyFilled cur cp.clientOrderId (cp.filledAccum + trade))
  else s.send (.partialFill cur cp.clientOrderId trade (cp.amount - trade))

/-- The maker's record after a fill. -/
def consumeMaker (k : Taker) (cur trade : ℕ) (s : Book) : Book :=
  let cp := s.orders.get cur
  let s := (s.check (cp.filledAccum + trade < u128)).editOrder cur
    fun o => { o with filledAccum := o.filledAccum + trade }
  if cp.amount = trade then removeFromBook cur s
  else
    let side : Side := ⟨k.outcomeId, cp.isBuy, cp.epochId⟩
    let level := s.level side cp.price
    setLevel side cp.price { level with totalAmount := level.totalAmount - trade }
      ((s.check (trade ≤ level.totalAmount)).editOrder cur
        fun o => { o with amount := cp.amount - trade })

/-- One fill with the maker `cur`. -/
def fillMaker (k : Taker) (clearingPrice cur : ℕ) (w : Progress) : Progress :=
  let trade := tradeOf k clearingPrice (w.book.orders.get cur).amount w.remaining
  let s := announceMatch k clearingPrice cur trade w.remaining
    (weighed k clearingPrice w.remaining w.book)
  { book := consumeMaker k cur trade (s.check (w.filledAccum + trade < u128))
    remaining := w.remaining - consumed k trade clearingPrice
    filledAccum := w.filledAccum + trade }

/-- How a walk ended: nothing left to do here, the cap of a call, or a rest of quote that buys
nothing (`marketBuyDust`). -/
inductive WalkEnd where
  | done | capped | dust
  deriving DecidableEq, Repr

/-- The inner loop of the match, on the matches left in this call. -/
def matchOrders (k : Taker) (price : ℕ) : ℕ → ℕ → Progress → ℕ × Progress × WalkEnd
  | left, cur, w =>
    if cur = 0 ∨ w.remaining = 0 then (left, w, .done)
    else
      match left with
      | 0 => (0, w, .capped)
      | left + 1 =>
        let cp := w.book.orders.get cur
        if k.countsQuote ∧ tradeOf k price cp.amount w.remaining = 0 then
          (left + 1, { w with book := weighed k price w.remaining w.book }, .dust)
        else matchOrders k price left cp.nextAtPrice (fillMaker k price cur w)

/-- The outer loop of the match, on the number of levels it may still meet. -/
def matchLevels (k : Taker) : ℕ → ℕ → Option ℕ → Progress → Progress × WalkEnd
  | 0, _, _, w => (w, .done)
  | _ + 1, _, none, w => (w, .done)
  | levels + 1, left, some price, w =>
    if w.remaining = 0 ∨ k.crosses price = false then (w, .done)
    else
      match matchOrders k price left (w.book.level k.opposite price).firstOrderId w with
      | (left, w, .done) => matchLevels k levels left (nextOpposite k price w.book) w
      | (_, w, e) => (w, e)

def matchTaker (k : Taker) (w : Progress) : Progress × WalkEnd :=
  matchLevels k (w.book.levels k.opposite).keys.card maxMatchesPerCall
    (bestOpposite k w.book) w

/-- Answer of the pre-check: `minFill` is there, it is not, or the walk yields at a price. -/
inductive Precheck where
  | reached | short
  | yielded (lastPrice : ℕ)
  deriving DecidableEq, Repr

/-- The loop of the FOK / minAmount pre-check with its running sum, on the iterations left after
this one. -/
def precheckLevels (k : Taker) (minFill : ℕ) (s : Book) : ℕ → Option ℕ → ℕ → ℕ × Precheck
  | _, none, accum => (accum, .short)
  | left, some price, accum =>
    if k.crosses price = false then (accum, .short)
    else
      let accum := accum + (s.level k.opposite price).totalAmount
      if accum ≥ minFill then (accum, .reached)
      else
        match left with
        | 0 => (accum, .yielded price)
        | left + 1 => precheckLevels k minFill s left (nextOpposite k price s) accum

/-- The pre-check from its start or from its resume cursor. -/
def precheck (k : Taker) (minFill : ℕ) (e : QueueEntry) (s : Book) : ℕ × Precheck :=
  precheckLevels k minFill s (maxPrecheckIterations - 1)
    (if e.precheckAccum = 0 then bestOpposite k s else nextOpposite k e.precheckLastPrice s)
    e.precheckAccum

structure Cont where
  orderId : ℕ
  remaining : ℕ
  precheckDone : Bool
  precheckAccum : ℕ
  precheckLastPrice : ℕ
  filledAccum : ℕ

/-- The taker an entry stands for. -/
def takerOf (orderId : ℕ) (e : QueueEntry) : Taker :=
  let isMarket := decide (e.flags &&& flagMarket ≠ 0)
  { e.toPlaceParams with
    depositHash := e.depositHash, orderId := orderId, isMarket := isMarket, opNonce := e.opNonce
    storedPrice := if isMarket then if e.isBuy then u256 - 1 else 0 else e.price }

/-- `_cancelNoBookEntryTo` with the collateral of `amount`. -/
def cancelNoBookEntry (k : Taker) (amount : ℕ) (s : Book) : Book :=
  sayCancelled k.depositHash k.orderId k.outcomeId k.isBuy
    (if k.countsQuote then amount else collateralFor k.isBuy k.storedPrice amount)
    k.clientOrderId k.opNonce
    (if k.countsQuote then s else Book.priced s k.isBuy k.storedPrice amount)

/-- The record of a taker that comes to rest. -/
def restingOrder (k : Taker) (amount filledAccum : ℕ) : Order :=
  { depositHash := k.depositHash, price := k.storedPrice, amount := amount
    initialAmount := k.amount, filledAccum := filledAccum, clientOrderId := k.clientOrderId
    epochId := k.epochId, opNonce := k.opNonce, outcomeId := k.outcomeId, flags := k.flags
    isBuy := k.isBuy }

/-- `_doPlace` after the match: the rest ends here or rests, and the aggregated event. -/
def finishPlace (k : Taker) (w : Progress) : Book :=
  let s :=
    if w.remaining > 0 then
      if k.flags &&& flagIoc ≠ 0 ∨ k.flags &&& flagFok ≠ 0 ∨ k.isMarket then
        cancelNoBookEntry k w.remaining w.book
      else insertIntoBook k.orderId (restingOrder k w.remaining w.filledAccum) w.book
    else w.book
  if w.filledAccum > 0 then
    if w.remaining = 0 then s.send (.fullyFilled k.orderId k.clientOrderId w.filledAccum)
    else s.send (.partialFill k.orderId k.clientOrderId w.filledAccum w.remaining)
  else s

/-- `_doPlace` from the match on. -/
def runMatch (k : Taker) (filledAccum : ℕ) (s : Book) : Book × Option Cont :=
  match matchTaker k { book := s, remaining := k.amount, filledAccum := filledAccum } with
  | (w, .capped) => (w.book, some
      { orderId := k.orderId, remaining := w.remaining, precheckDone := true, precheckAccum := 0
        precheckLastPrice := 0, filledAccum := w.filledAccum })
  | (w, _) => (finishPlace k w, none)

def minFillOf (e : QueueEntry) : ℕ := if e.flags &&& flagFok ≠ 0 then e.amount else e.minAmount

/-- `_doPlace` after the POST_ONLY check. -/
def checkAndMatch (k : Taker) (e : QueueEntry) (s : Book) : Book × Option Cont :=
  if minFillOf e > 0 ∧ e.precheckDone = false then
    let r := precheck k (minFillOf e) e s
    -- the sum only grows, so its last value tells whether an addition overflowed
    let s := s.check (r.1 < u128)
    match r.2 with
    | .reached => runMatch k e.filledAccum s
    -- the collateral of the order as it was placed, market or not
    | .short => (sayCancelled k.depositHash k.orderId k.outcomeId k.isBuy
        (collateralFor k.isBuy k.storedPrice k.amount) k.clientOrderId k.opNonce
        (Book.priced s k.isBuy k.storedPrice k.amount), none)
    | .yielded price => (s, some
        { orderId := k.orderId, remaining := e.amount, precheckDone := false
          precheckAccum := r.1, precheckLastPrice := price, filledAccum := e.filledAccum })
  else runMatch k e.filledAccum s

def wouldTake (k : Taker) (s : Book) : Bool :=
  match bestOpposite k s with
  | some price => pricesCross k.isBuy k.storedPrice false price
  | none => false

def doPlace (e : QueueEntry) (s : Book) : Book × Option Cont :=
  if e.targetOrderId = 0 then
    let orderId := s.nextOrderId
    let k := takerOf orderId e
    let s := emitOrderPlaced orderId e
      { s.check (s.nextOrderId + 1 < u128) with nextOrderId := s.nextOrderId + 1 }
    if e.flags &&& flagPostOnly ≠ 0 ∧ wouldTake k s then
      (sayCancelled k.depositHash k.orderId k.outcomeId k.isBuy
        (collateralFor k.isBuy k.storedPrice k.amount) k.clientOrderId k.opNonce
        (Book.priced s k.isBuy k.storedPrice k.amount), none)
    else checkAndMatch k e s
  else checkAndMatch (takerOf e.targetOrderId e) e s

def doCancel (callerHash orderId opNonce : ℕ) (s : Book) : Book :=
  let o := s.orders.get orderId
  if o.amount = 0 ∧ o.depositHash = 0 then s
  else if o.depositHash ≠ callerHash then s
  else cancelResting callerHash orderId opNonce s

/-- The loop of `_doCancelAll`, on the cancels left; it returns those it did not use. -/
def cancelAllFrom (callerHash opNonce : ℕ) : ℕ → ℕ → Book → Book × ℕ
  | 0, _, s => (s, 0)
  | left + 1, cur, s =>
    if cur = 0 then (s, left + 1)
    else
      let next := (s.orders.get cur).nextInOwner
      cancelAllFrom callerHash opNonce left next (cancelResting callerHash cur opNonce s)

def doCancelAll (callerHash opNonce : ℕ) (s : Book) : Book × ℕ :=
  let r := cancelAllFrom callerHash opNonce maxCancelAllPerCall (s.ownerHead callerHash) s
  (r.1, maxCancelAllPerCall - r.2)

/-! ## Queue -/

/-- `_allocSlot` with the write of the entry into the slot. The wrap of `_nextQueueId` that the
source provides for is behind a checked increment. -/
def enqueue (e : QueueEntry) (s : Book) : Book :=
  let slot := s.queueTail
  let queueId := s.nextQueueId
  let s := { s.check (s.nextQueueId + 1 < u32) with
    nextQueueId := s.nextQueueId + 1
    queue := s.queue.set slot { e with queueId := queueId }
    queueTail := (s.queueTail + 1) % queueCapacity
    queueSize := s.queueSize + 1 }
  s.send (.queued slot queueId e.entryType)

def advanceHead (s : Book) : Book :=
  { s with
    queue := s.queue.delete s.queueHead
    queueHead := (s.queueHead + 1) % queueCapacity
    queueSize := s.queueSize - 1 }

def leaveHead (e : QueueEntry) (s : Book) : Book :=
  let s := advanceHead s
  if e.isBatchEnd then notifyBatchAccepted e.depositHash e.opNonce e.call s else s

/-- The head run: `_processHeadCore` up to `keepHead`. -/
def runHead (e : QueueEntry) (s : Book) : Book × Bool :=
  match e.entryType with
  | .cancel => (doCancel e.depositHash e.targetOrderId e.opNonce s, false)
  | .cancelAll =>
    let r := doCancelAll e.depositHash e.opNonce s
    (r.1, decide (r.2 ≥ maxCancelAllPerCall))
  | .place | .absent =>
    match doPlace e s with
    | (s, some c) =>
      ({ s with queue := s.queue.modify s.queueHead fun q => { q with
          amount := c.remaining, targetOrderId := c.orderId, precheckDone := c.precheckDone
          precheckAccum := c.precheckAccum, precheckLastPrice := c.precheckLastPrice
          filledAccum := c.filledAccum } }, true)
    | (s, none) => (s, false)

/-- An entry that a pending shutdown refuses: never run it is rejected, else cancelled. -/
def refuseHead (e : QueueEntry) (s : Book) : Book :=
  if e.entryType = .place then
    if e.targetOrderId = 0 then
      notifyRejectedPlace e.depositHash e.toPlaceParams e.opNonce e.call e.index s
    else sayCancelled e.depositHash e.targetOrderId e.outcomeId e.isBuy
      (collateralFor e.isBuy e.price e.amount) e.clientOrderId e.opNonce
      (Book.priced s e.isBuy e.price e.amount)
  else s

def goOn (s : Book) : Book :=
  if s.queueSize > 0 then s.send .processHead
  else if s.shutdownPending then s.send .shutdown else s

def processHeadCore (s : Book) : Book :=
  if s.shuttingDown then s
  else if s.queueSize = 0 then if s.shutdownPending then s.send .shutdown else s
  else
    let e := s.queue.get s.queueHead
    if s.shutdownPending ∧ e.precheckDone = false then goOn (leaveHead e (refuseHead e s))
    else
      let r := runHead e s
      goOn (if r.2 then r.1 else leaveHead e r.1)

/-! ## Public entries -/

/-- The validation of one order of a batch. -/
def validPlace (tokenType : ℕ) (op : PlaceParams) : Bool :=
  let opIsPostOnly := op.flags &&& flagPostOnly ≠ 0
  let opIsMarket := op.flags &&& flagMarket ≠ 0
  let opIsIoc := op.flags &&& flagIoc ≠ 0
  let opIsFok := op.flags &&& flagFok ≠ 0
  if op.amount = 0 then false
  else if opIsPostOnly ∧ (opIsMarket ∨ opIsIoc ∨ opIsFok ∨ op.minAmount ≠ 0) then false
  else if opIsIoc ∧ opIsFok then false
  else if opIsMarket ∧ (opIsIoc ∨ opIsFok) then false
  else if opIsMarket then
    if op.minAmount ≠ 0 then false
    else if op.isBuy ∧ op.amount < minOrderNotional tokenType then false
    else true
  else if op.amount % lotSize tokenType ≠ 0 then false
  else if op.minAmount > op.amount then false
  else if op.price = 0 then false
  else if op.price % tickSize ≠ 0 then false
  else if op.amount > (u256 - 1) / op.price then false
  else
    let notionalFull := op.amount * op.price / fullPercent
    if notionalFull > u128 - 1 then false
    else if notionalFull < minOrderNotional tokenType then false
    else true

/-- `_enqueuePlace` with what `executeBatch` does about its answer. -/
def submitPlace (depositHash opNonce call index : ℕ) (op : PlaceParams) (s : Book) : Book × Bool :=
  if validPlace s.tokenType op then
    if s.queueSize < queuePlaceLimit then
      (enqueue { op with
        entryType := .place, depositHash := depositHash, opNonce := opNonce, call := call
        index := index } s, true)
    else
      (notifyRejectedPlace depositHash op opNonce call index (s.send (.rejected .place depositHash)),
        false)
  else
    (notifyRejectedPlace depositHash op opNonce call index (s.send (.rejected .place depositHash)),
      false)

/-- `_enqueueCancel` and `_enqueueCancelAll`. -/
def submitCancel (kind : EntryType) (depositHash targetOrderId opNonce call : ℕ) (s : Book) :
    Book × Bool :=
  if s.queueSize < queueCapacity then
    (enqueue
      { entryType := kind, depositHash := depositHash, targetOrderId := targetOrderId
        opNonce := opNonce, call := call } s, true)
  else (s.send (.rejected kind depositHash), false)

def lastSlot (s : Book) : ℕ :=
  if s.queueTail = 0 then queueCapacity - 1 else s.queueTail - 1

/-- The loop over the cancels of a batch; the flag is `anyQueued`. -/
def submitCancels (depositHash opNonce call : ℕ) : List ℕ → Book × Bool → Book × Bool
  | [], r => r
  | id :: ids, r =>
    let q := submitCancel .cancel depositHash id opNonce call r.1
    submitCancels depositHash opNonce call ids (q.1, r.2 || q.2)

/-- The loop over the orders of a batch, from the order `index` on. -/
def submitPlaces (depositHash opNonce call : ℕ) : ℕ → List PlaceParams → Book × Bool → Book × Bool
  | _, [], r => r
  | index, op :: ops, r =>
    let q := submitPlace depositHash opNonce call index op r.1
    submitPlaces depositHash opNonce call (index + 1) ops (q.1, r.2 || q.2)

/-- The end of an entry call: the last entry is marked, the head runs, and a call that queued
nothing is answered at once. -/
def closeBatch (depositHash opNonce call : ℕ) (r : Book × Bool) : Book :=
  if r.2 then
    processHeadCore { r.1 with
      queue := r.1.queue.modify (lastSlot r.1) fun q => { q with isBatchEnd := true } }
  else notifyBatchAccepted depositHash opNonce call (processHeadCore r.1)

variable (env : Env)

def executeBatch (depositHash : ℕ) (orders : List PlaceParams) (cancelIds : List ℕ) (opNonce : ℕ)
    (m : Msg) (s : Book) : Except Err Book := do
  require (s.shuttingDown = false) .alreadyCancelled
  require (m.now < s.resultStart) .resultNotStarted
  require (m.sender = env.noteAddress depositHash) .invalidSender
  require (orders.length ≤ maxBatchSize) .batchTooLarge
  require (cancelIds.length ≤ maxBatchSize) .batchTooLarge
  let s := { s with admitted := s.admitted ++ [⟨depositHash, opNonce, orders⟩] }
  let call := s.admitted.length
  return closeBatch depositHash opNonce call (submitPlaces depositHash opNonce call 0 orders
    (submitCancels depositHash opNonce call cancelIds (s, false)))

def cancelAllOrders (depositHash opNonce : ℕ) (m : Msg) (s : Book) : Except Err Book := do
  require (s.shuttingDown = false) .alreadyCancelled
  require (m.now < s.resultStart) .resultNotStarted
  require (m.sender = env.noteAddress depositHash) .invalidSender
  let s := { s with admitted := s.admitted ++ [⟨depositHash, opNonce, []⟩] }
  let call := s.admitted.length
  return closeBatch depositHash opNonce call
    (submitCancel .cancelAll depositHash 0 opNonce call s)

def setResultStart (resultStart : ℕ) (m : Msg) (s : Book) : Except Err Book := do
  require (m.sender = s.pmpAddress) .invalidSender
  require (m.now < s.resultStart) .resultNotStarted
  require (resultStart > m.now) .invalidParams
  return { s with resultStart := resultStart }

def scanEnd (s : Book) : ℕ :=
  let start := if s.shutdownCursor = 0 then 1 else s.shutdownCursor
  start + min (s.nextOrderId - start) maxShutdownBatch

def toCancel (s : Book) : List ℕ :=
  let start := if s.shutdownCursor = 0 then 1 else s.shutdownCursor
  (List.range' start (scanEnd s - start)).filter fun id => (s.orders.get id).amount > 0

def drainOrders : List ℕ → Book → Book
  | [], s => s
  | id :: ids, s => drainOrders ids (cancelResting (s.orders.get id).depositHash id 0 s)

def tearDown (s : Book) : Book :=
  let s := if s.totalProtocolFees > 0 then
      { s.send (.collectProtocolFee s.totalProtocolFees) with totalProtocolFees := 0 } else s
  { s.send .onOrderBookShutdownComplete with destroyed := true }

def shutdown (m : Msg) (s : Book) : Except Err Book := do
  require (m.sender = s.pmpAddress ∨ m.sender = s.self) .invalidSender
  if s.queueSize > 0 ∧ s.shuttingDown = false then return { s with shutdownPending := true }
  let s := { s with shuttingDown := true, shutdownPending := false }
  let s := drainOrders (toCancel s) { s with shutdownCursor := scanEnd s }
  return if s.shutdownCursor < s.nextOrderId then s.send .shutdown else tearDown s

inductive Call where
  | executeBatch (depositHash : ℕ) (orders : List PlaceParams) (cancelIds : List ℕ) (opNonce : ℕ)
  | cancelAllOrders (depositHash opNonce : ℕ)
  | processHead
  | shutdown
  | setResultStart (resultStart : ℕ)
  | onBounce

/-- The fields fit their types. -/
structure PlaceParams.InRange (op : PlaceParams) : Prop where
  outcomeId : op.outcomeId < u32
  flags : op.flags < 256
  price : op.price < u256
  amount : op.amount < u128
  minAmount : op.minAmount < u128
  epochId : op.epochId < u64
  clientOrderId : op.clientOrderId < u128

instance (op : PlaceParams) : Decidable (PlaceParams.InRange op) :=
  decidable_of_iff (op.outcomeId < u32 ∧ op.flags < 256 ∧ op.price < u256 ∧ op.amount < u128 ∧
      op.minAmount < u128 ∧ op.epochId < u64 ∧ op.clientOrderId < u128)
    ⟨fun ⟨h1, h2, h3, h4, h5, h6, h7⟩ => ⟨h1, h2, h3, h4, h5, h6, h7⟩,
      fun h => ⟨h.1, h.2, h.3, h.4, h.5, h.6, h.7⟩⟩

/-- The arguments that an ABI message can carry. -/
def Call.InRange : Call → Prop
  | .executeBatch depositHash orders cancelIds opNonce => depositHash < u256 ∧
      (∀ op ∈ orders, PlaceParams.InRange op) ∧ (∀ id ∈ cancelIds, id < u128) ∧ opNonce < u64
  | .cancelAllOrders depositHash opNonce => depositHash < u256 ∧ opNonce < u64
  | .setResultStart resultStart => resultStart < u64
  | _ => True

instance (c : Call) : Decidable c.InRange :=
  match c with
  | .executeBatch h o c n => inferInstanceAs (Decidable (h < u256 ∧
      (∀ op ∈ o, PlaceParams.InRange op) ∧ (∀ id ∈ c, id < u128) ∧ n < u64))
  | .cancelAllOrders h n => inferInstanceAs (Decidable (h < u256 ∧ n < u64))
  | .setResultStart r => inferInstanceAs (Decidable (r < u64))
  | .processHead | .shutdown | .onBounce => inferInstanceAs (Decidable True)

structure Tx where
  msg : Msg
  call : Call

def dispatch (m : Msg) (s : Book) : Call → Except Err Book
  | .executeBatch h o c n => executeBatch env h o c n m s
  | .cancelAllOrders h n => cancelAllOrders env h n m s
  | .processHead => .ok (processHeadCore s)
  | .shutdown => shutdown m s
  | .setResultStart r => setResultStart r m s
  | .onBounce => .ok (s.send (.callbackBounced m.sender m.lt))

def enter (m : Msg) (s : Book) : Book := { s with now := m.now, fault := false }

def perform (tx : Tx) (s : Book) : Except Err Book := do
  require (s.destroyed = false) .noAccount
  require tx.call.InRange .badMessage
  dispatch env tx.msg (enter tx.msg s) tx.call

def exec (tx : Tx) (s : Book) : Except Err Book :=
  match perform env tx s with
  | .error e => .error e
  | .ok t => if t.fault then .error .arithmetic else .ok t

/-- The constructor. -/
def construct (tokenType : ℕ) (self : Address) (resultStart numOutcomes : ℕ) (m : Msg) :
    Except Err Book := do
  require (m.sender = env.pmpAddress tokenType) .invalidSender
  pure
    { tokenType := tokenType, self := self, pmpAddress := m.sender, resultStart := resultStart
      numOutcomes := numOutcomes, nextOrderId := 1, nextQueueId := 1, now := m.now }

def Constructed (s : Book) : Prop := ∃ t a r n m, construct env t a r n m = .ok s

def Reachable (s : Book) : Prop :=
  TransactionSystem.Reachable (Constructed env) (exec env) (fun _ _ => True) s

end DexOrderBookCalls
