import Dexdo.InferenceOrderBookState
import Dexdo.TransactionSystem

/-! # The calls of an InferenceOrderBook

`InferenceOrderBook.sol` in its order: navigation, book mutation, settlement of a fill, the two
read-only prechecks, the matching walk, the queue, and the public entries. Loops are recursions
on the budgets the source gives them; the walk over price levels, which has no budget of its own,
is bounded by the number of levels it can visit.

Addresses derived from code hashes and the hash builtin are the parameters of `Env`. -/
namespace InferenceOrderBookCalls

open TokenContractState SolidityMapping InferenceOrderBookState

structure Env where
  noteAddress : ℕ → Address
  tokenContractAddress : ℕ → ℕ → Address
  sha256 : String → ℕ

structure Msg where
  sender : Address
  now : ℕ

def require (p : Prop) [Decidable p] (e : InferenceOrderBookState.Err) :
    Except InferenceOrderBookState.Err Unit :=
  if p then .ok () else .error e

@[simp] theorem require_bind_ok {p : Prop} [Decidable p] {e : InferenceOrderBookState.Err}
    {α : Type} {f : Unit → Except InferenceOrderBookState.Err α} {t : α} :
    (require p e >>= f) = .ok t ↔ p ∧ f () = .ok t := by
  by_cases h : p <;> simp [require, h, bind, Except.bind]

@[simp] theorem pure_ok {α : Type} (a : α) :
    (pure a : Except InferenceOrderBookState.Err α) = .ok a := rfl

/-! ## Answers and payouts -/

def rejectToNote (note : Address) (clientOrderId : ℕ) (reason : PlaceRej) (refunded tag : ℕ)
    (s : Book) : Book :=
  s.sendFor tag (.onInferenceRejected note s.modelHash clientOrderId reason refunded)

def payShell (dest : Address) (amount tag : ℕ) (s : Book) : Book :=
  if amount = 0 then s else s.sendFor tag (.creditFromBook dest amount s.modelHash)

def dealCompatible (takerIsBuy : Bool) (takerFlags makerFlags : ℕ) : Bool :=
  let buyFlags := if takerIsBuy then takerFlags else makerFlags
  let sellFlags := if takerIsBuy then makerFlags else takerFlags
  if buyFlags &&& flagTee ≠ 0 ∧ sellFlags &&& flagTee = 0 then false
  else buyFlags &&& flagSubscription == sellFlags &&& flagSubscription

/-! ## Level navigation -/

def bestOpposite (takerIsBuy : Bool) (s : Book) : Option ℕ :=
  if takerIsBuy then (s.levels false).min else (s.levels true).max

def nextOpposite (takerIsBuy : Bool) (cur : ℕ) (s : Book) : Option ℕ :=
  if takerIsBuy then (s.levels false).next cur else (s.levels true).prev cur

def crosses (takerIsBuy : Bool) (takerPrice : ℕ) (isMarket : Bool) (makerPrice : ℕ) : Bool :=
  if isMarket then true
  else if takerIsBuy then decide (takerPrice ≥ makerPrice) else decide (makerPrice ≥ takerPrice)

def isExpired (deadline now : ℕ) : Bool := decide (deadline ≠ 0 ∧ now ≥ deadline)

/-! ## Book mutation -/

def amend (id : ℕ) (f : Order → Order) (m : Mapping Order) : Mapping Order :=
  if id = 0 then m else m.modify id f

/-- The new order joins the list of its price level. -/
def linkAtPrice (orderId : ℕ) (o : Order) (s : Book) : Book :=
  let level := s.level o.isBuy o.price
  { s with
    orders := amend level.lastOrderId (fun p => { p with nextAtPrice := orderId }) s.orders
    levels := Function.update s.levels o.isBuy ((s.levels o.isBuy).set o.price
      (if level.lastOrderId = 0 then ⟨orderId, orderId⟩
        else { level with lastOrderId := orderId })) }

/-- And that of its owner. -/
def linkInOwner (orderId : ℕ) (o : Order) (s : Book) : Book :=
  let oTail := s.ownerTail o.note
  { s with
    orders := amend oTail (fun p => { p with nextInOwner := orderId }) s.orders
    ownerHead := if oTail = 0 then Function.update s.ownerHead o.note orderId else s.ownerHead
    ownerTail := Function.update s.ownerTail o.note orderId }

def insertIntoBook (orderId : ℕ) (o : Order) (s : Book) : Book :=
  let o := { o with
    nextAtPrice := 0, prevAtPrice := (s.level o.isBuy o.price).lastOrderId
    nextInOwner := 0, prevInOwner := s.ownerTail o.note }
  let s := { s with orders := s.orders.set orderId o }
  let s := linkInOwner orderId o (linkAtPrice orderId o s)
  let s := { s.check (s.orderCount + 1 < u128) with orderCount := s.orderCount + 1 }
  s.send (.onInferencePlaced o.note s.modelHash o.tokenContract orderId o.clientOrderId o.isBuy
    o.price o.amount)

def levelAfter (o : Order) (s : Book) : PriceLevel :=
  ⟨if o.prevAtPrice = 0 then o.nextAtPrice else (s.level o.isBuy o.price).firstOrderId,
    if o.nextAtPrice = 0 then o.prevAtPrice else (s.level o.isBuy o.price).lastOrderId⟩

/-- `_removeFromBook` takes the order out of its price level; an empty level is deleted. -/
def unlinkAtPrice (o : Order) (s : Book) : Book :=
  let level := levelAfter o s
  { s with
    orders := amend o.nextAtPrice (fun p => { p with prevAtPrice := o.prevAtPrice })
      (amend o.prevAtPrice (fun p => { p with nextAtPrice := o.nextAtPrice }) s.orders)
    levels := Function.update s.levels o.isBuy
      (if level.firstOrderId = 0 then (s.levels o.isBuy).delete o.price
        else (s.levels o.isBuy).set o.price level) }

/-- And out of its owner's list. -/
def unlinkInOwner (o : Order) (s : Book) : Book :=
  { s with
    orders := amend o.nextInOwner (fun p => { p with prevInOwner := o.prevInOwner })
      (amend o.prevInOwner (fun p => { p with nextInOwner := o.nextInOwner }) s.orders)
    ownerHead := if o.prevInOwner = 0 then Function.update s.ownerHead o.note o.nextInOwner
      else s.ownerHead
    ownerTail := if o.nextInOwner = 0 then Function.update s.ownerTail o.note o.prevInOwner
      else s.ownerTail }

def removeFromBook (orderId : ℕ) (cause : Removed) (refunded : ℕ) (s : Book) : Book :=
  let o := s.orders.get orderId
  if o.amount = 0 then s
  else
    let s := unlinkInOwner o (unlinkAtPrice o s)
    let s := s.send (.onInferenceOrderRemoved o.note s.modelHash orderId cause refunded)
    { s.check (1 ≤ s.orderCount) with
      orders := s.orders.delete orderId, orderCount := s.orderCount - 1 }

/-! ## Fill settlement -/

def fillDebit (trade clearing dealFlags : ℕ) : ℕ :=
  trade * unit clearing + if dealFlags &&& flagSubscription ≠ 0 then 2 * clearing else 0

/-- `_settleFill`; the debit it returns is `fillDebit`. -/
def settleFill (makerId takerId : ℕ) (buyerNote sellerNote : Address) (buyerPubkey : ℕ)
    (sellerTC : Address) (trade clearing : ℕ) (takerIsBuy : Bool)
    (dealFlags takerClientId tag : ℕ) (s : Book) : Book :=
  let cost := trade * unit clearing
  let debit := fillDebit trade clearing dealFlags
  let s := s.check (cost < u128)
  let s := s.check (dealFlags &&& flagSubscription ≠ 0 → 2 * clearing < u128)
  let s := s.check (debit < u128)
  let s := { s with handoverBuyer := Function.update s.handoverBuyer sellerTC buyerNote }
  let s := s.sendFor tag (.fundFromOrderBook sellerTC debit buyerNote buyerPubkey dealFlags)
  let s := s.check (s.executedNotional + trade * clearing < u128)
  let s := s.check (s.executedTicks + trade < u128 ∧ s.matchSeq + 1 < u64)
  let s := { s with
    executedNotional := s.executedNotional + trade * clearing
    executedTicks := s.executedTicks + trade
    matchSeq := s.matchSeq + 1 }
  let s := s.send (.inferenceFilled makerId takerId trade clearing sellerTC buyerNote sellerNote)
  let s := s.send (.inferenceExecuted trade clearing cost)
  let buyerOrderId := if takerIsBuy then takerId else makerId
  let sellerOrderId := if takerIsBuy then makerId else takerId
  let makerClientId := (s.orders.get makerId).clientOrderId
  let buyerClientId := if takerIsBuy then takerClientId else makerClientId
  let sellerClientId := if takerIsBuy then makerClientId else takerClientId
  let s := s.send (.onInferenceFilled buyerNote s.modelHash sellerTC buyerOrderId buyerClientId
    trade clearing debit true)
  s.send (.onInferenceFilled sellerNote s.modelHash sellerTC sellerOrderId sellerClientId
    trade clearing debit false)

/-! ## Removal with a refund -/

def refundAndRemove (orderId : ℕ) (cause : Removed) (s : Book) : Book :=
  let o := s.orders.get orderId
  let s := removeFromBook orderId cause o.escrow s
  if o.escrow > 0 then
    (payShell o.note o.escrow o.tag s).send (.inferenceRefunded orderId o.note o.escrow)
  else s

def removeExpiredBid (orderId : ℕ) (s : Book) : Book :=
  let note := (s.orders.get orderId).note
  (refundAndRemove orderId .expired s).send (.inferenceOrderExpired orderId true note 0)

def freeDeal (tc : Address) (s : Book) : Book := if tc ≠ 0 then s.send (.onSellClosed tc) else s

def removeExpiredSell (orderId : ℕ) (s : Book) : Book :=
  let o := s.orders.get orderId
  (freeDeal o.tokenContract (removeFromBook orderId .expired 0 s)).send
    (.inferenceOrderExpired orderId false o.note o.tokenContract)

/-! ## Prechecks -/

structure Taker where
  id : ℕ
  isBuy : Bool
  price : ℕ
  isMarket : Bool
  note : Address
  tc : Address
  buyerPubkey : ℕ
  flags : ℕ
  clientId : ℕ
  tag : ℕ

/-- The ticks the taker can trade with `mk` out of `budget` at `unit`: what both have, then what
the budget affords. -/
def tradeable (remaining makerAmount budget unit : ℕ) : ℕ :=
  let trade := if remaining < makerAmount then remaining else makerAmount
  let afford := if unit > 0 then budget / unit else trade
  if afford < trade then afford else trade

def aonMisfit (takerFlags makerFlags trade remaining makerAmount : ℕ) : Bool :=
  decide (takerFlags &&& flagAon ≠ 0 ∧ trade < remaining) ||
    decide (makerFlags &&& flagAon ≠ 0 ∧ trade < makerAmount)

structure FokWalk where
  remaining : ℕ
  leftEscrow : ℕ
  matched : ℕ := 0

/-- The inner loop of `_fokFullyFillable`: an answer, or the walk with the scan budget left. -/
def fokOrders (s : Book) (takerIsBuy : Bool) (takerPrice takerFlags lp : ℕ) :
    ℕ → ℕ → FokWalk → Bool ⊕ (ℕ × FokWalk)
  | scans, cur, w =>
    if cur = 0 ∨ w.remaining = 0 then .inr (scans, w)
    else
      match scans with
      | 0 => .inl false
      | scans + 1 =>
        let mk := s.orders.get cur
        let again := fokOrders s takerIsBuy takerPrice takerFlags lp scans mk.nextAtPrice
        if w.matched ≥ maxMatchesPerCall then .inl false
        else if !dealCompatible takerIsBuy takerFlags mk.flags then again w
        else if isExpired mk.deadline s.now then again { w with matched := w.matched + 1 }
        else
          let unit := unit (if takerIsBuy then lp else takerPrice)
          let trade := tradeable w.remaining mk.amount
            (if takerIsBuy then w.leftEscrow else mk.escrow) unit
          if aonMisfit takerFlags mk.flags trade w.remaining mk.amount then again w
          else if trade < 2 then
            if takerIsBuy then .inl false else again { w with matched := w.matched + 1 }
          else if !takerIsBuy then .inl (w.remaining - trade == 0)
          else again
            { remaining := w.remaining - trade
              -- `trade` is at most what `leftEscrow` affords
              leftEscrow := w.leftEscrow - trade * unit
              matched := w.matched + 1 }

/-- The loop over levels of `_fokFullyFillable`, with the level budget left. -/
def fokLevels (s : Book) (takerIsBuy : Bool) (takerPrice : ℕ) (isMarket : Bool)
    (takerFlags : ℕ) : ℕ → ℕ → Option ℕ → FokWalk → Bool
  | _, _, none, w => w.remaining == 0
  | walks, scans, some lp, w =>
    if w.remaining = 0 ∨ crosses takerIsBuy takerPrice isMarket lp = false then w.remaining == 0
    else
      match fokOrders s takerIsBuy takerPrice takerFlags lp scans
        (s.level (!takerIsBuy) lp).firstOrderId w with
      | .inl answer => answer
      | .inr (scans, w) =>
        match walks with
        | 0 => false
        | walks + 1 =>
          if walks = 0 then false
          else fokLevels s takerIsBuy takerPrice isMarket takerFlags walks scans
            (nextOpposite takerIsBuy lp s) w

def fokFullyFillable (takerIsBuy : Bool) (takerPrice : ℕ) (isMarket : Bool)
    (need escrow takerFlags : ℕ) (s : Book) : Bool :=
  fokLevels s takerIsBuy takerPrice isMarket takerFlags maxPrecheckLevels maxScanPerCall
    (bestOpposite takerIsBuy s) { remaining := need, leftEscrow := escrow }

/-- The inner loop of `_executableCrosses`. -/
def crossingOrders (s : Book) (takerIsBuy : Bool) (takerFlags takerAmount : ℕ) :
    ℕ → ℕ → Bool ⊕ ℕ
  | scans, cur =>
    if cur = 0 then .inr scans
    else
      match scans with
      | 0 => .inl true
      | scans + 1 =>
        let mk := s.orders.get cur
        let again := crossingOrders s takerIsBuy takerFlags takerAmount scans mk.nextAtPrice
        -- the maker that exhausts the budget is not examined
        if scans = 0 then .inl true
        else if !dealCompatible takerIsBuy takerFlags mk.flags then again
        else if isExpired mk.deadline s.now then again
        else if (takerFlags &&& flagAon ≠ 0 ∧ mk.amount < takerAmount) ∨
            (mk.flags &&& flagAon ≠ 0 ∧ takerAmount < mk.amount) then again
        else if mk.amount < 2 then again
        else .inl true

/-- The loop over levels of `_executableCrosses`. -/
def crossingLevels (s : Book) (takerIsBuy : Bool) (takerPrice takerFlags takerAmount : ℕ) :
    ℕ → ℕ → Option ℕ → Bool
  | _, _, none => false
  | walks, scans, some lp =>
    if crosses takerIsBuy takerPrice false lp = false then false
    else
      match crossingOrders s takerIsBuy takerFlags takerAmount scans
        (s.level (!takerIsBuy) lp).firstOrderId with
      | .inl answer => answer
      | .inr scans =>
        match walks with
        | 0 => true
        | walks + 1 =>
          if walks = 0 then true
          else crossingLevels s takerIsBuy takerPrice takerFlags takerAmount walks scans
            (nextOpposite takerIsBuy lp s)

def executableCrosses (takerIsBuy : Bool) (takerPrice takerFlags takerAmount : ℕ) (s : Book) :
    Bool :=
  crossingLevels s takerIsBuy takerPrice takerFlags takerAmount maxPrecheckLevels maxPrecheckScan
    (bestOpposite takerIsBuy s)

/-! ## Matching engine -/

structure Progress where
  book : Book
  remaining : ℕ
  leftoverEscrow : ℕ
  matched : ℕ := 0

/-- A fill of `trade` ticks with the maker `cur`. -/
def fillMaker (k : Taker) (lp cur trade : ℕ) (p : Progress) : Progress :=
  let s := p.book
  let mk := s.orders.get cur
  let clearing := if k.isBuy then lp else k.price
  let buyFlags := if k.isBuy then k.flags else mk.flags
  let dealFlags := buyFlags &&& dealFlagsMask
  let cost := fillDebit trade clearing dealFlags
  if k.isBuy then
    let s := settleFill cur k.id k.note mk.note k.buyerPubkey mk.tokenContract trade clearing
      true dealFlags k.clientId k.tag s
    let s := { s.check (cost ≤ p.leftoverEscrow) with
      underflow := s.underflow || decide (p.leftoverEscrow < cost) }
    let s := s.editOrder cur fun o => { o with filledAccum := o.filledAccum + trade }
    { book := removeFromBook cur .filled 0 s
      remaining := p.remaining - trade
      leftoverEscrow := p.leftoverEscrow - cost
      matched := p.matched + 1 }
  else
    let s := settleFill cur k.id mk.note k.note mk.buyerPubkey k.tc trade clearing
      false dealFlags k.clientId mk.tag s
    let s := { s.check (cost ≤ mk.escrow) with
      underflow := s.underflow || decide (mk.escrow < cost) }
    let s := s.editOrder cur fun o => { o with escrow := mk.escrow - cost }
    let s := s.editOrder cur fun o => { o with filledAccum := o.filledAccum + trade }
    { book := if mk.amount = trade then refundAndRemove cur .filled s
        else s.editOrder cur fun o => { o with amount := mk.amount - trade }
      -- a taker SELL is one deal: one fill, then consumed
      remaining := 0
      leftoverEscrow := p.leftoverEscrow
      matched := p.matched + 1 }

/-- One maker of the walk. The flag says that the taker can go no further. -/
def matchMaker (k : Taker) (lp cur : ℕ) (p : Progress) : Progress × Bool :=
  let s := p.book
  let mk := s.orders.get cur
  if !dealCompatible k.isBuy k.flags mk.flags then (p, false)
  else if isExpired mk.deadline s.now then
    ({ p with
      book := if k.isBuy then removeExpiredSell cur s else removeExpiredBid cur s
      matched := p.matched + 1 }, false)
  else
    let unit := unit (if k.isBuy then lp else k.price)
    let budget := if k.isBuy then p.leftoverEscrow else mk.escrow
    let trade := tradeable p.remaining mk.amount budget unit
    -- a bid that its own escrow keeps from giving what it has
    let s := { s with shortfall := s.shortfall ||
      (!k.isBuy && decide (trade < min p.remaining mk.amount)) }
    let p := { p with book := s }
    if aonMisfit k.flags mk.flags trade p.remaining mk.amount then (p, false)
    else if trade < 2 then
      if k.isBuy then (p, true)
      else ({ p with book := refundAndRemove cur .dust s, matched := p.matched + 1 }, false)
    else (fillMaker k lp cur trade p, false)

inductive LevelEnd where
  | done | halted | capped (cur : ℕ)

/-- The inner loop of `_match`, on the scan budget left. -/
def matchOrders (k : Taker) (lp : ℕ) : ℕ → ℕ → Progress → ℕ × Progress × LevelEnd
  | scans, cur, p =>
    if cur = 0 ∨ p.remaining = 0 then (scans, p, .done)
    else
      match scans with
      | 0 => (0, p, .capped cur)
      | scans + 1 =>
        if p.matched ≥ maxMatchesPerCall then (scans + 1, p, .capped cur)
        else
          let nextOrd := (p.book.orders.get cur).nextAtPrice
          let r := matchMaker k lp cur p
          if r.2 then (scans, r.1, .halted) else matchOrders k lp scans nextOrd r.1

/-- The loop of `_match` over price levels, on the number of levels it may still meet. The second
component is the cursor of a walk that hit its cap. -/
def matchLevels (k : Taker) : ℕ → ℕ → Option ℕ → ℕ → Progress → Progress × Option ℕ
  | 0, _, _, _, p => (p, none)
  | _ + 1, _, none, _, p => (p, none)
  | levels + 1, scans, some lp, start, p =>
    if p.remaining = 0 ∨ crosses k.isBuy k.price k.isMarket lp = false then (p, none)
    else
      let cur := if start ≠ 0 then start else (p.book.level (!k.isBuy) lp).firstOrderId
      match matchOrders k lp scans cur p with
      | (scans, p, .done) =>
        matchLevels k levels scans (nextOpposite k.isBuy lp p.book) 0 p
      | (_, p, .halted) => (p, none)
      | (_, p, .capped cur) => (p, some cur)

/-- `_match`. -/
def matchTaker (k : Taker) (amount buyEscrow resumeFrom : ℕ) (s : Book) : Progress × Option ℕ :=
  let p : Progress := { book := s, remaining := amount, leftoverEscrow := buyEscrow }
  let levels := (s.levels (!k.isBuy)).keys.card
  let o := s.orders.get resumeFrom
  if resumeFrom ≠ 0 ∧ o.amount ≠ 0 ∧ o.isBuy ≠ k.isBuy then
    matchLevels k levels maxScanPerCall (some o.price) resumeFrom p
  else matchLevels k levels maxScanPerCall (bestOpposite k.isBuy s) 0 p

/-! ## After the match -/

/-- `_finalizeTaker`: the rest of a taker rests, or ends here. -/
def finalizeTaker (orderId : ℕ) (e : QueueEntry) (remaining leftover : ℕ) (s : Book) : Book :=
  let takerOnly := e.flags &&& flagMarket ≠ 0 ∨ e.flags &&& (flagIoc ||| flagFok) ≠ 0
  let o : Order :=
    { note := e.owner, price := e.price, amount := remaining, initialAmount := e.amount
      filledAccum := e.amount - remaining, deadline := e.deadline
      clientOrderId := e.clientOrderId, ts := s.now, flags := e.flags }
  if e.isBuy then
    if remaining < 2 ∨ takerOnly then
      rejectToNote e.owner e.clientOrderId .endTaker leftover e.tag
        (s.send (.inferenceRefunded orderId e.owner leftover))
    else
      insertIntoBook orderId
        { o with buyerPubkey := e.buyerPubkey, escrow := leftover, isBuy := true, tag := e.tag }
        (s.check (remaining ≤ e.amount))
  else if remaining > 0 ∧ ¬ takerOnly then
    insertIntoBook orderId { o with tokenContract := e.tokenContract }
      (s.check (remaining ≤ e.amount))
  else if remaining > 0 ∧ e.tokenContract ≠ 0 then
    (s.send (.onSellClosed e.tokenContract)).send (.inferenceRefunded orderId e.owner 0)
  else s

/-! ## Queue -/

def enqueue (e : QueueEntry) (s : Book) : Book :=
  { s with
    queue := s.queue.set s.queueTail e
    queueTail := (s.queueTail + 1) % queueCapacity
    queueSize := s.queueSize + 1 }

def advanceHead (s : Book) : Book :=
  { s with
    queue := s.queue.delete s.queueHead
    queueHead := (s.queueHead + 1) % queueCapacity
    queueSize := s.queueSize - 1 }

/-- A head entry whose deadline passed: on its first run it is rejected, later it ends. -/
def dropLapsed (e : QueueEntry) (s : Book) : Book :=
  let refund := if e.isBuy then if e.contOrderId = 0 then e.escrow else e.contLeftover else 0
  let s := if e.isBuy then s else freeDeal e.tokenContract s
  let s := if e.contOrderId = 0 then
      s.send (.inferenceOrderRejected .expired e.owner e.tokenContract refund)
    else s.send (.inferenceRefunded e.contOrderId e.owner refund)
  rejectToNote e.owner e.clientOrderId .expired refund e.tag s

/-- A placement refused by a precheck. -/
def refusePlacement (reason : PlaceRej) (e : QueueEntry) (s : Book) : Book :=
  let back := if e.isBuy ∧ e.escrow > 0 then e.escrow else 0
  let s := if e.isBuy then s else freeDeal e.tokenContract s
  rejectToNote e.owner e.clientOrderId reason back e.tag
    (s.send (.inferenceOrderRejected reason e.owner e.tokenContract back))

/-- The taker a head entry stands for. -/
def takerOf (orderId : ℕ) (e : QueueEntry) : Taker :=
  { id := orderId, isBuy := e.isBuy, price := e.price
    isMarket := decide (e.flags &&& flagMarket ≠ 0), note := e.owner, tc := e.tokenContract
    buyerPubkey := e.buyerPubkey, flags := e.flags, clientId := e.clientOrderId, tag := e.tag }

/-- `_doPlaceHead` from the match on. -/
def runPlace (orderId inAmount inEscrow resumeFrom : ℕ) (e : QueueEntry) (s : Book) :
    Book × Bool :=
  match matchTaker (takerOf orderId e) inAmount inEscrow resumeFrom s with
  | (p, some cur) =>
    ({ p.book with
      queue := p.book.queue.set p.book.queueHead { e with
        contOrderId := orderId, contRemaining := p.remaining, contLeftover := p.leftoverEscrow
        contScanOrder := cur } }, true)
  | (p, none) => (finalizeTaker orderId e p.remaining p.leftoverEscrow p.book, false)

/-- `_doPlaceHead`; the flag keeps the head. -/
def doPlaceHead (s : Book) : Book × Bool :=
  let e := s.queue.get s.queueHead
  if e.deadline ≠ 0 ∧ e.deadline ≤ s.now then (dropLapsed e s, false)
  else if e.contOrderId = 0 then
    if e.flags &&& flagPostOnly ≠ 0 ∧ executableCrosses e.isBuy e.price e.flags e.amount s then
      (refusePlacement .postOnly e s, false)
    else if e.flags &&& flagFok ≠ 0 ∧
        ¬ fokFullyFillable e.isBuy e.price (decide (e.flags &&& flagMarket ≠ 0)) e.amount e.escrow
          e.flags s then
      (refusePlacement .fok e s, false)
    else
      let orderId := s.nextOrderId
      let s := { s.check (s.nextOrderId + 1 < u128) with nextOrderId := s.nextOrderId + 1 }
      let s := s.send (.inferenceOrderPlaced orderId e.isBuy e.price e.amount e.owner
        e.tokenContract e.deadline e.flags)
      runPlace orderId e.amount e.escrow 0 e s
  else runPlace e.contOrderId e.contRemaining e.contLeftover e.contScanOrder e s

/-- A cancelled order leaves: the removal, the event, the refund and the deal's latch. -/
def cancelRemove (owner : Address) (orderId : ℕ) (s : Book) : Book :=
  let o := s.orders.get orderId
  let s := removeFromBook orderId .cancelled o.escrow s
  let s := s.send (.inferenceOrderCancelled orderId o.escrow owner)
  let s := payShell owner o.escrow o.tag s
  if o.isBuy then s else freeDeal o.tokenContract s

def rejectCancel (orderId : ℕ) (reason : CancelRej) (owner : Address) (s : Book) : Book :=
  let s := s.send (.inferenceOrderCancelRejected orderId reason owner)
  s.send (.onInferenceOrderRemoved owner s.modelHash orderId .rejected 0)

def doCancel (owner : Address) (orderId : ℕ) (s : Book) : Book :=
  let o := s.orders.get orderId
  if o.amount = 0 ∧ o.note = 0 then rejectCancel orderId .notFound owner s
  else if o.note ≠ owner then rejectCancel orderId .notOwner owner s
  else cancelRemove owner orderId s

/-- The loop of `_doCancelAll`, on the cancels left; it returns those it did not use. -/
def cancelAllFrom (owner : Address) : ℕ → ℕ → Book → Book × ℕ
  | 0, _, s => (s, 0)
  | left + 1, cur, s =>
    if cur = 0 then (s, left + 1)
    else
      let next := (s.orders.get cur).nextInOwner
      cancelAllFrom owner left next (cancelRemove owner cur s)

def doCancelAll (owner : Address) (s : Book) : Book × ℕ :=
  let r := cancelAllFrom owner maxCancelPerCall (s.ownerHead owner) s
  (r.1, maxCancelPerCall - r.2)

def doExpire (orderId : ℕ) (s : Book) : Book :=
  let o := s.orders.get orderId
  if o.amount = 0 ∧ o.note = 0 then s
  else if isExpired o.deadline s.now = false then s
  else if o.isBuy then removeExpiredBid orderId s else removeExpiredSell orderId s

/-- The head entry run: `_processHeadCore` up to `keepHead`. -/
def runHead (s : Book) : Book × Bool :=
  let e := s.queue.get s.queueHead
  match e.entryType with
  | .cancel => (doCancel e.owner e.targetOrderId s, false)
  | .cancelAll =>
    let r := doCancelAll e.owner s
    (r.1, decide (r.2 ≥ maxCancelPerCall))
  | .expire => (doExpire e.targetOrderId s, false)
  | .place | .absent => doPlaceHead s

def processHeadCore (s : Book) : Book :=
  if s.queueSize = 0 then s
  else
    let r := runHead s
    let s := if r.2 then r.1 else advanceHead r.1
    if s.queueSize > 0 then s.send .processHead else s

/-! ## Public entries -/

variable (env : Env)

/-- The malformed offers `placeSellOffer` turns away. -/
def badOffer (pricePerTick maxTicks flags deadline : ℕ) : Prop :=
  maxTicks < 2 ∨ pricePerTick = 0 ∨ pricePerTick % priceStep ≠ 0 ∨ flags &&& flagMarket ≠ 0 ∨
  (flags &&& flagPostOnly ≠ 0 ∧ flags &&& takerFlags ≠ 0) ∨
  (flags &&& flagIoc ≠ 0 ∧ flags &&& flagFok ≠ 0) ∨ flags &&& unsupportedFlags ≠ 0 ∨
  (flags &&& flagSubscription ≠ 0 ∧ flags &&& flagAon = 0) ∨
  maxTicks * unit pricePerTick ≥ u128 ∨ deadline = 0

instance (p n f d : ℕ) : Decidable (badOffer p n f d) := by
  unfold badOffer
  infer_instance

def placeSellOffer (pricePerTick maxTicks flags sellerPubkey nonce : ℕ) (ownerNote : Address)
    (deadline : ℕ) (m : Msg) (s : Book) : Except InferenceOrderBookState.Err Book := do
  require (m.sender = env.tokenContractAddress sellerPubkey nonce) .badTokenContract
  if badOffer pricePerTick maxTicks flags deadline ∨ s.queueSize ≥ queuePlaceLimit then
    return s.send (.onSellClosed m.sender)
  return processHeadCore (enqueue
    { entryType := .place, owner := ownerNote, flags := flags, price := pricePerTick
      amount := maxTicks, tokenContract := m.sender, deadline := deadline } s)

def placeBuyOrder (clientOrderId escrow maxPricePerTick ticks flags deadline buyerPubkey
    depositHash : ℕ) (m : Msg) (s : Book) : Except InferenceOrderBookState.Err Book := do
  require (m.sender = env.noteAddress depositHash) .invalidSender
  require (ticks ≥ 2) .badParam
  require (flags &&& flagPostOnly = 0 ∨ flags &&& takerFlags = 0) .badFlags
  require (flags &&& flagIoc = 0 ∨ flags &&& flagFok = 0) .badFlags
  require (flags &&& unsupportedFlags = 0) .badFlags
  let isSub := flags &&& flagSubscription ≠ 0
  require (isSub → flags &&& flagAon ≠ 0) .badFlags
  require (isSub → ticks % subWeeksConst = 0) .badParam
  require (isSub → ticks ≤ subWeeksConst * subTicksPerWeek) .badParam
  require (deadline = 0 ∨ deadline > m.now) .expired
  let isMarket := flags &&& flagMarket ≠ 0
  require (isSub → ¬ isMarket) .badFlags
  require (isMarket ∨ maxPricePerTick > 0 ∧ maxPricePerTick % priceStep = 0) .badParam
  require (escrow > 0) .noShell
  require (¬ isMarket → escrow ≥ ticks * unit maxPricePerTick +
    if isSub then 2 * maxPricePerTick else 0) .insufficientDeposit
  require (s.queueSize < queuePlaceLimit) .queueFull
  return processHeadCore (enqueue
    { entryType := .place, owner := m.sender, buyerPubkey := buyerPubkey, isBuy := true
      flags := flags, price := if isMarket then maxPrice else maxPricePerTick, amount := ticks
      escrow := escrow, deadline := deadline, clientOrderId := clientOrderId
      tag := s.bids + 1 } { s with bids := s.bids + 1 })

def cancelOrder (orderId : ℕ) (m : Msg) (s : Book) : Book :=
  if s.queueSize ≥ queueCapacity then
    s.send (.inferenceOrderCancelRejected orderId .queueFull m.sender)
  else processHeadCore (enqueue
    { entryType := .cancel, owner := m.sender, targetOrderId := orderId } s)

def cancelAllOrders (m : Msg) (s : Book) : Book :=
  if s.queueSize ≥ queueCapacity then
    s.send (.inferenceOrderCancelRejected 0 .queueFull m.sender)
  else processHeadCore (enqueue { entryType := .cancelAll, owner := m.sender } s)

def expireOrder (orderId : ℕ) (s : Book) : Except InferenceOrderBookState.Err Book := do
  require (s.queueSize < queuePlaceLimit) .queueFull
  return processHeadCore (enqueue { entryType := .expire, targetOrderId := orderId } s)

def onHandoverAccepted (m : Msg) (s : Book) : Book :=
  { s with handoverBuyer := Function.update s.handoverBuyer m.sender 0 }

def onBounce (paid : ℕ) (m : Msg) (s : Book) : Book :=
  let buyerNote := s.handoverBuyer m.sender
  let s := { s with handoverBuyer := Function.update s.handoverBuyer m.sender 0 }
  if buyerNote ≠ 0 then payShell buyerNote paid 0 s else s

inductive Call where
  | placeSellOffer (pricePerTick maxTicks flags sellerPubkey nonce : ℕ) (ownerNote : Address)
      (deadline : ℕ)
  | placeBuyOrder (clientOrderId escrow maxPricePerTick ticks flags deadline buyerPubkey
      depositHash : ℕ)
  | cancelOrder (orderId : ℕ)
  | cancelAllOrders
  | expireOrder (orderId : ℕ)
  | processHead
  | onHandoverAccepted
  | onBounce (paid : ℕ)

structure Tx where
  msg : Msg
  call : Call

def dispatch (m : Msg) (s : Book) : Call → Except InferenceOrderBookState.Err Book
  | .placeSellOffer p n f k i o d => placeSellOffer env p n f k i o d m s
  | .placeBuyOrder c e p n f d k h => placeBuyOrder env c e p n f d k h m s
  | .cancelOrder id => .ok (cancelOrder id m s)
  | .cancelAllOrders => .ok (cancelAllOrders m s)
  | .expireOrder id => expireOrder id s
  | .processHead => .ok (processHeadCore s)
  | .onHandoverAccepted => .ok (onHandoverAccepted m s)
  | .onBounce paid => .ok (onBounce paid m s)

def enter (m : Msg) (s : Book) : Book := { s with now := m.now, fault := false }

def perform (tx : Tx) (s : Book) : Except InferenceOrderBookState.Err Book :=
  dispatch env tx.msg (enter tx.msg s) tx.call

def exec (tx : Tx) (s : Book) : Except InferenceOrderBookState.Err Book :=
  match perform env tx s with
  | .error e => .error e
  | .ok t => if t.fault then .error .arithmetic else .ok t

/-- The constructor. -/
def construct (modelHash depositHash : ℕ) (modelName : String) (m : Msg) :
    Except InferenceOrderBookState.Err Book := do
  require (m.sender = env.noteAddress depositHash) .notDeployerNote
  require (modelName.utf8ByteSize ≤ 127) .nameTooLong
  require (env.sha256 modelName = modelHash) .badModelName
  return Book.send
    { modelHash := modelHash, modelName := modelName, deployerNote := m.sender, nextOrderId := 1
      now := m.now } (.inferenceOrderBookDeployed m.sender modelHash modelName)

def Constructed (s : Book) : Prop := ∃ h d n m, construct env h d n m = .ok s

def Reachable (s : Book) : Prop :=
  TransactionSystem.Reachable (Constructed env) (exec env) (fun _ _ => True) s

end InferenceOrderBookCalls
