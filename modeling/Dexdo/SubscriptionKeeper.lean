import Dexdo.DealGetters

/-! # The subscription keeper

One pass of the permissionless keeper, `crates/dexdo/src/seller/keeper.rs`: it reads the deal,
plans, reads again right before the write, and judges what it reads afterwards. A read is `none`
where the account is gone; observers only watch and are left out, as are the texts around the
figures of a refusal. -/
namespace SubscriptionKeeper

open TokenContractState (u8 u64 subWeekLen tickSize)
open DealGetters (DealChainState DealSubscription)

structure KeeperSnapshot where
  deal : DealChainState
  subscription : DealSubscription
  deriving DecidableEq, Repr

structure ClaimBounds where
  minClaimInterval : ℕ
  promoteWindow : ℕ

def ClaimBounds.fromConfig (minClaimInterval minSecondsPerTick : ℕ) : ClaimBounds :=
  ⟨minClaimInterval, minSecondsPerTick⟩

inductive KeeperPlan where
  | notSubscription | terminal
  | wait (delay : ℕ)
  | finalize
  | settleWeek (target : ℕ)
  deriving DecidableEq, Repr

inductive KeeperStep where
  | notSubscription
  | terminal (tokensFinal : ℕ)
  | wait (delay : ℕ)
  | progress
  deriving DecidableEq, Repr

/-- The refusals, each with the figures its message prints. -/
inductive KeeperError where
  | noDataBeforeLive
  | zeroMinClaimInterval
  | zeroPromoteWindow
  | pipelineRegressed (tokensFinal tokensPending : ℕ)
  | openedUnfunded
  | weekIndexExceeds (weekIndex subWeeks : ℕ)
  | pendingExceedsFunded (tokensPending fundedTokens : ℕ)
  | weekBaseExceedsPending (weekBaseTokens tokensPending : ℕ)
  | belowProbe (tokensFinal tokensPaid : ℕ)
  | noPeriodStart
  | noLastClaimTime
  | deadlineOverflows (field : String)
  | weekIndexOverflows
  | weekOffsetOverflows
  | boundaryOverflows
  | beforePeriodStart
  | targetTooWide
  | targetNotAhead (weekIndex : ℕ)
  | regressing
  | fieldChanged (name : String)
  | periodStartChanged
  | notScheduledWeek (target observed : ℕ) (submit : Option String)
  | notAdvanced (action : KeeperPlan) (error : String)
  | noTransition (action : KeeperPlan)
  deriving DecidableEq, Repr

def refuse (p : Prop) [Decidable p] (e : KeeperError) : Except KeeperError Unit :=
  if p then .error e else .ok ()

@[simp] theorem refuse_bind {p : Prop} [Decidable p] {e : KeeperError} {α : Type}
    {f : Unit → Except KeeperError α} :
    (refuse p e >>= f) = if p then .error e else f () := by
  unfold refuse
  split <;> rfl

def thenTranspose (p : Prop) [Decidable p] (x : Except KeeperError ℕ) :
    Except KeeperError (Option ℕ) :=
  if p then x.map some else .ok none

/-- The checks on an accepted subscription. -/
def validateAccepted (deal : DealChainState) (subscription : DealSubscription) :
    Except KeeperError Unit := do
  refuse (deal.tokensFinal < tickSize ∨ subscription.tokensPaid < tickSize)
    (.belowProbe deal.tokensFinal subscription.tokensPaid)
  refuse (subscription.periodStart = 0) .noPeriodStart
  refuse (deal.lastClaimTime = 0) .noLastClaimTime

/-- The checks on a subscription. -/
def validateSubscription (deal : DealChainState) (subscription : DealSubscription) :
    Except KeeperError Unit := do
  refuse (subscription.weekIndex > subscription.subWeeks)
    (.weekIndexExceeds subscription.weekIndex subscription.subWeeks)
  refuse (deal.tokensPending > subscription.fundedTokens)
    (.pendingExceedsFunded deal.tokensPending subscription.fundedTokens)
  refuse (deal.isStopped = false ∧ subscription.weekBaseTokens > deal.tokensPending)
    (.weekBaseExceedsPending subscription.weekBaseTokens deal.tokensPending)
  if deal.opened && deal.probeAccepted then validateAccepted deal subscription

def validateSnapshot (snapshot : KeeperSnapshot) : Except KeeperError Unit := do
  let deal := snapshot.deal
  refuse (deal.tokensFinal > deal.tokensPending)
    (.pipelineRegressed deal.tokensFinal deal.tokensPending)
  refuse (deal.opened = true ∧ deal.funded = false) .openedUnfunded
  if snapshot.subscription.isSubscription then validateSubscription deal snapshot.subscription

def checkedAdd (a b : ℕ) (e : KeeperError) : Except KeeperError ℕ :=
  if a + b < u64 then .ok (a + b) else .error e

def checkedDeadline (anchor duration : ℕ) (field : String) : Except KeeperError ℕ :=
  checkedAdd anchor duration (.deadlineOverflows field)

def nextWeekBoundary (subscription : DealSubscription) : Except KeeperError ℕ := do
  let nextWeek ← checkedAdd subscription.weekIndex 1 .weekIndexOverflows
  refuse (subWeekLen * nextWeek ≥ u64) .weekOffsetOverflows
  checkedAdd subscription.periodStart (subWeekLen * nextWeek) .boundaryOverflows

def scheduledWeekTarget (subscription : DealSubscription) (now : ℕ) : Except KeeperError ℕ := do
  refuse (now < subscription.periodStart) .beforePeriodStart
  let target := min ((now - subscription.periodStart) / subWeekLen) subscription.subWeeks
  refuse (target ≥ u8) .targetTooWide
  refuse (target ≤ subscription.weekIndex) (.targetNotAhead subscription.weekIndex)
  return target

def delayUntil (idle now : ℕ) (deadlines : List (Option ℕ)) : ℕ :=
  deadlines.reduceOption.foldl
    (fun delay deadline => if deadline > now then min delay (deadline - now) else delay) idle

/-- `plan` for a subscription past its probe that nobody disputes. -/
def planLive (deal : DealChainState) (subscription : DealSubscription) (bounds : ClaimBounds)
    (now : ℕ) : Except KeeperError KeeperPlan := do
  let lastDeadline ← thenTranspose (deal.tokensPending > deal.tokensFinal)
    (checkedDeadline deal.lastClaimTime bounds.promoteWindow "lastClaimTime")
  if lastDeadline.any (· ≤ now) then return .finalize
  else
    let nextBoundary ← thenTranspose (subscription.weekIndex < subscription.subWeeks)
      (nextWeekBoundary subscription)
    if nextBoundary.any (· ≤ now) then
      return .settleWeek (← scheduledWeekTarget subscription now)
    else
      let finalCloseDeadline ← thenTranspose (subscription.weekIndex = subscription.subWeeks)
        (checkedDeadline deal.lastClaimTime bounds.promoteWindow "lastClaimTime")
      if finalCloseDeadline.any (· ≤ now) ∧ deal.tokensFinal = deal.tokensPending then
        return .settleWeek subscription.subWeeks
      else return .wait (delayUntil bounds.minClaimInterval now
        [lastDeadline, nextBoundary, finalCloseDeadline])

def plan (snapshot : KeeperSnapshot) (bounds : ClaimBounds) (now : ℕ) :
    Except KeeperError KeeperPlan := do
  validateSnapshot snapshot
  let deal := snapshot.deal
  if snapshot.subscription.isSubscription = false then return .notSubscription
  else if deal.isStopped then return .terminal
  else if bounds.minClaimInterval = 0 then throw .zeroMinClaimInterval
  else if deal.opened = false ∨ deal.probeAccepted = false ∨ deal.disputed = true then
    return .wait bounds.minClaimInterval
  else if bounds.promoteWindow = 0 then throw .zeroPromoteWindow
  else planLive deal snapshot.subscription bounds now

/-- The fields that must not go back between two reads. -/
def Regresses (before after : KeeperSnapshot) : Prop :=
  after.deal.tokensFinal < before.deal.tokensFinal ∨
  ¬ (before.deal.isStopped = false ∧ after.deal.isStopped = true) ∧
    after.deal.tokensPending < before.deal.tokensPending ∨
  after.deal.lastClaimTime < before.deal.lastClaimTime ∨
  before.deal.probeAccepted = true ∧ after.deal.probeAccepted = false ∨
  after.subscription.weekIndex < before.subscription.weekIndex ∨
  after.subscription.tokensPaid < before.subscription.tokensPaid ∨
  after.subscription.weekBaseTokens < before.subscription.weekBaseTokens ∨
  after.subscription.periodStart < before.subscription.periodStart

instance (before after : KeeperSnapshot) : Decidable (Regresses before after) := by
  unfold Regresses
  infer_instance

def ensureNonRegressingTransition (before after : KeeperSnapshot) : Except KeeperError Unit := do
  let acceptedProbeNow := before.deal.probeAccepted = false ∧ after.deal.probeAccepted = true
  refuse (Regresses before after) .regressing
  refuse (after.subscription.dealFlags ≠ before.subscription.dealFlags) (.fieldChanged "dealFlags")
  refuse (after.subscription.subWeeks ≠ before.subscription.subWeeks) (.fieldChanged "subWeeks")
  refuse (after.subscription.tokensPerWeek ≠ before.subscription.tokensPerWeek)
    (.fieldChanged "tokensPerWeek")
  refuse (after.subscription.fundedTokens ≠ before.subscription.fundedTokens)
    (.fieldChanged "fundedTokens")
  refuse (after.subscription.periodStart ≠ before.subscription.periodStart ∧ ¬ acceptedProbeNow)
    .periodStartChanged

/-- Whether the write did what was planned on the state before it. -/
def applied (action : KeeperPlan) (before after : KeeperSnapshot) : Bool :=
  match action with
  | .finalize => decide (after.deal.tokensFinal > before.deal.tokensFinal)
  | .settleWeek target =>
    decide (before.subscription.weekIndex < before.subscription.subWeeks ∧
      after.subscription.weekIndex = target)
  | _ => false

/-- Why a write that was not applied is refused. -/
def refusal (action : KeeperPlan) (after : KeeperSnapshot) (submit : Except String Unit) :
    KeeperError :=
  match action, submit with
  | .settleWeek target, .ok () => .notScheduledWeek target after.subscription.weekIndex none
  | .settleWeek target, .error e => .notScheduledWeek target after.subscription.weekIndex (some e)
  | action, .error e => .notAdvanced action e
  | action, .ok () => .noTransition action

def reconcileWrite (bounds : ClaimBounds) (action : KeeperPlan) (before : KeeperSnapshot)
    (after : Option KeeperSnapshot) (submit : Except String Unit) :
    Except KeeperError KeeperStep :=
  match after with
  | none => .ok (.terminal before.deal.tokensFinal)
  | some after => do
    validateSnapshot after
    if after.deal.isStopped then return .terminal after.deal.tokensFinal
    else if after.deal.disputed then return .wait bounds.minClaimInterval
    else
      ensureNonRegressingTransition before after
      if applied action before after then return .progress
      else throw (refusal action after submit)

/-- `KeeperCursor::accept`, on `last_accepted`. -/
def accept (cursor : Option KeeperSnapshot) (snapshot : KeeperSnapshot) :
    Except KeeperError (Option KeeperSnapshot) := do
  validateSnapshot snapshot
  match cursor with
  | some previous => ensureNonRegressingTransition previous snapshot
  | none => pure ()
  return some snapshot

def acceptRead (cursor read : Option KeeperSnapshot) :
    Except KeeperError (Option KeeperSnapshot) :=
  match read with
  | some snapshot => accept cursor snapshot
  | none => .ok cursor

/-- `keeper_step` once it has planned a write on the state before it. -/
def writeStep (bounds : ClaimBounds) (action : KeeperPlan) (preWrite : KeeperSnapshot)
    (postWrite : Option KeeperSnapshot) (submit : Except String Unit)
    (cursor : Option KeeperSnapshot) : Except KeeperError (KeeperStep × Option KeeperSnapshot) := do
  let cursor ← acceptRead cursor postWrite
  let step ← reconcileWrite bounds action preWrite postWrite submit
  return (step, cursor)

/-- `keeper_step` from the second read on. -/
def preWriteStep (bounds : ClaimBounds) (now : ℕ) (observed : KeeperSnapshot)
    (preWrite postWrite : Option KeeperSnapshot) (submit : Except String Unit)
    (cursor : Option KeeperSnapshot) : Except KeeperError (KeeperStep × Option KeeperSnapshot) := do
  let cursor ← acceptRead cursor preWrite
  match preWrite with
  | none => return (.terminal observed.deal.tokensFinal, cursor)
  | some preWrite =>
    match ← plan preWrite bounds now with
    | .notSubscription => return (.notSubscription, cursor)
    | .terminal => return (.terminal preWrite.deal.tokensFinal, cursor)
    | .wait delay => return (.wait delay, cursor)
    | action => writeStep bounds action preWrite postWrite submit cursor

/-- `keeper_step` on what its three reads and its write answer, with the cursor it leaves. -/
def keeperStep (bounds : ClaimBounds) (now : ℕ) (observed preWrite postWrite : Option KeeperSnapshot)
    (submit : Except String Unit) (cursor : Option KeeperSnapshot) :
    Except KeeperError (KeeperStep × Option KeeperSnapshot) := do
  let cursor ← acceptRead cursor observed
  match observed, cursor with
  | none, some last => return (.terminal last.deal.tokensFinal, cursor)
  | none, none => throw .noDataBeforeLive
  | some observed, cursor =>
    match ← plan observed bounds now with
    | .notSubscription => return (.notSubscription, cursor)
    | .terminal => return (.terminal observed.deal.tokensFinal, cursor)
    | .wait delay => return (.wait delay, cursor)
    | _ => preWriteStep bounds now observed preWrite postWrite submit cursor

end SubscriptionKeeper
