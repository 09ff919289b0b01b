import Dexdo.RouteBudget
import Dexdo.SubscriptionKeeperPlan

/-! # The weekly allowance of a subscription route

`SubscriptionWeeklyBudget` of `crates/dexdo/src/buyer/api/mod.rs` beside the route it publishes a
ceiling to and the TokenContract it reads. Passes are serialised by the refresh lock. -/
namespace WeeklyBudget

open TokenContractState TokenContractCalls TokenContractGetters DealGetters RouteBudget
open SubscriptionKeeper SubscriptionKeeperPlan TokenContractLedger

/-! ## Figures read off a snapshot -/

def termIsOver (d : DealSubscription) : Bool := d.isSubscription && decide (d.weekIndex ≥ d.subWeeks)

def recordedWeekExpiresAt (d : DealSubscription) : ℕ :=
  if !d.isSubscription ∨ d.weekIndex ≥ d.subWeeks then u64 - 1
  else saturatingAdd d.periodStart ((d.weekIndex + 1) * subWeekLen)

def subscriptionClaimCapAt (state : DealChainState) (d : DealSubscription) : Option ℕ :=
  if !d.isSubscription then none
  else if termIsOver d then some state.tokensPending
  else if d.weekBaseTokens + d.tokensPerWeek < u128 then
    some (min (d.weekBaseTokens + d.tokensPerWeek) d.fundedTokens)
  else none

def currentWeekHeadroom (state : DealChainState) (d : DealSubscription) : Option ℕ :=
  match subscriptionClaimCapAt state d with
  | some cap => if state.tokensPending ≤ cap then some (cap - state.tokensPending) else none
  | none => none

def localCeiling (v : KeeperSnapshot) (anchor : ℕ) : Option ℕ :=
  match subscriptionClaimCapAt v.deal v.subscription with
  | some cap => if anchor ≤ cap ∧ cap - anchor < u64 then some (cap - anchor) else none
  | none => none

/-! ## The pass -/

inductive Refusal where
  | terminal | unreadable | notSubscription | stopped | termOver | notOpen
  | bookingNotShown | weekNotBooked | contradictory | drawnDown
  deriving DecidableEq, Repr

/-- Where a pass of `reconcile` stands, with its locals. `rebased` is set where the pass holds the
anchor as its cutover lock. -/
inductive Pass where
  | finished (result : Except Refusal Unit)
  | booking
  | reading (booked : Bool)
  | locking (v : KeeperSnapshot) (republished : Bool)
  | sampling (v : KeeperSnapshot) (republished rebased : Bool)
  | computing (v : KeeperSnapshot) (republished rebased : Bool)
  | comparing (v : KeeperSnapshot) (rebased : Bool) (ceiling : ℕ)
  | storingCeiling (v : KeeperSnapshot) (rebased : Bool) (ceiling : ℕ) (drawn : Bool)
  | storingWeek (v : KeeperSnapshot) (rebased drawn : Bool)
  | storingExpiry (v : KeeperSnapshot) (rebased drawn : Bool)
  | clearing (drawn : Bool)

inductive Holder where
  | chunk (i : ℕ)
  | cutover
  deriving DecidableEq, Repr

/-- `past` has every state of the deal since the route was built, the present one last; `cursor`
is the one the latest snapshot was taken of. `atAcceptance` is what the route had delivered when
`acceptProbe` executed, where that was after it was built. -/
structure System where
  route : RouteBudget.State
  claimAnchor : ℕ
  publishedWeek : ℕ
  publishedWeekExpiresAt : ℕ
  terminal : Bool
  anchorLock : Option Holder
  pass : Pass
  chain : Deal
  past : List Deal
  cursor : ℕ
  atAcceptance : Option ℕ

namespace System

def finish (x : System) (result : Except Refusal Unit) : System := { x with pass := .finished result }

def fail (x : System) (rebased : Bool) (r : Refusal) : System :=
  { x with pass := .finished (.error r), anchorLock := if rebased then none else x.anchorLock }

def outcome (drawn : Bool) : Except Refusal Unit := if drawn then .error .drawnDown else .ok ()

end System

inductive Action where
  | request (a : RouteBudget.Action)
  | startPass
  | booked (ok : Bool)
  | unreadable
  | snapshot (k now : ℕ)
  | lockAnchor
  | sample
  | compute
  | compare
  | storeCeiling
  | storeWeek
  | storeExpiry
  | clear
  | transact (tx : Tx)

/-- `deal_snapshot` answered, up to the first wait after it. `now` is the buyer's clock. -/
def judge (x : System) (booked : Bool) (v : KeeperSnapshot) (now : ℕ) : System :=
  let week := v.subscription.weekIndex
  let republished := x.publishedWeek != week
  if !v.subscription.isSubscription then x.finish (.error .notSubscription)
  else if v.deal.disputed || v.deal.isStopped then
    { x with terminal := true }.finish (.error .stopped)
  else if termIsOver v.subscription then { x with terminal := true }.finish (.error .termOver)
  else if !v.deal.opened then x.finish (.error .notOpen)
  else if booked && !republished then x.finish (.error .bookingNotShown)
  else if !republished && decide (now ≥ recordedWeekExpiresAt v.subscription) then
    x.finish (.error .weekNotBooked)
  else { x with pass := .locking v republished }

/-- The sample of the delivered counter, and under the cutover lock the new anchor. -/
def sample (x : System) (v : KeeperSnapshot) (republished rebased : Bool) : System :=
  if rebased then
    if x.route.deliveredTokens ≤ tickSize then
      { x with
        claimAnchor := tickSize - x.route.deliveredTokens
        pass := .computing v republished true }
    else x.fail true .contradictory
  else { x with pass := .computing v republished false }

/-- The ceiling the pass will publish. Outside a cutover the anchor is read under its lock. -/
def compute (x : System) (v : KeeperSnapshot) (republished rebased : Bool) : Option System :=
  if republished || rebased then
    if !rebased && x.anchorLock.isSome then none
    else match localCeiling v x.claimAnchor with
      | some ceiling => some { x with pass := .comparing v rebased ceiling }
      | none => some (x.fail rebased .contradictory)
  else some { x with pass := .comparing v rebased x.route.tokenCeiling }

/-- An accepted chunk and a refused one both give the anchor back. -/
def request (gate : ContentGate) (x : System) (a : RouteBudget.Action) : Option System :=
  match RouteBudget.next gate x.route a with
  | none => none
  | some route =>
    match a with
    | .publish _ | .cutover => none
    | .charge i _ =>
      if x.anchorLock.isSome then none
      else match route.at' i with
        | .holding _ _ (some _) => some { x with route := route, anchorLock := some (.chunk i) }
        | _ => some { x with route := route }
    | .accept _ => some { x with route := route, anchorLock := none }
    | _ => some { x with route := route }

/-- A transaction of anybody on the deal, which stays alive. -/
def transact (env : Env) (x : System) (tx : Tx) : Option System :=
  if Admissible x.chain tx ∧ BookFill env x.chain tx then
    match TokenContractCalls.exec env tx x.chain with
    | .error _ => none
    | .ok t =>
      if t.destroyed then none
      else some { x with
        chain := t
        past := x.past ++ [t]
        atAcceptance := if t.probeAccepted && !x.chain.probeAccepted then
          some x.route.deliveredTokens else x.atAcceptance }
  else none

def next (env : Env) (gate : ContentGate) (x : System) : Action → Option System
  | .request a => request gate x a
  | .startPass =>
    match x.pass with
    | .finished _ =>
      if x.terminal then some (x.finish (.error .terminal)) else some { x with pass := .booking }
    | _ => none
  | .booked ok =>
    match x.pass with
    | .booking => some { x with pass := .reading ok }
    | _ => none
  | .unreadable =>
    match x.pass with
    | .reading _ => some (x.finish (.error .unreadable))
    | _ => none
  | .snapshot k now =>
    match x.pass with
    | .reading booked =>
      if x.cursor ≤ k then
        match x.past[k]? with
        | some u => some (judge { x with cursor := k } booked (keeperView u) now)
        | none => none
      else none
    | _ => none
  | .lockAnchor =>
    match x.pass with
    | .locking v republished =>
      if v.deal.probeAccepted && x.route.anchoredBeforeProbe then
        if x.anchorLock.isSome then none
        else some { x with anchorLock := some .cutover, pass := .sampling v republished true }
      else some { x with pass := .sampling v republished false }
    | _ => none
  | .sample =>
    match x.pass with
    | .sampling v republished rebased => some (sample x v republished rebased)
    | _ => none
  | .compute =>
    match x.pass with
    | .computing v republished rebased => compute x v republished rebased
    | _ => none
  | .compare =>
    match x.pass with
    | .comparing v rebased ceiling => some { x with
        pass := .storingCeiling v rebased ceiling (decide (ceiling ≤ x.route.deliveredTokens)) }
    | _ => none
  | .storeCeiling =>
    match x.pass with
    | .storingCeiling v rebased ceiling drawn => some { x with
        route := { x.route with tokenCeiling := ceiling }, pass := .storingWeek v rebased drawn }
    | _ => none
  | .storeWeek =>
    match x.pass with
    | .storingWeek v rebased drawn => some { x with
        publishedWeek := v.subscription.weekIndex, pass := .storingExpiry v rebased drawn }
    | _ => none
  | .storeExpiry =>
    match x.pass with
    | .storingExpiry v rebased drawn =>
      let x := { x with publishedWeekExpiresAt := recordedWeekExpiresAt v.subscription }
      some (if rebased then { x with pass := .clearing drawn } else x.finish (System.outcome drawn))
    | _ => none
  | .clear =>
    match x.pass with
    | .clearing drawn => some ({ x with
        route := { x.route with anchoredBeforeProbe := false }
        anchorLock := none }.finish (System.outcome drawn))
    | _ => none
  | .transact tx => transact env x tx

def exec (env : Env) (gate : ContentGate) (a : Action) (x : System) : Except Unit System :=
  match next env gate x a with
  | some y => .ok y
  | none => .error ()

/-- `SubscriptionWeeklyBudget::new` and `ApiDeal::with_weekly_budget` on one snapshot. -/
def built (s : Deal) (maxTokens : ℕ) (verdict : Option Bool) : System where
  route := opened maxTokens (!(chainState s).probeAccepted) verdict
  claimAnchor := (chainState s).tokensPending
  publishedWeek := (subscription s).weekIndex
  publishedWeekExpiresAt := recordedWeekExpiresAt (subscription s)
  terminal := termIsOver (subscription s)
  anchorLock := none
  pass := .finished (.ok ())
  chain := s
  past := [s]
  cursor := 0
  atAcceptance := none

end WeeklyBudget
