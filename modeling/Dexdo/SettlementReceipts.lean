import Dexdo.TokenContractGetters

/-! # What the client makes of a settlement action

The part of `crates/core/src/chain/client.rs` that stands between a settlement call and its
receipt: the history of a deal's events, the refusal of an action already recorded in it, the one
new event an action must show, and the account read after it. -/
namespace SettlementReceipts

open TokenContractState DealGetters

/-! ## Events and receipts -/

/-- `TokenContractSettlementEvent`. Addresses are compared in their normalized spelling, and stand
for it here. -/
inductive SettlementEvent where
  | contractDeployed (tokenContract : Address)
  | streamFunded (buyer : Address) (deposit : ℕ)
  | sellerBondFunded (amount : ℕ)
  | buyerBondFunded (amount : ℕ)
  | streamOpened (buyer : Address) (pricePerTick : ℕ)
  | probeAccepted (buyer : Address) (toSeller bondReturned : ℕ)
  | probeBurned (buyer : Address) (burnedProbe burnedBond refundToBuyer : ℕ)
  | tickFinalized (finalizedOwed deposit : ℕ)
  | ticksClaimed (trusted claimed : ℕ)
  | streamStopped (buyer : Address) (toSeller refundToBuyer : ℕ)
  | streamDisputed (buyer : Address) (time : ℕ)
  | disputeResolved (toSeller refundToBuyer : ℕ) (released : Bool)
  | shellWithdrawn (recipient : Address) (amount : ℕ)
  | contractDestroyed (tokenContract : Address)
  deriving DecidableEq, Repr

/-- `SettlementActionEvent`: the four events an action can be recognised by. -/
inductive ActionEvent where
  | probeBurned (buyer : Address) (burnedProbe burnedBond refundToBuyer : ℕ)
  | streamStopped (buyer : Address) (toSeller refundToBuyer : ℕ)
  | streamDisputed (buyer : Address) (time : ℕ)
  | disputeResolved (toSeller refundToBuyer : ℕ) (released : Bool)
  deriving DecidableEq, Repr

/-- `settlement_action_event_kind`, with the figures. -/
def SettlementEvent.action : SettlementEvent → Option ActionEvent
  | .probeBurned b p q r => some (.probeBurned b p q r)
  | .streamStopped b s r => some (.streamStopped b s r)
  | .streamDisputed b t => some (.streamDisputed b t)
  | .disputeResolved s r released => some (.disputeResolved s r released)
  | _ => none

structure Receipt where
  messageId : String
  createdAt : ℕ
  event : SettlementEvent
  deriving DecidableEq, Repr

structure Account where
  address : Address
  messageId : ℕ → String
  distinct : Function.Injective messageId

/-- `decode_token_contract_settlement_event`; what is no event of the list is skipped. -/
def Account.decode (account : Account) : Out → Option SettlementEvent
  | .contractDeployed => some (.contractDeployed account.address)
  | .streamFunded b d => some (.streamFunded b d)
  | .sellerBondFunded a => some (.sellerBondFunded a)
  | .buyerBondFunded a => some (.buyerBondFunded a)
  | .streamOpened b p => some (.streamOpened b p)
  | .probeAccepted b s r => some (.probeAccepted b s r)
  | .probeBurned b p q r => some (.probeBurned b p q r)
  | .tickFinalized o d => some (.tickFinalized o d)
  | .ticksClaimed t c => some (.ticksClaimed t c)
  | .streamStopped b s r => some (.streamStopped b s r)
  | .streamDisputed b t => some (.streamDisputed b t)
  | .disputeResolved s r released => some (.disputeResolved s r released)
  | .shellWithdrawn r a => some (.shellWithdrawn r a)
  | .contractDestroyed => some (.contractDestroyed account.address)
  | _ => none

/-- `decode_token_contract_settlement_receipts` on traffic whose first message has place `k`. -/
def Account.receiptsFrom (account : Account) (k : ℕ) (l : List Sent) : List Receipt :=
  (l.zipIdx k).filterMap fun m =>
    (account.decode m.1.body).map fun e => ⟨account.messageId m.2, m.1.time, e⟩

def Account.receipts (account : Account) (s : Deal) : List Receipt :=
  account.receiptsFrom 0 s.out

/-! ## Actions -/

inductive SettlementAction where
  | buyerStop
  | sellerStop
  | dispute
  | releaseDispute
  | resolveDisputeTimeout
  deriving DecidableEq, Repr

inductive ExpectedSettlementEvent where
  | buyerStop
  | probeBurned
  | streamStopped
  | streamDisputed
  | disputeResolved (released : Bool)
  deriving DecidableEq, Repr

def onProbe (s : DealChainState) : Bool := s.opened && !s.probeAccepted

def ExpectedSettlementEvent.resolve (e : ExpectedSettlementEvent) (preState : DealChainState) :
    ExpectedSettlementEvent :=
  match e with
  | .buyerStop => if onProbe preState then .probeBurned else .streamStopped
  | exact => exact

/-- What `stream_stop`, `seller_stop`, `stream_dispute`, `release_dispute` and
`resolve_dispute_timeout` pass on as the event they expect. -/
def SettlementAction.expected : SettlementAction → ExpectedSettlementEvent
  | .buyerStop => .buyerStop
  | .sellerStop => .streamStopped
  | .dispute => .streamDisputed
  | .releaseDispute => .disputeResolved true
  | .resolveDisputeTimeout => .disputeResolved false

def SettlementAction.namesBuyer : SettlementAction → Bool
  | .buyerStop | .sellerStop | .dispute => true
  | _ => false

def SettlementAction.resolves : SettlementAction → Bool
  | .releaseDispute | .resolveDisputeTimeout => true
  | _ => false

inductive Contradiction where
  -- before the call
  | invalidHistory
  | severalPrior
  | otherBuyer (observed expected : Address)
  | alreadyRecorded (messageId : String) (createdAt : ℕ)
  | incompatiblePrior (messageId : String) (createdAt : ℕ)
  -- after it
  | notAnExtension (before current : ℕ)
  | rewritten (expected observed : String)
  | severalNew (found : ℕ)
  | noBuyerActor
  | wrongBuyer (observed expected : Address)
  | unresolvedStop
  | incompatibleEvent (observed : SettlementEvent)
  | lost (messageId : String)
  | sellerBondExceeds (held required : ℕ)
  | buyerBondExceeds (held required : ℕ)
  | ordinaryBuyerRequirement (required : ℕ)
  | subscriptionWithoutRequirement
  | shapeChanged
  | notStopped
  | heldCollateral (seller buyer : ℕ)
  | notDisputed (opened disputed : Bool)
  | payoutMismatch (toSeller finalizedOwed : ℕ)
  | disputeMovedMoney
  | inactiveAfterDispute
  deriving DecidableEq, Repr

def refuseIf (p : Prop) [Decidable p] (e : Contradiction) : Except Contradiction Unit :=
  if p then .error e else .ok ()

@[simp] theorem refuseIf_bind_ok {p : Prop} [Decidable p] {e : Contradiction} {α : Type}
    {f : Unit → Except Contradiction α} {a : α} :
    (refuseIf p e >>= f) = .ok a ↔ ¬ p ∧ f () = .ok a := by
  by_cases h : p <;> simp [refuseIf, h, bind, Except.bind]

/-! ## Before the call -/

def Receipt.isResolution (r : Receipt) : Bool :=
  match r.event with
  | .disputeResolved .. => true
  | _ => false

def Receipt.isDispute (r : Receipt) : Bool :=
  match r.event with
  | .streamDisputed .. => true
  | _ => false

def Receipt.isStop (r : Receipt) : Bool :=
  match r.event with
  | .probeBurned .. | .streamStopped .. => true
  | _ => false

def Receipt.released (r : Receipt) : Option Bool :=
  match r.event with
  | .disputeResolved _ _ released => some released
  | _ => none

def Receipt.isStreamStopped (r : Receipt) : Bool :=
  match r.event with
  | .streamStopped .. => true
  | _ => false

def ActionEvent.buyer : ActionEvent → Option Address
  | .probeBurned b .. | .streamStopped b .. | .streamDisputed b .. => some b
  | .disputeResolved .. => none

section Prior

variable (action : SettlementAction) (expectedBuyer : Option Address) (actions : List Receipt)

def resolutions : List Receipt := actions.filter Receipt.isResolution
def disputes : List Receipt := actions.filter Receipt.isDispute
def stops : List Receipt := actions.filter Receipt.isStop

/-- A resolver wants one open dispute, or one dispute and its resolution in that order. -/
def canonical : Bool :=
  actions.length == 1 && (disputes actions).length == 1 && (resolutions actions).isEmpty &&
      (stops actions).isEmpty ||
    actions.length == 2 && (disputes actions).length == 1 && (resolutions actions).length == 1 &&
      (stops actions).isEmpty && actions[0]?.any Receipt.isDispute &&
      actions[1]?.any Receipt.isResolution

def ambiguous : Bool :=
  (resolutions actions).length > 1 || (disputes actions).length > 1 ||
    (stops actions).length > 1 || (!action.resolves && actions.length > 1)

/-- The receipt that records this very action. -/
def exactPrior : Option Receipt :=
  match action with
  | .buyerStop => (stops actions).head?
  | .sellerStop => (stops actions).head?.filter Receipt.isStreamStopped
  | .dispute =>
    if (stops actions).isEmpty && (resolutions actions).isEmpty then (disputes actions).head?
    else none
  | .releaseDispute => (resolutions actions).head?.filter (·.released = some true)
  | .resolveDisputeTimeout => (resolutions actions).head?.filter (·.released = some false)

def incompatiblePrior : Option Receipt :=
  if action.resolves && (resolutions actions).isEmpty && (stops actions).isEmpty then none
  else actions.getLast?

end Prior

def rejectPriorSettlementAction (action : SettlementAction) (expectedBuyer : Option Address)
    (receipts : List Receipt) : Except Contradiction Unit := do
  let actions := receipts.filter (·.event.action.isSome)
  refuseIf (action.resolves && !canonical actions) .invalidHistory
  refuseIf (ambiguous action actions) .severalPrior
  match exactPrior action actions with
  | some r =>
    match expectedBuyer, r.event.action.bind ActionEvent.buyer with
    | some expected, some observed => refuseIf (expected ≠ observed) (.otherBuyer observed expected)
    | _, _ => .ok ()
    .error (.alreadyRecorded r.messageId r.createdAt)
  | none =>
    match incompatiblePrior action actions with
    | some r => .error (.incompatiblePrior r.messageId r.createdAt)
    | none => .ok ()

/-! ## The one new event -/

def settlementReceiptsAfterSnapshot (before current : List Receipt) :
    Except Contradiction (List Receipt) :=
  if current.length < before.length then
    .error (.notAnExtension before.length current.length)
  else
    match (before.zip current).find? (fun p => p.1 ≠ p.2) with
    | some (previous, observed) => .error (.rewritten previous.messageId observed.messageId)
    | none => .ok (current.drop before.length)

structure BondState where
  sellerBondHeld : ℕ
  sellerBondRequired : ℕ
  buyerBondHeld : ℕ
  buyerBondRequired : ℕ
  deriving DecidableEq, Repr

def settlementBondState (facts : DealChainSnapshot) : BondState :=
  ⟨facts.sellerBond.bondHeld, facts.sellerBond.bondRequired, facts.buyerBond.bondHeld,
    facts.buyerBond.bondRequired⟩

structure PostState where
  tokensFinal : ℕ
  tokensPending : ℕ
  bonds : BondState
  opened : Bool
  disputed : Bool
  deriving DecidableEq, Repr

structure ActionReceipt where
  action : SettlementAction
  messageId : String
  createdAt : ℕ
  event : ActionEvent
  preBonds : BondState
  postState : Option PostState
  deriving DecidableEq, Repr

/-- The closure `preserve_buyer`. -/
def preserveBuyer (expectedBuyer : Option Address) (observed : Address) :
    Except Contradiction Address :=
  match expectedBuyer with
  | none => .error .noBuyerActor
  | some expected =>
    if observed = expected then .ok observed else .error (.wrongBuyer observed expected)

/-- The expected event against the one that is there. -/
def reported (expected : ExpectedSettlementEvent) (expectedBuyer : Option Address)
    (event : SettlementEvent) : Except Contradiction ActionEvent :=
  match expected, event with
  | .probeBurned, .probeBurned buyer burnedProbe burnedBond refundToBuyer =>
    (preserveBuyer expectedBuyer buyer).map (.probeBurned · burnedProbe burnedBond refundToBuyer)
  | .streamStopped, .streamStopped buyer toSeller refundToBuyer =>
    (preserveBuyer expectedBuyer buyer).map (.streamStopped · toSeller refundToBuyer)
  | .streamDisputed, .streamDisputed buyer time =>
    (preserveBuyer expectedBuyer buyer).map (.streamDisputed · time)
  | .disputeResolved wanted, .disputeResolved toSeller refundToBuyer released =>
    if released = wanted then .ok (.disputeResolved toSeller refundToBuyer released)
    else .error (.incompatibleEvent event)
  | .buyerStop, _ => .error .unresolvedStop
  | _, _ => .error (.incompatibleEvent event)

def selectNewSettlementActionReceipt (action : SettlementAction)
    (expected : ExpectedSettlementEvent) (expectedBuyer : Option Address) (observed : List Receipt)
    (preBonds : BondState) : Except Contradiction (Option ActionReceipt) :=
  match observed.filter (·.event.action.isSome) with
  | [] => .ok none
  | [r] => do
    let event ← reported expected expectedBuyer r.event
    .ok (some ⟨action, r.messageId, r.createdAt, event, preBonds, none⟩)
  | several => .error (.severalNew several.length)

/-! ## The account after the call -/

def validateSettlementFacts (facts : DealChainSnapshot) : Except Contradiction Unit := do
  refuseIf (facts.sellerBond.bondHeld > facts.sellerBond.bondRequired)
    (.sellerBondExceeds facts.sellerBond.bondHeld facts.sellerBond.bondRequired)
  refuseIf (facts.subscription.isSubscription = true ∧
      facts.buyerBond.bondHeld > facts.buyerBond.bondRequired)
    (.buyerBondExceeds facts.buyerBond.bondHeld facts.buyerBond.bondRequired)
  refuseIf (facts.subscription.isSubscription = false ∧ facts.buyerBond.bondRequired ≠ 0)
    (.ordinaryBuyerRequirement facts.buyerBond.bondRequired)
  refuseIf (facts.subscription.isSubscription = true ∧ facts.buyerBond.bondRequired = 0)
    .subscriptionWithoutRequirement

/-- What a terminal event leaves of the deal. -/
def checkTerminal (post : DealChainSnapshot) : Except Contradiction Unit := do
  refuseIf (post.state.isStopped = false) .notStopped
  refuseIf (post.sellerBond.bondHeld ≠ 0 ∨ post.buyerBond.bondHeld ≠ 0)
    (.heldCollateral post.sellerBond.bondHeld post.buyerBond.bondHeld)

/-- `StreamDisputed` moves no money: only `disputed` and `disputeTime` may differ. -/
def checkDisputed (pre post : DealChainSnapshot) (time : ℕ) : Except Contradiction Unit :=
  refuseIf (post.state ≠ { pre.state with disputed := true, disputeTime := time } ∨
      post.subscription ≠ pre.subscription ∨ post.sellerBond ≠ pre.sellerBond ∨
      post.buyerBond ≠ pre.buyerBond) .disputeMovedMoney

def settlementActionPostState (pre post : DealChainSnapshot) (event : SettlementEvent) :
    Except Contradiction PostState := do
  validateSettlementFacts post
  refuseIf (pre.subscription.isSubscription ≠ post.subscription.isSubscription ∨
      pre.sellerBond.bondRequired ≠ post.sellerBond.bondRequired ∨
      pre.buyerBond.bondRequired ≠ post.buyerBond.bondRequired) .shapeChanged
  match event with
  | .streamDisputed .. =>
    refuseIf (post.state.opened = false ∨ post.state.disputed = false)
      (.notDisputed post.state.opened post.state.disputed)
  | _ => checkTerminal post
  match event with
  | .streamStopped _ toSeller _ | .disputeResolved toSeller _ _ =>
    refuseIf (toSeller ≠ post.state.finalizedOwed)
      (.payoutMismatch toSeller post.state.finalizedOwed)
  | .streamDisputed _ time => checkDisputed pre post time
  | _ => .ok ()
  .ok ⟨post.state.tokensFinal, post.state.tokensPending, settlementBondState post,
    post.state.opened, post.state.disputed⟩

/-- `attach_settlement_post_snapshot`; an inactive account is `none`. -/
def attachSettlementPostSnapshot (receipt : ActionReceipt) (pre : DealChainSnapshot)
    (event : SettlementEvent) (post : Option DealChainSnapshot) :
    Except Contradiction ActionReceipt :=
  match post with
  | some post => do
    let state ← settlementActionPostState pre post event
    .ok { receipt with postState := some state }
  | none =>
    match event with
    | .streamDisputed .. => .error .inactiveAfterDispute
    | _ => .ok { receipt with postState := none }

/-- One round of `reconcile_settlement_action_after_post`, past its waiting. -/
def reconcile (action : SettlementAction) (expected : ExpectedSettlementEvent)
    (expectedBuyer : Option Address) (before current : List Receipt) (pre : DealChainSnapshot)
    (post : Option DealChainSnapshot) : Except Contradiction (Option ActionReceipt) := do
  let observed ← settlementReceiptsAfterSnapshot before current
  match ← selectNewSettlementActionReceipt action expected expectedBuyer observed
      (settlementBondState pre) with
  | none => .ok none
  | some receipt =>
    match observed.find? (·.messageId = receipt.messageId) with
    | none => .error (.lost receipt.messageId)
    | some seen =>
      let receipt ← attachSettlementPostSnapshot receipt pre seen.event post
      .ok (some receipt)

/-! ## Facts about the history -/

section History

variable {account : Account} {before new current : List Receipt} {k : ℕ} {l l' : List Sent}

theorem receiptsFrom_append :
    account.receiptsFrom k (l ++ l') =
      account.receiptsFrom k l ++ account.receiptsFrom (k + l.length) l' := by
  simp [Account.receiptsFrom, List.zipIdx_append, List.filterMap_append]

theorem settlementReceiptsAfterSnapshot_append :
    settlementReceiptsAfterSnapshot before (before ++ new) = .ok new := by
  have hsame : ∀ b : List Receipt,
      (b.zip (b ++ new)).find? (fun p => decide (p.1 ≠ p.2)) = none := by
    intro b
    induction b with
    | nil => rfl
    | cons r b ih => simpa using ih
  unfold settlementReceiptsAfterSnapshot
  rw [if_neg (by simp), hsame before]
  simp

theorem mem_receiptsFrom {r : Receipt} (h : r ∈ account.receiptsFrom k l) :
    ∃ i, r.messageId = account.messageId i ∧ ∃ m, (m, i) ∈ l.zipIdx k ∧
      account.decode m.body = some r.event := by
  obtain ⟨⟨m, i⟩, hmem, hr⟩ := List.mem_filterMap.mp h
  obtain ⟨e, he, rfl⟩ := Option.map_eq_some_iff.mp hr
  exact ⟨i, rfl, m, hmem, he⟩

theorem receipt_unique {r r' : Receipt} (hr : r ∈ account.receiptsFrom k l)
    (hr' : r' ∈ account.receiptsFrom k l) (hid : r.messageId = r'.messageId) :
    r.event = r'.event := by
  obtain ⟨i, hi, m, hm, he⟩ := mem_receiptsFrom hr
  obtain ⟨j, hj, n, hn, he'⟩ := mem_receiptsFrom hr'
  have hij : i = j := account.distinct (by rw [← hi, ← hj, hid])
  subst hij
  obtain ⟨_, _, hm⟩ := List.mem_zipIdx hm
  obtain ⟨_, _, hn⟩ := List.mem_zipIdx hn
  rw [hm] at he
  rw [hn] at he'
  rw [he] at he'
  exact Option.some.inj he'

/-- The action event a message of the deal is, if it is one. -/
def actionOut : Out → Option ActionEvent
  | .probeBurned b p q r => some (.probeBurned b p q r)
  | .streamStopped b s r => some (.streamStopped b s r)
  | .streamDisputed b t => some (.streamDisputed b t)
  | .disputeResolved s r released => some (.disputeResolved s r released)
  | _ => none

def actionEvents (l : List Sent) : List ActionEvent := l.filterMap fun m => actionOut m.body

def ActionEvent.event : ActionEvent → SettlementEvent
  | .probeBurned b p q r => .probeBurned b p q r
  | .streamStopped b s r => .streamStopped b s r
  | .streamDisputed b t => .streamDisputed b t
  | .disputeResolved s r released => .disputeResolved s r released

theorem action_eq_some {e : SettlementEvent} {a : ActionEvent} :
    e.action = some a ↔ e = a.event := by
  cases e <;> cases a <;> simp [SettlementEvent.action, ActionEvent.event]

theorem decode_of_action {o : Out} {a : ActionEvent} (h : actionOut o = some a) :
    account.decode o = some a.event := by
  cases o <;> cases h <;> rfl

theorem decode_of_no_action {o : Out} {e : SettlementEvent} (h : actionOut o = none)
    (he : account.decode o = some e) : e.action = none := by
  cases o <;> cases h <;> cases he <;> rfl

theorem receiptsFrom_cons {m : Sent} :
    account.receiptsFrom k (m :: l) =
      ((account.decode m.body).map fun e => (⟨account.messageId k, m.time, e⟩ : Receipt)).toList ++
        account.receiptsFrom (k + 1) l := by
  unfold Account.receiptsFrom
  rw [List.zipIdx_cons, List.filterMap_cons]
  cases account.decode m.body <;> rfl

theorem receiptsFrom_quiet (h : actionEvents l = []) :
    (account.receiptsFrom k l).filter (·.event.action.isSome) = [] := by
  induction l generalizing k with
  | nil => rfl
  | cons m l ih =>
    unfold actionEvents at h
    rw [List.filterMap_cons] at h
    cases hm : actionOut m.body with
    | some a =>
      rw [hm] at h
      cases h
    | none =>
      rw [hm] at h
      rw [receiptsFrom_cons, List.filter_append, ih h, List.append_nil]
      cases he : account.decode m.body with
      | none => rfl
      | some e => simp [decode_of_no_action hm he]

/-- A receipt of a message sent at place `i` of the traffic. -/
def Receipt.Of (account : Account) (traffic : List Sent) (i : ℕ) (a : ActionEvent) (r : Receipt) :
    Prop :=
  r.messageId = account.messageId i ∧
    ∃ m, traffic[i]? = some m ∧ r.createdAt = m.time ∧ actionOut m.body = some a ∧
      r.event = a.event

/-- Traffic with one action shows the receipt of its message. -/
theorem receiptsFrom_single {a : ActionEvent} {p : List Sent} (hp : p.length = k)
    (h : actionEvents l = [a]) : ∃ r i, k ≤ i ∧ r.Of account (p ++ l) i a ∧
      (account.receiptsFrom k l).filter (·.event.action.isSome) = [r] := by
  induction l generalizing k p with
  | nil => cases h
  | cons m l ih =>
    unfold actionEvents at h
    rw [List.filterMap_cons] at h
    cases hm : actionOut m.body with
    | none =>
      rw [hm] at h
      obtain ⟨r, i, hi, hr, hfilter⟩ := ih (p := p ++ [m]) (k := k + 1) (by simp [hp]) h
      refine ⟨r, i, by omega, by simpa using hr, ?_⟩
      rw [receiptsFrom_cons, List.filter_append, hfilter]
      cases he : account.decode m.body with
      | none => rfl
      | some e => simp [decode_of_no_action hm he]
    | some b =>
      rw [hm] at h
      obtain ⟨rfl, hrest⟩ := List.cons_eq_cons.mp h
      refine ⟨⟨account.messageId k, m.time, b.event⟩, k, le_rfl, ⟨rfl, m, ?_, rfl, hm, rfl⟩, ?_⟩
      · simp [← hp]
      · rw [receiptsFrom_cons, decode_of_action hm, List.filter_append, receiptsFrom_quiet hrest]
        simp [action_eq_some.mpr rfl]

end History

/-! ## One round, where the new traffic holds one action -/

/-- What a round answers for the receipt `r` of a new action `a`. -/
def answer (action : SettlementAction) (expected : ExpectedSettlementEvent)
    (buyer : Option Address) (pre : DealChainSnapshot) (post : Option DealChainSnapshot)
    (r : Receipt) (a : ActionEvent) : Except Contradiction (Option ActionReceipt) := do
  let event ← reported expected buyer a.event
  let receipt ← attachSettlementPostSnapshot
    ⟨action, r.messageId, r.createdAt, event, settlementBondState pre, none⟩ pre a.event post
  .ok (some receipt)

theorem reconcile_single (account : Account) (action : SettlementAction)
    (expected : ExpectedSettlementEvent) (buyer : Option Address) {p l₁ l₂ : List Sent}
    (pre : DealChainSnapshot) (post : Option DealChainSnapshot) {a : ActionEvent}
    (hquiet : actionEvents l₁ = []) (hone : actionEvents l₂ = [a]) :
    ∃ (r : Receipt) (i : ℕ), (p ++ l₁).length ≤ i ∧ r.Of account (p ++ l₁ ++ l₂) i a ∧
      reconcile action expected buyer (account.receiptsFrom 0 p)
        (account.receiptsFrom 0 (p ++ l₁ ++ l₂)) pre post =
          answer action expected buyer pre post r a := by
  obtain ⟨r, i, hi, hr, hfilter⟩ := receiptsFrom_single (p := p ++ l₁)
    (k := (p ++ l₁).length) rfl hone
  refine ⟨r, i, hi, hr, ?_⟩
  have hnew : account.receiptsFrom 0 (p ++ l₁ ++ l₂) =
      account.receiptsFrom 0 p ++ account.receiptsFrom p.length (l₁ ++ l₂) := by
    rw [List.append_assoc, receiptsFrom_append, Nat.zero_add]
  have hsplit : account.receiptsFrom p.length (l₁ ++ l₂) =
      account.receiptsFrom p.length l₁ ++ account.receiptsFrom (p ++ l₁).length l₂ := by
    rw [receiptsFrom_append, List.length_append]
  have hactions : (account.receiptsFrom p.length (l₁ ++ l₂)).filter (·.event.action.isSome) =
      [r] := by
    rw [hsplit, List.filter_append, receiptsFrom_quiet hquiet, hfilter]
    rfl
  have hmem : r ∈ account.receiptsFrom p.length (l₁ ++ l₂) := by
    have hin : r ∈ (account.receiptsFrom p.length (l₁ ++ l₂)).filter (·.event.action.isSome) := by
      rw [hactions]
      exact List.mem_singleton_self r
    exact (List.mem_filter.mp hin).1
  obtain ⟨seen, hseen⟩ : ∃ seen, (account.receiptsFrom p.length (l₁ ++ l₂)).find?
      (fun x => decide (x.messageId = r.messageId)) = some seen := by
    rw [← Option.isSome_iff_exists, List.find?_isSome]
    exact ⟨r, hmem, by simp⟩
  have hsame : seen.event = a.event := by
    have hid := List.find?_some hseen
    have hev := receipt_unique (List.mem_of_find?_eq_some hseen) hmem (of_decide_eq_true hid)
    obtain ⟨-, m, -, -, -, hra⟩ := hr
    exact hev.trans hra
  have hra : r.event = a.event := by
    obtain ⟨-, m, -, -, -, hra⟩ := hr
    exact hra
  simp only [reconcile, hnew, settlementReceiptsAfterSnapshot_append,
    selectNewSettlementActionReceipt, hactions, hra, answer, bind, Except.bind]
  cases reported expected buyer a.event with
  | error e => rfl
  | ok event => simp only [hseen, hsame]

end SettlementReceipts
