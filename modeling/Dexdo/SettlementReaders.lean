import Dexdo.TokenContractEvents

/-! # How the client reads the end of a deal

`exact_buyer_stop_settlement` and `exact_probe_burn_settlement` of `chain/backends.rs` and
`select_prior_buyer_terminal_receipt` of `chain/client.rs`, over the receipts of one deal. -/
namespace SettlementReaders

open TokenContractState SettlementReceipts

inductive ReaderError where
  | severalStops
  | afterProbeBurned (extra : SettlementEvent)
  | mixedTerminal
  | otherBeneficiary (observed expected : Address)
  deriving DecidableEq

/-- The loop of `exact_buyer_stop_settlement`. -/
def stopLoop (found : Option (ℕ × ℕ)) : List Receipt → Except ReaderError (Option (ℕ × ℕ))
  | [] => .ok found
  | r :: receipts =>
    match r.event with
    | .streamStopped _ toSeller refundToBuyer =>
      if found.isSome then .error .severalStops
      else stopLoop (some (toSeller, refundToBuyer)) receipts
    | _ => stopLoop found receipts

def exactBuyerStopSettlement (receipts : List Receipt) : Except ReaderError (Option (ℕ × ℕ)) :=
  stopLoop none receipts

def exactProbeBurnSettlement (receipts : List Receipt) :
    Except ReaderError (Option (ℕ × ℕ × ℕ)) :=
  match receipts with
  | [] => .ok none
  | first :: rest =>
    match first.event with
    | .probeBurned _ burnedProbe burnedBond refundToBuyer =>
      match rest with
      | extra :: _ => .error (.afterProbeBurned extra.event)
      | [] => .ok (some (burnedProbe, burnedBond, refundToBuyer))
    | _ => .ok none

inductive TerminalFact where
  | alreadyClosed
  deriving DecidableEq

structure BuyerStopTerminalReceipt where
  fact : TerminalFact
  stopSubmitted : Bool
  messageId : String
  createdAt : ℕ
  event : ActionEvent
  preBonds : Option BondState
  postState : Option PostState
  deriving DecidableEq

def selectPriorBuyerTerminalReceipt (expectedBuyer : Address) (receipts : List Receipt) :
    Except ReaderError (Option BuyerStopTerminalReceipt) :=
  let actions := receipts.filter (·.event.action.isSome)
  match stops actions with
  | [] => .ok none
  | receipt :: more =>
    if actions.length ≠ 1 ∨ more ≠ [] then .error .mixedTerminal
    else
      match receipt.event.action with
      | none => .ok none
      | some event =>
        match event.buyer with
        | none => .ok none
        | some observed =>
          if observed ≠ expectedBuyer then .error (.otherBeneficiary observed expectedBuyer)
          else .ok (some ⟨.alreadyClosed, false, receipt.messageId, receipt.createdAt, event,
            none, none⟩)

/-! ## The actions of a history -/

variable {account : Account} {k : ℕ} {l : List Sent} {receipts : List Receipt}
  {found : Option (ℕ × ℕ)} {a b : ActionEvent} {buyer other : Address} {expected : Option Address}
  {action : SettlementAction}

theorem decode_action (o : Out) :
    (account.decode o).bind SettlementEvent.action = actionOut o := by
  cases o <;> rfl

theorem receiptsFrom_actions :
    (account.receiptsFrom k l).filterMap (·.event.action) = actionEvents l := by
  induction l generalizing k with
  | nil => rfl
  | cons m l ih =>
    rw [receiptsFrom_cons, List.filterMap_append, ih]
    have hself : (account.decode m.body).bind SettlementEvent.action = actionOut m.body :=
      decode_action m.body
    unfold actionEvents
    rw [List.filterMap_cons, ← hself]
    cases account.decode m.body with
    | none => rfl
    | some e => cases he : e.action <;> simp [he]

theorem receipts_of_actions {actions : List ActionEvent}
    (h : receipts.filterMap (·.event.action) = actions) :
    (receipts.filter (·.event.action.isSome)).map (·.event) = actions.map ActionEvent.event := by
  subst h
  induction receipts with
  | nil => rfl
  | cons r receipts ih =>
    cases hr : r.event.action with
    | none => simpa [List.filter_cons, List.filterMap_cons, hr] using ih
    | some a =>
      have hmap : (r :: receipts).filterMap (·.event.action) =
          a :: receipts.filterMap (·.event.action) := List.filterMap_cons_some hr
      rw [List.filter_cons_of_pos (by simp [hr]), hmap, List.map_cons, List.map_cons, ih,
        action_eq_some.mp hr]

/-! ## The stop of a stream -/

def stopFigures : ActionEvent → Option (ℕ × ℕ)
  | .streamStopped _ toSeller refundToBuyer => some (toSeller, refundToBuyer)
  | _ => none

theorem stopLoop_actions : stopLoop found receipts =
    match found.toList ++ (receipts.filterMap (·.event.action)).filterMap stopFigures with
    | [] => .ok none
    | [figures] => .ok (some figures)
    | _ => .error .severalStops := by
  induction receipts generalizing found with
  | nil => cases found <;> rfl
  | cons r receipts ih =>
    have hskip (hn : r.event.action.bind stopFigures = none) :
        ((r :: receipts).filterMap (·.event.action)).filterMap stopFigures =
          (receipts.filterMap (·.event.action)).filterMap stopFigures := by
      rw [List.filterMap_cons]
      cases ha : r.event.action with
      | none => rfl
      | some a =>
        rw [ha] at hn
        rw [List.filterMap_cons, show stopFigures a = none from hn]
    unfold stopLoop
    cases he : r.event with
    | streamStopped b x y =>
      have hhead : ((r :: receipts).filterMap (·.event.action)).filterMap stopFigures =
          (x, y) :: (receipts.filterMap (·.event.action)).filterMap stopFigures := by
        simp [he, SettlementEvent.action, stopFigures]
      rw [hhead]
      cases found with
      | none =>
        dsimp only
        rw [if_neg (by simp), ih]
        rfl
      | some f =>
        simp
    | _ =>
      dsimp only
      rw [ih, hskip (by rw [he]; rfl)]

/-! ## What the readers make of the histories a deal can have -/

theorem actions_nil (h : receipts.filterMap (·.event.action) = []) :
    receipts.filter (·.event.action.isSome) = [] :=
  List.map_eq_nil_iff.mp (receipts_of_actions h)

theorem actions_one (h : receipts.filterMap (·.event.action) = [a]) :
    ∃ r, receipts.filter (·.event.action.isSome) = [r] ∧ r.event = a.event :=
  List.map_eq_singleton_iff.mp (receipts_of_actions h)

theorem actions_two (h : receipts.filterMap (·.event.action) = [a, b]) :
    ∃ r r', receipts.filter (·.event.action.isSome) = [r, r'] ∧ r.event = a.event ∧
      r'.event = b.event := by
  obtain ⟨r, rest, hl, hr, hrest⟩ := List.map_eq_cons_iff.mp (receipts_of_actions h)
  obtain ⟨r', rfl, hr'⟩ := List.map_eq_singleton_iff.mp hrest
  exact ⟨r, r', hl, hr, hr'⟩

def closes : ActionEvent → Bool
  | .probeBurned .. | .streamStopped .. => true
  | _ => false

theorem select_quiet (h : receipts.filterMap (·.event.action) = []) :
    selectPriorBuyerTerminalReceipt buyer receipts = .ok none := by
  unfold selectPriorBuyerTerminalReceipt
  rw [actions_nil h]
  rfl

theorem select_closed (h : receipts.filterMap (·.event.action) = [a]) (ha : closes a = true)
    (hbuyer : a.buyer = some buyer) : ∃ r, selectPriorBuyerTerminalReceipt buyer receipts =
      .ok (some r) ∧ r.event = a := by
  obtain ⟨r, hr, he⟩ := actions_one h
  unfold selectPriorBuyerTerminalReceipt
  have hstop : r.isStop = true := by
    unfold Receipt.isStop
    rw [he]
    cases a <;> first | rfl | cases ha
  have hact : r.event.action = some a := action_eq_some.mpr he
  simp only [hr, stops, List.filter_cons, hstop, if_true, List.filter_nil, List.length_singleton,
    ne_eq, not_true_eq_false, or_self, if_false, hact, hbuyer]
  exact ⟨_, rfl, rfl⟩

theorem select_disputed {time : ℕ} (h : receipts.filterMap (·.event.action) =
    [.streamDisputed other time]) : selectPriorBuyerTerminalReceipt buyer receipts = .ok none := by
  obtain ⟨r, hr, he⟩ := actions_one h
  unfold selectPriorBuyerTerminalReceipt
  simp [hr, stops, Receipt.isStop, he, ActionEvent.event]

theorem select_resolved {time x y : ℕ} {released : Bool}
    (h : receipts.filterMap (·.event.action) =
      [.streamDisputed other time, .disputeResolved x y released]) :
    selectPriorBuyerTerminalReceipt buyer receipts = .ok none := by
  obtain ⟨r, r', hr, he, he'⟩ := actions_two h
  unfold selectPriorBuyerTerminalReceipt
  simp [hr, stops, Receipt.isStop, he, he', ActionEvent.event]

/-- An action is let through where nothing on record is that action or rules it out. -/
theorem reject_ok_iff {actions : List Receipt}
    (h : receipts.filter (·.event.action.isSome) = actions) :
    rejectPriorSettlementAction action expected receipts = .ok () ↔
      (action.resolves = true → canonical actions = true) ∧ ambiguous action actions = false ∧
        exactPrior action actions = none ∧ incompatiblePrior action actions = none := by
  have hcanonical : ¬ (action.resolves && !canonical actions) = true ↔
      (action.resolves = true → canonical actions = true) := by
    cases action.resolves <;> cases canonical actions <;> simp
  unfold rejectPriorSettlementAction
  simp only [h, refuseIf_bind_ok, hcanonical, Bool.not_eq_true]
  refine and_congr_right fun _ => and_congr_right fun _ => ?_
  cases hexact : exactPrior action actions with
  | some r =>
    refine iff_of_false ?_ (by simp)
    dsimp only
    split
    · simp only [refuseIf_bind_ok, not_and]
      intro _ hok
      cases hok
    · intro hok
      cases hok
  | none =>
    cases hprior : incompatiblePrior action actions with
    | some r => exact iff_of_false (fun hok => by cases hok) (by simp)
    | none => exact iff_of_true rfl ⟨rfl, rfl⟩

theorem reject_quiet (h : receipts.filterMap (·.event.action) = []) :
    rejectPriorSettlementAction action expected receipts = .ok () ↔ action.resolves = false := by
  rw [reject_ok_iff (actions_nil h)]
  cases action <;> decide

theorem reject_disputed {time : ℕ} (h : receipts.filterMap (·.event.action) =
    [.streamDisputed other time]) :
    rejectPriorSettlementAction action expected receipts = .ok () ↔ action.resolves = true := by
  obtain ⟨r, hr, he⟩ := actions_one h
  have hd : r.isDispute = true := by rw [Receipt.isDispute, he]; rfl
  have hs : r.isStop = false := by rw [Receipt.isStop, he]; rfl
  have hn : r.isResolution = false := by rw [Receipt.isResolution, he]; rfl
  rw [reject_ok_iff hr]
  cases action <;> simp [SettlementAction.resolves, canonical, ambiguous, exactPrior,
    incompatiblePrior, disputes, resolutions, stops, hd, hs, hn]

theorem reject_closed (h : receipts.filterMap (·.event.action) = [a]) (ha : closes a = true) :
    rejectPriorSettlementAction action expected receipts ≠ .ok () := by
  obtain ⟨r, hr, he⟩ := actions_one h
  have hs : r.isStop = true := by
    rw [Receipt.isStop, he]
    cases a <;> first | rfl | cases ha
  have hd : r.isDispute = false := by
    rw [Receipt.isDispute, he]
    cases a <;> first | rfl | cases ha
  rw [ne_eq, reject_ok_iff hr]
  cases action <;> simp [SettlementAction.resolves, canonical, exactPrior,
    incompatiblePrior, disputes, resolutions, stops, hd, hs]

theorem reject_resolved {time x y : ℕ} {released : Bool}
    (h : receipts.filterMap (·.event.action) =
      [.streamDisputed other time, .disputeResolved x y released]) :
    rejectPriorSettlementAction action expected receipts ≠ .ok () := by
  obtain ⟨r, r', hr, he, he'⟩ := actions_two h
  have hd : r.isDispute = true := by rw [Receipt.isDispute, he]; rfl
  have hn : r.isResolution = false := by rw [Receipt.isResolution, he]; rfl
  have hs : r.isStop = false := by rw [Receipt.isStop, he]; rfl
  have hn' : r'.isResolution = true := by rw [Receipt.isResolution, he']; rfl
  have hs' : r'.isStop = false := by rw [Receipt.isStop, he']; rfl
  rw [ne_eq, reject_ok_iff hr]
  cases action <;> simp [SettlementAction.resolves, ambiguous, incompatiblePrior, resolutions,
    stops, hn, hn', hs, hs']

end SettlementReaders
