import Dexdo.TokenContractState

/-! # The deal ledger of the client

`crates/core/src/market/deal_conservation.rs`: a deal's `_balance` replayed one money movement at a
time, and the identity a settled deal must satisfy. -/
namespace DealConservation

open TokenContractState (u128)

inductive DealMoneyFlow where
  | escrowFunded (amount : ℕ)
  | sellerBondFunded (amount : ℕ)
  | buyerBondFunded (amount : ℕ)
  | creditedToNote (note : String) (amount : ℕ)
  | writtenOff (amount : ℕ)
  deriving DecidableEq, Repr

namespace DealMoneyFlow

def amount : DealMoneyFlow → ℕ
  | escrowFunded a | sellerBondFunded a | buyerBondFunded a | creditedToNote _ a | writtenOff a => a

def isInflow : DealMoneyFlow → Bool
  | escrowFunded _ | sellerBondFunded _ | buyerBondFunded _ => true
  | creditedToNote _ _ | writtenOff _ => false

def label : DealMoneyFlow → String
  | escrowFunded _ => "escrow_funded"
  | sellerBondFunded _ => "seller_bond_funded"
  | buyerBondFunded _ => "buyer_bond_funded"
  | creditedToNote _ _ => "credited_to_note"
  | writtenOff _ => "written_off"

end DealMoneyFlow

/-- The failures a replay or its fold can report. -/
inductive ConservationBreach where
  | overdraft (transition : String) (balance amount : ℕ)
  | overflow (transition : String) (balance amount : ℕ)
  | residualAtDestruction (balance : ℕ)
  | notConserved (fundedIn creditedOut writtenOff balance : ℕ)
  deriving DecidableEq, Repr

structure DealLedgerStep where
  flow : DealMoneyFlow
  balanceBefore : ℕ
  balanceAfter : ℕ
  deriving DecidableEq, Repr

/-- The whole-deal fold. Notes without an entry read zero, as `credited_to` has it. -/
structure DealSettlement where
  fundedIn : ℕ
  creditedOut : ℕ
  writtenOff : ℕ
  balance : ℕ
  creditedByNote : String → ℕ

structure DealLedger where
  balance : ℕ := 0
  fundedIn : ℕ := 0
  creditedOut : ℕ := 0
  writtenOff : ℕ := 0
  creditedByNote : String → ℕ := fun _ => 0
  steps : List DealLedgerStep := []

def checkedAdd (a b : ℕ) : Option ℕ := if a + b < u128 then some (a + b) else none

def checkedSub (a b : ℕ) : Option ℕ := if b ≤ a then some (a - b) else none

def saturatingAdd (a b : ℕ) : ℕ := min (a + b) (u128 - 1)

theorem checkedAdd_of_lt {a b : ℕ} (h : a + b < u128) : checkedAdd a b = some (a + b) := if_pos h

theorem checkedSub_of_le {a b : ℕ} (h : b ≤ a) : checkedSub a b = some (a - b) := if_pos h

theorem saturatingAdd_of_lt {a b : ℕ} (h : a + b < u128) : saturatingAdd a b = a + b :=
  min_eq_left (by omega)

namespace DealLedger

def record (l : DealLedger) (flow : DealMoneyFlow) (after : ℕ) : DealLedger :=
  { l with balance := after, steps := l.steps ++ [⟨flow, l.balance, after⟩] }

/-- Where an outflow is booked. -/
def book (l : DealLedger) : DealMoneyFlow → DealLedger
  | .creditedToNote note a =>
    { l with
      creditedOut := saturatingAdd l.creditedOut a
      creditedByNote := Function.update l.creditedByNote note
        (saturatingAdd (l.creditedByNote note) a) }
  | flow => { l with writtenOff := saturatingAdd l.writtenOff flow.amount }

def apply (l : DealLedger) (flow : DealMoneyFlow) : Except ConservationBreach DealLedger :=
  if flow.isInflow then
    match checkedAdd l.balance flow.amount, checkedAdd l.fundedIn flow.amount with
    | some after, some fundedIn => .ok ({ l with fundedIn := fundedIn }.record flow after)
    | _, _ => .error (.overflow flow.label l.balance flow.amount)
  else
    match checkedSub l.balance flow.amount with
    | some after => .ok ((l.book flow).record flow after)
    | none => .error (.overdraft flow.label l.balance flow.amount)

def replayFrom (l : DealLedger) : List DealMoneyFlow → Except ConservationBreach DealLedger
  | [] => .ok l
  | flow :: flows =>
    match l.apply flow with
    | .ok l' => replayFrom l' flows
    | .error e => .error e

def replay (flows : List DealMoneyFlow) : Except ConservationBreach DealLedger :=
  replayFrom {} flows

def settle (l : DealLedger) : Except ConservationBreach DealSettlement :=
  let breach := ConservationBreach.notConserved l.fundedIn l.creditedOut l.writtenOff l.balance
  match (checkedAdd l.creditedOut l.writtenOff).bind (checkedAdd · l.balance) with
  | none => .error breach
  | some out =>
    if out ≠ l.fundedIn then .error breach
    else .ok ⟨l.fundedIn, l.creditedOut, l.writtenOff, l.balance, l.creditedByNote⟩

def settleDestroyed (l : DealLedger) : Except ConservationBreach DealSettlement :=
  match l.settle with
  | .error e => .error e
  | .ok settlement =>
    if settlement.balance ≠ 0 then .error (.residualAtDestruction settlement.balance)
    else .ok settlement

end DealLedger

/-! ## Totals of a list of movements -/

def inflow : List DealMoneyFlow → ℕ
  | [] => 0
  | flow :: flows => (if flow.isInflow then flow.amount else 0) + inflow flows

def outflow : List DealMoneyFlow → ℕ
  | [] => 0
  | flow :: flows => (if flow.isInflow then 0 else flow.amount) + outflow flows

attribute [grind =] inflow outflow DealLedger.replayFrom

@[simp] theorem inflow_append (a b : List DealMoneyFlow) :
    inflow (a ++ b) = inflow a + inflow b := by
  induction a with
  | nil => simp [inflow]
  | cons flow a ih =>
    simp only [List.cons_append, inflow, ih]
    omega

@[simp] theorem outflow_append (a b : List DealMoneyFlow) :
    outflow (a ++ b) = outflow a + outflow b := by
  induction a with
  | nil => simp [outflow]
  | cons flow a ih =>
    simp only [List.cons_append, outflow, ih]
    omega

theorem inflow_of_outflows {flows : List DealMoneyFlow}
    (h : ∀ flow ∈ flows, flow.isInflow = false) : inflow flows = 0 := by
  induction flows with
  | nil => rfl
  | cons flow flows ih =>
    rw [inflow, h flow (by simp), ih fun f hf => h f (List.mem_cons_of_mem _ hf)]
    rfl

structure Conserved (l : DealLedger) : Prop where
  identity : l.creditedOut + l.writtenOff + l.balance = l.fundedIn
  fits : l.fundedIn < u128

variable {l k : DealLedger} {flow : DealMoneyFlow} {flows more : List DealMoneyFlow}

theorem new_conserved : Conserved {} := ⟨rfl, by decide⟩

theorem apply_inflow (h : Conserved l) (hin : flow.isInflow = true)
    (hlt : l.fundedIn + flow.amount < u128) :
    ∃ k, l.apply flow = .ok k ∧ Conserved k ∧ k.balance = l.balance + flow.amount ∧
      k.fundedIn = l.fundedIn + flow.amount := by
  have hid := h.identity
  have hbal : l.balance + flow.amount < u128 := by omega
  refine ⟨{ l with fundedIn := l.fundedIn + flow.amount }.record flow (l.balance + flow.amount),
    ?_, ⟨?_, hlt⟩, rfl, rfl⟩
  · simp only [DealLedger.apply, hin, if_true, checkedAdd_of_lt hbal, checkedAdd_of_lt hlt]
  · simp only [DealLedger.record]
    omega

theorem book_conserved (h : Conserved l) (hout : flow.isInflow = false)
    (hle : flow.amount ≤ l.balance) :
    (l.book flow).creditedOut + (l.book flow).writtenOff =
        l.creditedOut + l.writtenOff + flow.amount ∧
      (l.book flow).fundedIn = l.fundedIn ∧ (l.book flow).balance = l.balance := by
  have hid := h.identity
  have hfits := h.fits
  cases flow with
  | escrowFunded a => cases hout
  | sellerBondFunded a => cases hout
  | buyerBondFunded a => cases hout
  | creditedToNote note a =>
    simp only [DealMoneyFlow.amount] at hle ⊢
    simp only [DealLedger.book, saturatingAdd_of_lt (show l.creditedOut + a < u128 by omega)]
    exact ⟨by omega, trivial, trivial⟩
  | writtenOff a =>
    simp only [DealMoneyFlow.amount] at hle ⊢
    simp only [DealLedger.book, DealMoneyFlow.amount,
      saturatingAdd_of_lt (show l.writtenOff + a < u128 by omega)]
    exact ⟨by omega, trivial, trivial⟩

theorem apply_outflow (h : Conserved l) (hout : flow.isInflow = false)
    (hle : flow.amount ≤ l.balance) :
    ∃ k, l.apply flow = .ok k ∧ Conserved k ∧ k.balance + flow.amount = l.balance ∧
      k.fundedIn = l.fundedIn := by
  obtain ⟨hsum, hfund, hbal⟩ := book_conserved h hout hle
  have hid := h.identity
  refine ⟨(l.book flow).record flow (l.balance - flow.amount), ?_, ⟨?_, ?_⟩, ?_, hfund⟩
  · simp only [DealLedger.apply, hout, Bool.false_eq_true, if_false, checkedSub_of_le hle]
  · simp only [DealLedger.record]
    omega
  · simp only [DealLedger.record, hfund]
    exact h.fits
  · simp only [DealLedger.record]
    omega

theorem replayFrom_append (l : DealLedger) (a b : List DealMoneyFlow) :
    l.replayFrom (a ++ b) = (l.replayFrom a).bind (·.replayFrom b) := by
  induction a generalizing l with
  | nil => rfl
  | cons flow a ih =>
    simp only [List.cons_append, DealLedger.replayFrom]
    cases l.apply flow with
    | ok k => exact ih k
    | error e => rfl

theorem replayFrom_outflows (h : Conserved l) (hout : ∀ flow ∈ flows, flow.isInflow = false)
    (hle : outflow flows ≤ l.balance) :
    ∃ k, l.replayFrom flows = .ok k ∧ Conserved k ∧ k.balance + outflow flows = l.balance ∧
      k.fundedIn = l.fundedIn := by
  induction flows generalizing l with
  | nil => exact ⟨l, rfl, h, rfl, rfl⟩
  | cons flow flows ih =>
    have hflow := hout flow (by simp)
    simp only [outflow, hflow, Bool.false_eq_true, if_false] at hle ⊢
    obtain ⟨k, hk, hkc, hkb, hkf⟩ := apply_outflow h hflow (by omega)
    obtain ⟨r, hr, hrc, hrb, hrf⟩ :=
      ih hkc (fun flow hm => hout flow (List.mem_cons_of_mem _ hm)) (by omega)
    refine ⟨r, ?_, hrc, by omega, by omega⟩
    simp only [DealLedger.replayFrom, hk, hr]

theorem apply_fundedIn (hfits : l.fundedIn < u128) (hok : l.apply flow = .ok k) :
    k.fundedIn < u128 ∧
      k.fundedIn = l.fundedIn + (if flow.isInflow then flow.amount else 0) := by
  unfold DealLedger.apply at hok
  split at hok
  · rename_i hin
    split at hok
    · rename_i after sum hafter hsum
      cases hok
      unfold checkedAdd at hsum
      split at hsum
      · cases hsum
        exact ⟨by assumption, by simp [hin, DealLedger.record]⟩
      · cases hsum
    · cases hok
  · rename_i hout
    split at hok
    · cases hok
      cases flow <;>
        simp_all [DealMoneyFlow.isInflow, DealLedger.record, DealLedger.book]
    · cases hok

theorem replayFrom_fundedIn (hfits : l.fundedIn < u128) (hok : l.replayFrom flows = .ok k) :
    k.fundedIn < u128 ∧ k.fundedIn = l.fundedIn + inflow flows := by
  induction flows generalizing l with
  | nil =>
    cases hok
    exact ⟨hfits, rfl⟩
  | cons flow flows ih =>
    simp only [DealLedger.replayFrom] at hok
    split at hok
    · rename_i r hr
      obtain ⟨hlt, hsum⟩ := apply_fundedIn hfits hr
      obtain ⟨hlt', hsum'⟩ := ih hlt hok
      exact ⟨hlt', by rw [hsum', hsum, inflow, Nat.add_assoc]⟩
    · cases hok

theorem settle_conserved (h : Conserved l) :
    l.settle = .ok ⟨l.fundedIn, l.creditedOut, l.writtenOff, l.balance, l.creditedByNote⟩ := by
  have hid := h.identity
  have hfits := h.fits
  simp only [DealLedger.settle,
    checkedAdd_of_lt (show l.creditedOut + l.writtenOff < u128 by omega), Option.bind_some,
    checkedAdd_of_lt (show l.creditedOut + l.writtenOff + l.balance < u128 by omega)]
  rw [if_neg (not_not_intro hid)]

theorem settleDestroyed_empty (h : Conserved l) (hzero : l.balance = 0) :
    l.settleDestroyed =
      .ok ⟨l.fundedIn, l.creditedOut, l.writtenOff, l.balance, l.creditedByNote⟩ := by
  simp only [DealLedger.settleDestroyed, settle_conserved h]
  rw [if_neg (not_not_intro hzero)]

end DealConservation
