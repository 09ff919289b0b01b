import Dexdo.DealConservation
import Mathlib.Algebra.BigOperators.Group.Finset.Piecewise

/-! # Replays of the deal ledger

What a replay accepts, what the ledger then holds, and what a rejected flow leaves of it. -/
namespace DealConservation

open TokenContractState (u128)

/-! ## `apply` as the method it is -/

/-- The end of `apply`: the balance, the step, and the answer that refers to the step. -/
def DealLedger.finish (l : DealLedger) (flow : DealMoneyFlow) (before after : ℕ) :
    DealLedger × Except ConservationBreach DealLedgerStep :=
  let l : DealLedger :=
    { l with balance := after, steps := l.steps ++ [⟨flow, before, after⟩] }
  match l.steps.getLast? with
  | some step => (l, .ok step)
  | none => (l, .error (.notConserved l.fundedIn l.creditedOut l.writtenOff l.balance))

/-- `apply` on the ledger in place: what is left of it, whatever the answer, with each field
assigned where the source assigns it. -/
def DealLedger.applyInPlace (l : DealLedger) (flow : DealMoneyFlow) :
    DealLedger × Except ConservationBreach DealLedgerStep :=
  if flow.isInflow then
    match checkedAdd l.balance flow.amount with
    | none => (l, .error (.overflow flow.label l.balance flow.amount))
    | some after =>
      match checkedAdd l.fundedIn flow.amount with
      | none => (l, .error (.overflow flow.label l.balance flow.amount))
      | some fundedIn => { l with fundedIn := fundedIn }.finish flow l.balance after
  else
    match checkedSub l.balance flow.amount with
    | none => (l, .error (.overdraft flow.label l.balance flow.amount))
    | some after => (l.book flow).finish flow l.balance after

def DealLedger.applyEach (l : DealLedger) : List DealMoneyFlow → DealLedger
  | [] => l
  | flow :: flows => (l.applyInPlace flow).1.applyEach flows

variable {l k : DealLedger} {flow : DealMoneyFlow} {flows done p : List DealMoneyFlow}
  {e : ConservationBreach} {note : String}

theorem finish_eq (l : DealLedger) (flow : DealMoneyFlow) (before after : ℕ) :
    l.finish flow before after =
      ({ l with balance := after, steps := l.steps ++ [⟨flow, before, after⟩] },
        .ok ⟨flow, before, after⟩) := by
  simp [DealLedger.finish]

theorem book_balance (l : DealLedger) (flow : DealMoneyFlow) : (l.book flow).balance = l.balance := by
  cases flow <;> rfl

theorem applyInPlace_eq (l : DealLedger) (flow : DealMoneyFlow) :
    l.applyInPlace flow =
      match l.apply flow with
      | .ok k => (k, .ok ⟨flow, l.balance, k.balance⟩)
      | .error e => (l, .error e) := by
  unfold DealLedger.applyInPlace DealLedger.apply
  split
  · cases checkedAdd l.balance flow.amount with
    | none => rfl
    | some after =>
      cases checkedAdd l.fundedIn flow.amount with
      | none => rfl
      | some fundedIn =>
        dsimp only
        rw [finish_eq]
        rfl
  · cases checkedSub l.balance flow.amount with
    | none => rfl
    | some after =>
      dsimp only
      rw [finish_eq, DealLedger.record, book_balance]

theorem applyInPlace_rejected (h : (l.applyInPlace flow).2 = .error e) :
    (l.applyInPlace flow).1 = l := by
  rw [applyInPlace_eq] at h ⊢
  cases ha : l.apply flow with
  | ok k =>
    rw [ha] at h
    cases h
  | error e => rfl

/-! ## What the flows add up to -/

def credited : List DealMoneyFlow → ℕ
  | [] => 0
  | .creditedToNote _ a :: flows => a + credited flows
  | _ :: flows => credited flows

def dropped : List DealMoneyFlow → ℕ
  | [] => 0
  | .writtenOff a :: flows => a + dropped flows
  | _ :: flows => dropped flows

def creditedTo (note : String) : List DealMoneyFlow → ℕ
  | [] => 0
  | .creditedToNote n a :: flows => (if note = n then a else 0) + creditedTo note flows
  | _ :: flows => creditedTo note flows

def creditedNotes : List DealMoneyFlow → Finset String
  | [] => ∅
  | .creditedToNote n _ :: flows => insert n (creditedNotes flows)
  | _ :: flows => creditedNotes flows

attribute [grind =] credited dropped creditedTo creditedNotes

theorem outflow_split (flows : List DealMoneyFlow) :
    outflow flows = credited flows + dropped flows := by
  induction flows with
  | nil => rfl
  | cons flow flows ih =>
    cases flow <;>
      simp only [outflow, credited, dropped, DealMoneyFlow.isInflow, DealMoneyFlow.amount, ih,
        if_true, Bool.false_eq_true, if_false] <;> omega

theorem credited_append (a b : List DealMoneyFlow) :
    credited (a ++ b) = credited a + credited b := by
  induction a with
  | nil => simp [credited]
  | cons flow a ih =>
    cases flow <;> simp only [List.cons_append, credited, ih, Nat.add_assoc]

theorem dropped_append (a b : List DealMoneyFlow) : dropped (a ++ b) = dropped a + dropped b := by
  induction a with
  | nil => simp [dropped]
  | cons flow a ih =>
    cases flow <;> simp only [List.cons_append, dropped, ih, Nat.add_assoc]

theorem creditedTo_append (a b : List DealMoneyFlow) :
    creditedTo note (a ++ b) = creditedTo note a + creditedTo note b := by
  induction a with
  | nil => simp [creditedTo]
  | cons flow a ih =>
    cases flow <;> simp only [List.cons_append, creditedTo, ih, Nat.add_assoc]

theorem creditedTo_le (note : String) (flows : List DealMoneyFlow) :
    creditedTo note flows ≤ credited flows := by
  induction flows with
  | nil => exact le_rfl
  | cons flow flows ih =>
    cases flow with
    | creditedToNote n a =>
      simp only [creditedTo, credited]
      split_ifs <;> omega
    | _ => exact ih

theorem sum_creditedTo {notes : Finset String} (h : creditedNotes flows ⊆ notes) :
    ∑ note ∈ notes, creditedTo note flows = credited flows := by
  induction flows with
  | nil => simp [creditedTo, credited]
  | cons flow flows ih =>
    cases flow with
    | creditedToNote n a =>
      simp only [creditedNotes, Finset.insert_subset_iff] at h
      simp only [creditedTo, credited, Finset.sum_add_distrib, Finset.sum_ite_eq', h.1, if_true,
        ih h.2]
    | _ => exact ih h

theorem creditedTo_of_notMem (h : note ∉ creditedNotes flows) : creditedTo note flows = 0 := by
  induction flows with
  | nil => rfl
  | cons flow flows ih =>
    cases flow with
    | creditedToNote n a =>
      simp only [creditedNotes, Finset.mem_insert, not_or] at h
      simp only [creditedTo, if_neg h.1, ih h.2]
    | _ => exact ih h

/-! ## The ledger of accepted flows -/

/-- Every figure of the ledger is the exact sum over the flows behind it. -/
structure Books (l : DealLedger) (flows : List DealMoneyFlow) : Prop where
  fundedIn : l.fundedIn = inflow flows
  balance : l.balance + outflow flows = inflow flows
  creditedOut : l.creditedOut = credited flows
  writtenOff : l.writtenOff = dropped flows
  byNote : ∀ note, l.creditedByNote note = creditedTo note flows
  steps : l.steps.map (·.flow) = flows
  fits : inflow flows < u128

theorem books_new : Books {} [] := ⟨rfl, rfl, rfl, rfl, fun _ => rfl, rfl, by decide⟩

theorem Books.conserved (h : Books l flows) : Conserved l := by
  have hout := outflow_split flows
  have hbal := h.balance
  have hfits := h.fits
  refine ⟨?_, ?_⟩
  · rw [h.creditedOut, h.writtenOff, h.fundedIn]
    omega
  · rw [h.fundedIn]
    exact hfits

def Covered (p : List DealMoneyFlow) : Prop :=
  outflow p ≤ inflow p ∧ inflow p - outflow p < u128 ∧ inflow p < u128

theorem inflow_snoc (flows : List DealMoneyFlow) (flow : DealMoneyFlow) :
    inflow (flows ++ [flow]) = inflow flows + (if flow.isInflow then flow.amount else 0) := by
  simp [inflow]

theorem outflow_snoc (flows : List DealMoneyFlow) (flow : DealMoneyFlow) :
    outflow (flows ++ [flow]) = outflow flows + (if flow.isInflow then 0 else flow.amount) := by
  simp [outflow]

/-- An accepted flow is booked exactly. -/
theorem Books.apply (h : Books l flows) (hok : l.apply flow = .ok k) :
    Books k (flows ++ [flow]) := by
  have hbal := h.balance
  have hfits := h.fits
  have hfund := h.fundedIn
  have hout := outflow_split flows
  cases hin : flow.isInflow with
  | true =>
    simp only [DealLedger.apply, hin, if_true, checkedAdd] at hok
    have hcr : credited [flow] = 0 ∧ dropped [flow] = 0 ∧ ∀ note, creditedTo note [flow] = 0 := by
      cases flow <;> first | exact ⟨rfl, rfl, fun _ => rfl⟩ | cases hin
    obtain ⟨hcr, hdr, hto⟩ := hcr
    split at hok
    · rename_i after sum hafter hsum
      split at hafter <;> cases hafter
      split at hsum <;> cases hsum
      cases hok
      constructor <;>
        simp only [DealLedger.record, inflow_snoc, outflow_snoc, credited_append, dropped_append,
          creditedTo_append, hin, if_true, hcr, hdr, hto, h.creditedOut, h.writtenOff, h.byNote,
          h.steps, List.map_append, List.map_cons, List.map_nil, Nat.add_zero, implies_true] <;>
        omega
    · cases hok
  | false =>
    simp only [DealLedger.apply, hin, Bool.false_eq_true, if_false, checkedSub] at hok
    split at hok
    · rename_i after hafter
      split at hafter <;> cases hafter
      cases hok
      have hcred := h.creditedOut
      have hwrite := h.writtenOff
      cases flow with
      | escrowFunded a => cases hin
      | sellerBondFunded a => cases hin
      | buyerBondFunded a => cases hin
      | creditedToNote n a =>
        rename_i hle
        simp only [DealMoneyFlow.amount] at hle
        constructor
        · simp only [DealLedger.record, DealLedger.book, inflow_snoc, hin, hfund,
            Bool.false_eq_true, if_false, Nat.add_zero]
        · simp only [DealLedger.record, inflow_snoc, outflow_snoc, hin, Bool.false_eq_true,
            if_false, DealMoneyFlow.amount]
          omega
        · simp only [DealLedger.record, DealLedger.book, credited_append, credited]
          rw [saturatingAdd_of_lt (by omega)]
          omega
        · simp only [DealLedger.record, DealLedger.book, dropped_append, dropped]
          omega
        · intro note
          have hle' := creditedTo_le n flows
          simp only [DealLedger.record, DealLedger.book, creditedTo_append, creditedTo]
          by_cases hn : note = n
          · subst hn
            rw [Function.update_self, h.byNote, saturatingAdd_of_lt (by omega), if_pos rfl]
            omega
          · rw [Function.update_of_ne hn, h.byNote, if_neg hn, Nat.add_zero]
        · simp only [DealLedger.record, DealLedger.book, List.map_append, h.steps, List.map_cons,
            List.map_nil]
        · simp only [inflow_snoc, hin, Bool.false_eq_true, if_false]
          omega
      | writtenOff a =>
        rename_i hle
        simp only [DealMoneyFlow.amount] at hle
        constructor
        · simp only [DealLedger.record, DealLedger.book, inflow_snoc, hin, hfund,
            Bool.false_eq_true, if_false, Nat.add_zero]
        · simp only [DealLedger.record, inflow_snoc, outflow_snoc, hin, Bool.false_eq_true,
            if_false, DealMoneyFlow.amount]
          omega
        · simp only [DealLedger.record, DealLedger.book, credited_append, credited]
          omega
        · simp only [DealLedger.record, DealLedger.book, dropped_append, dropped,
            DealMoneyFlow.amount]
          rw [saturatingAdd_of_lt (by omega)]
          omega
        · intro note
          simp only [DealLedger.record, DealLedger.book, creditedTo_append, creditedTo, h.byNote,
            Nat.add_zero]
        · simp only [DealLedger.record, DealLedger.book, List.map_append, h.steps, List.map_cons,
            List.map_nil]
        · simp only [inflow_snoc, hin, Bool.false_eq_true, if_false]
          omega
    · cases hok

theorem Books.accepts_iff (h : Books l flows) :
    (∃ k, l.apply flow = .ok k) ↔ Covered (flows ++ [flow]) := by
  have hbal := h.balance
  have hfund := h.fundedIn
  have hfits := h.fits
  unfold Covered
  rw [inflow_snoc, outflow_snoc]
  cases hin : flow.isInflow with
  | true =>
    simp only [if_true]
    constructor
    · rintro ⟨k, hk⟩
      have hb := (h.apply hk).fits
      rw [inflow_snoc, hin, if_pos rfl] at hb
      omega
    · rintro ⟨-, -, hlt⟩
      obtain ⟨k, hk, -⟩ := apply_inflow h.conserved hin (by omega)
      exact ⟨k, hk⟩
  | false =>
    simp only [Bool.false_eq_true, if_false]
    constructor
    · rintro ⟨k, hk⟩
      have hb := (h.apply hk).balance
      rw [inflow_snoc, outflow_snoc, hin, if_neg (by simp), if_neg (by simp)] at hb
      omega
    · rintro ⟨hle, -, -⟩
      obtain ⟨k, hk, -⟩ := apply_outflow h.conserved hin (by omega)
      exact ⟨k, hk⟩

theorem Books.replayFrom (h : Books l done) (hok : l.replayFrom flows = .ok k) :
    Books k (done ++ flows) := by
  induction flows generalizing l done with
  | nil =>
    cases hok
    rwa [List.append_nil]
  | cons flow flows ih =>
    simp only [DealLedger.replayFrom] at hok
    split at hok
    · rename_i m hm
      have := ih (h.apply hm) hok
      rwa [List.append_assoc] at this
    · cases hok

theorem Books.replayFrom_iff (h : Books l done) :
    (∃ k, l.replayFrom flows = .ok k) ↔ ∀ p, p <+: flows → p ≠ [] → Covered (done ++ p) := by
  induction flows generalizing l done with
  | nil =>
    simp only [DealLedger.replayFrom, List.prefix_nil]
    exact ⟨fun _ p hp hne => absurd hp hne, fun _ => ⟨l, rfl⟩⟩
  | cons flow flows ih =>
    simp only [DealLedger.replayFrom]
    cases hm : l.apply flow with
    | ok m =>
      have hfirst := h.accepts_iff.mp ⟨m, hm⟩
      have hnext := ih (h.apply hm)
      dsimp only
      rw [hnext]
      constructor
      · intro hall p hp hne
        obtain rfl | ⟨q, rfl, hq⟩ := List.prefix_cons_iff.mp hp
        · exact absurd rfl hne
        · cases q with
          | nil => exact hfirst
          | cons x q =>
            have := hall (x :: q) hq (by simp)
            rwa [List.append_assoc] at this
      · intro hall p hp hne
        have := hall (flow :: p) (List.cons_prefix_cons.mpr ⟨rfl, hp⟩) (by simp)
        rwa [List.append_assoc]
    | error e =>
      constructor
      · rintro ⟨k, hk⟩
        cases hk
      · intro hall
        have hone : [flow] <+: flow :: flows := ⟨flows, rfl⟩
        obtain ⟨k, hk⟩ := h.accepts_iff.mpr (hall [flow] hone (by simp))
        rw [hm] at hk
        cases hk

theorem Books.applyEach (h : Books l done) :
    ∃ kept, kept.Sublist flows ∧ Books (l.applyEach flows) (done ++ kept) := by
  induction flows generalizing l done with
  | nil => exact ⟨[], List.Sublist.refl _, by rwa [List.append_nil]⟩
  | cons flow flows ih =>
    simp only [DealLedger.applyEach]
    rw [applyInPlace_eq]
    cases hm : l.apply flow with
    | ok m =>
      obtain ⟨kept, hsub, hbooks⟩ := ih (h.apply hm)
      rw [List.append_assoc] at hbooks
      exact ⟨flow :: kept, hsub.cons_cons flow, hbooks⟩
    | error e =>
      obtain ⟨kept, hsub, hbooks⟩ := ih h
      exact ⟨kept, hsub.cons flow, hbooks⟩

/-- What a ledger with exact books settles to. -/
structure Settles (l : DealLedger) (flows : List DealMoneyFlow) : Prop where
  settled : l.settle = .ok ⟨l.fundedIn, l.creditedOut, l.writtenOff, l.balance, l.creditedByNote⟩
  identity : l.fundedIn = l.creditedOut + l.writtenOff + l.balance
  /-- No addition of the replay saturated. -/
  sums : l.fundedIn = inflow flows ∧ l.creditedOut = credited flows ∧
    l.writtenOff = dropped flows ∧ ∀ note, l.creditedByNote note = creditedTo note flows
  byNote : ∑ note ∈ creditedNotes flows, l.creditedByNote note = l.creditedOut
  others : ∀ note, note ∉ creditedNotes flows → l.creditedByNote note = 0

theorem Books.settles (h : Books l flows) : Settles l flows := by
  refine ⟨settle_conserved h.conserved, h.conserved.identity.symm,
    ⟨h.fundedIn, h.creditedOut, h.writtenOff, h.byNote⟩, ?_, ?_⟩
  · calc ∑ note ∈ creditedNotes flows, l.creditedByNote note
        = ∑ note ∈ creditedNotes flows, creditedTo note flows :=
          Finset.sum_congr rfl fun note _ => h.byNote note
      _ = credited flows := sum_creditedTo (Finset.Subset.refl _)
      _ = l.creditedOut := h.creditedOut.symm
  · intro note hnote
    rw [h.byNote, creditedTo_of_notMem hnote]

/-- A replay goes through exactly when every prefix is covered, and its ledger then settles on exact
sums; a flow rejected in place changes nothing, and the ledger of whatever was accepted around the
rejected ones settles on exact sums too. -/
theorem replay_exact_and_atomic (flows : List DealMoneyFlow) :
    ((∃ k, DealLedger.replay flows = .ok k) ↔ ∀ p, p <+: flows → Covered p) ∧
    (∀ k, DealLedger.replay flows = .ok k → Settles k flows) ∧
    (∀ l flow e, (DealLedger.applyInPlace l flow).2 = .error e →
      (DealLedger.applyInPlace l flow).1 = l) ∧
    ((DealLedger.applyEach {} flows).steps.map (·.flow)).Sublist flows ∧
    Settles (DealLedger.applyEach {} flows)
      ((DealLedger.applyEach {} flows).steps.map (·.flow)) := by
  obtain ⟨kept, hsub, hbooks⟩ :
      ∃ kept, kept.Sublist flows ∧ Books (DealLedger.applyEach {} flows) kept :=
    books_new.applyEach
  have hkept : (DealLedger.applyEach {} flows).steps.map (·.flow) = kept := hbooks.steps
  rw [hkept]
  refine ⟨?_, ?_, fun l flow e => applyInPlace_rejected, hsub, hbooks.settles⟩
  · unfold DealLedger.replay
    rw [books_new.replayFrom_iff]
    constructor
    · intro h p hp
      cases p with
      | nil => exact ⟨le_rfl, by decide, by decide⟩
      | cons x p => exact h _ hp (by simp)
    · exact fun h p hp _ => h p hp
  · intro k hk
    exact (books_new.replayFrom hk).settles

end DealConservation
