import Dexdo.TokenContractClaims
import Mathlib.Algebra.Order.BigOperators.Group.List

/-! # The gas reserve of a deal

Every charged entry burns a fixed figure of ECC[2] (`_chargeGas`), out of what its caller attached
or else out of the reserve the deal was deployed with. `deal_gas_reserve_raw` of
`crates/core/src/params.rs` sizes that reserve. -/
namespace DealGasReserve

open TokenContractState TokenContractCalls TokenContractInvariant TokenContractClaims

/-! ## Charges -/

def gasDeploy : ℕ := 100000000
def gasTerminal : ℕ := 45000000
def gasPostFromNote : ℕ := 25000000
def gasFundFromBook : ℕ := 20000000
def gasOpen : ℕ := 15000000
def gasAcceptProbe : ℕ := 15000000
def gasClaim : ℕ := 15000000
def gasFundDeal : ℕ := 10000000
def gasSettle : ℕ := 15000000
def gasLight : ℕ := 5000000

/-- What an accepted call burns. The two calls of the book are not charged, and `cleanupUnopened`
burns what came with it. -/
def chargeGas (m : Msg) : Call → ℕ
  | .fundFromOrderBook _ _ _ _ => 0
  | .postFromNote _ _ _ _ _ => gasPostFromNote
  | .onSellClosed => 0
  | .close => gasTerminal
  | .fundDeal _ _ => gasFundDeal
  | .fundBuyerBond _ => gasFundDeal
  | .openDeal _ => gasOpen
  | .acceptProbe => gasAcceptProbe
  | .claimTokens _ => gasClaim
  | .finalize => gasSettle
  | .settleWeek => gasSettle
  | .stop => gasTerminal
  | .sellerStop => gasTerminal
  | .dispute => gasTerminal
  | .releaseDispute => gasTerminal
  | .resolveDisputeTimeout => gasTerminal
  | .cleanupUnopened => m.shellAttached
  | .withdrawShell _ => gasLight
  | .destroy => gasTerminal
  | .touchDeal => 0

def dealGasReserveRaw (maxTicks : ℕ) : ℕ :=
  let once := gasDeploy + gasPostFromNote + gasFundFromBook + gasFundDeal + gasOpen +
    gasAcceptProbe + gasSettle + gasLight * 2 + gasTerminal * 2
  min (once + min (gasClaim * max maxTicks 1) (u128 - 1)) (u128 - 1)

/-! ## A deal with its reserve -/

structure Account where
  deal : Deal
  ecc : ℕ

inductive Refusal where
  | contract (e : Err)
  | reserve
  deriving DecidableEq

/-- A call the contract accepts still fails where its charge finds nothing to burn. -/
def execCharged (env : Env) (tx : Tx) (a : Account) : Except Refusal Account :=
  match exec env tx a.deal with
  | .error e => .error (.contract e)
  | .ok t =>
    if chargeGas tx.msg tx.call ≤ a.ecc + tx.msg.shellAttached then
      .ok ⟨t, a.ecc + tx.msg.shellAttached - chargeGas tx.msg tx.call⟩
    else .error .reserve

def unattached (tx : Tx) : ℕ := chargeGas tx.msg tx.call - tx.msg.shellAttached

def drawn (l : List Tx) : ℕ := (l.map unattached).sum

def acts (l : History) : List Tx := l.map TransactionSystem.Record.act

variable {env : Env} {s₀ s : Deal} {l : History} {e : ℕ}

/-- A run of the deal is a run of the account as long as its calls do not take more than the
reserve has. -/
theorem run_charged (h : DealRun env AnyTx s₀ l s) (hd : drawn (acts l) ≤ e) :
    ∃ k e', TransactionSystem.Run (execCharged env)
        (fun a tx => Admissible a.deal tx) ⟨s₀, e⟩ k ⟨s, e'⟩ ∧
      k.map TransactionSystem.Record.act = acts l ∧ e ≤ e' + drawn (acts l) := by
  induction h with
  | nil => exact ⟨[], e, .nil, rfl, Nat.le_add_right _ _⟩
  | @snoc l s tx t hrun hΦ hok ih =>
    have hacts : acts (l ++ [⟨s, tx, t⟩]) = acts l ++ [tx] := List.map_append
    have hsum : drawn (acts l ++ [tx]) = drawn (acts l) + unattached tx := by
      unfold drawn
      rw [List.map_append, List.sum_append]
      rfl
    rw [hacts, hsum] at hd ⊢
    obtain ⟨k, e', hk, hsame, hleft⟩ := ih (by omega)
    have hpays : chargeGas tx.msg tx.call ≤ e' + tx.msg.shellAttached := by
      unfold unattached at hd
      omega
    have hstep : execCharged env tx ⟨s, e'⟩ =
        .ok ⟨t, e' + tx.msg.shellAttached - chargeGas tx.msg tx.call⟩ := by
      unfold execCharged
      dsimp only
      rw [hok]
      exact if_pos hpays
    refine ⟨k ++ [⟨⟨s, e'⟩, tx, _⟩], _, .snoc hk hΦ.1 hstep, ?_, ?_⟩
    · rw [List.map_append, hsame]
      rfl
    · unfold unattached
      omega

/-! ## Clean lives -/

inductive Entry where
  | post | bond | openDeal | probe | settle | withdraw | terminal
  deriving DecidableEq

def entryOf : Call → Option Entry
  | .postFromNote _ _ _ _ _ => some .post
  | .fundDeal _ _ => some .bond
  | .openDeal _ => some .openDeal
  | .acceptProbe => some .probe
  | .finalize => some .settle
  | .withdrawShell _ => some .withdraw
  | .sellerStop | .close | .destroy => some .terminal
  | _ => none

def Entry.charge : Entry → ℕ
  | .post => gasPostFromNote
  | .bond => gasFundDeal
  | .openDeal => gasOpen
  | .probe => gasAcceptProbe
  | .settle => gasSettle
  | .withdraw => gasLight
  | .terminal => gasTerminal

def isClaim : Call → Bool
  | .claimTokens _ => true
  | _ => false

def claims (l : List Tx) : ℕ := l.countP fun tx => isClaim tx.call

def times (e : Entry) (l : List Tx) : ℕ := l.countP fun tx => entryOf tx.call = some e

def isFree (tx : Tx) : Bool :=
  match tx.call with
  | .fundFromOrderBook _ _ _ _ | .onSellClosed => true
  | .fundBuyerBond _ => decide (gasFundDeal ≤ tx.msg.shellAttached)
  | _ => false

def isCleanCall (tx : Tx) : Bool := isClaim tx.call || (entryOf tx.call).isSome || isFree tx

/-- One listing, one fill, the bonds, one opening, one trial, any claims, at most one `finalize`,
one withdrawal, one wind-down and a `destroy` where it left the deal alive. -/
structure CleanLife (l : List Tx) : Prop where
  once : ∀ e, e ≠ .terminal → times e l ≤ 1
  ends : times .terminal l ≤ 2
  kinds : ∀ tx ∈ l, isCleanCall tx = true

def weight (c : Call) : ℕ :=
  (if isClaim c then gasClaim else 0) + ((entryOf c).map Entry.charge).getD 0

theorem chargeGas_weight (m : Msg) {c : Call}
    (h : isClaim c = true ∨ (entryOf c).isSome = true) : chargeGas m c = weight c := by
  unfold weight
  cases c with
  | fundFromOrderBook | onSellClosed | fundBuyerBond | settleWeek | stop | dispute |
      releaseDispute | resolveDisputeTimeout | cleanupUnopened | touchDeal =>
    rcases h with h | h <;> cases h
  | _ =>
    simp only [chargeGas, isClaim, entryOf, Entry.charge, Option.map_some, Option.map_none,
      Option.getD_some, Option.getD_none, Bool.false_eq_true, if_true, if_false, Nat.zero_add,
      Nat.add_zero]

theorem free_weight {tx : Tx} (h : isFree tx = true) : unattached tx = 0 ∧ weight tx.call = 0 := by
  obtain ⟨m, c⟩ := tx
  unfold unattached weight
  cases c with
  | fundBuyerBond a => exact ⟨Nat.sub_eq_zero_of_le (of_decide_eq_true h), rfl⟩
  | fundFromOrderBook | onSellClosed => exact ⟨Nat.zero_sub _, rfl⟩
  | _ => cases h

theorem unattached_le {tx : Tx} (h : isCleanCall tx = true) : unattached tx ≤ weight tx.call := by
  unfold isCleanCall at h
  rw [Bool.or_eq_true, Bool.or_eq_true] at h
  rcases h with h | h
  · rw [← chargeGas_weight tx.msg h]
    exact Nat.sub_le _ _
  · rw [(free_weight h).1]
    exact Nat.zero_le _

theorem unattached_eq {tx : Tx} (h : isCleanCall tx = true) (hplain : isFree tx = true ∨ tx.msg.shellAttached = 0) :
    unattached tx = weight tx.call := by
  unfold isCleanCall at h
  rw [Bool.or_eq_true, Bool.or_eq_true] at h
  rcases h with h | h
  · rcases hplain with hfree | hzero
    · rw [(free_weight hfree).1, (free_weight hfree).2]
    · unfold unattached
      rw [hzero, Nat.sub_zero, chargeGas_weight tx.msg h]
  · rw [(free_weight h).1, (free_weight h).2]

/-- The entries of a schedule, each as often as it was called. -/
def fixedCost (l : List Tx) : ℕ :=
  times .post l * gasPostFromNote + times .bond l * gasFundDeal + times .openDeal l * gasOpen +
    times .probe l * gasAcceptProbe + times .settle l * gasSettle + times .withdraw l * gasLight +
    times .terminal l * gasTerminal

theorem times_cons (e : Entry) (tx : Tx) (l : List Tx) :
    times e (tx :: l) = times e l + if entryOf tx.call = some e then 1 else 0 := by
  unfold times
  rw [List.countP_cons]
  simp only [decide_eq_true_eq]

theorem fixedCost_cons (tx : Tx) (l : List Tx) :
    fixedCost (tx :: l) = fixedCost l + ((entryOf tx.call).map Entry.charge).getD 0 := by
  unfold fixedCost
  simp only [times_cons]
  cases entryOf tx.call with
  | none => simp
  | some e => cases e <;> simp [Entry.charge] <;> ring

theorem sum_weight : ∀ l : List Tx,
    (l.map fun tx => weight tx.call).sum = gasClaim * claims l + fixedCost l
  | [] => rfl
  | tx :: l => by
    have ih := sum_weight l
    rw [List.map_cons, List.sum_cons, ih, fixedCost_cons]
    unfold weight claims
    rw [List.countP_cons]
    split_ifs <;> ring

theorem drawn_le {l : List Tx} (h : ∀ tx ∈ l, isCleanCall tx = true) :
    drawn l ≤ gasClaim * claims l + fixedCost l := by
  rw [← sum_weight]
  exact List.sum_le_sum fun tx htx => unattached_le (h tx htx)

theorem drawn_eq {l : List Tx} (h : ∀ tx ∈ l, isCleanCall tx = true)
    (hplain : ∀ tx ∈ l, isFree tx = true ∨ tx.msg.shellAttached = 0) :
    drawn l = gasClaim * claims l + fixedCost l := by
  rw [← sum_weight]
  exact congrArg List.sum (List.map_congr_left fun tx htx => unattached_eq (h tx htx) (hplain tx htx))

def burned (l : List Tx) : ℕ := gasDeploy + drawn l

structure FullLife (l : List Tx) : Prop extends CleanLife l where
  all : ∀ e, times e l = 1
  plain : ∀ tx ∈ l, isFree tx = true ∨ tx.msg.shellAttached = 0

theorem fixedCost_le {l : List Tx} (h : ∀ e, times e l ≤ 1) : fixedCost l ≤ 130000000 := by
  have h1 := h .post
  have h2 := h .bond
  have h3 := h .openDeal
  have h4 := h .probe
  have h5 := h .settle
  have h6 := h .withdraw
  have h7 := h .terminal
  unfold fixedCost gasPostFromNote gasFundDeal gasOpen gasAcceptProbe gasSettle gasLight gasTerminal
  omega

theorem fixedCost_all {l : List Tx} (h : ∀ e, times e l = 1) : fixedCost l = 130000000 := by
  unfold fixedCost gasPostFromNote gasFundDeal gasOpen gasAcceptProbe gasSettle gasLight gasTerminal
  simp only [h]

theorem terminal_ends {tx : Tx} {t : Deal} (h : entryOf tx.call = some .terminal)
    (hok : exec env tx s = .ok t) : t.destroyed = true := by
  refine ending_call (exec_ok hok).2.1 ?_
  cases hc : tx.call with
  | sellerStop => exact .inr (.inl rfl)
  | close => exact .inr (.inr (.inr (.inr (.inr rfl))))
  | destroy => exact .inr (.inr (.inr (.inr (.inl rfl))))
  | _ =>
    rw [hc] at h
    cases h

/-- Each wind-down destroys the deal, so a run has one at most. -/
theorem run_terminal (h : DealRun env AnyTx s₀ l s) : times .terminal (acts l) ≤ 1 := by
  have hboth : times .terminal (acts l) ≤ 1 ∧
      (s.destroyed = false → times .terminal (acts l) = 0) := by
    induction h with
    | nil => exact ⟨Nat.zero_le _, fun _ => rfl⟩
    | @snoc l s tx t hrun hΦ hok ih =>
      have hnone := ih.2 (exec_ok hok).1
      have hacts : acts (l ++ [⟨s, tx, t⟩]) = acts l ++ [tx] := List.map_append
      have hcount : times .terminal (acts l ++ [tx]) =
          if entryOf tx.call = some .terminal then 1 else 0 := by
        have hone := times_cons .terminal tx []
        unfold times at hnone hone ⊢
        rw [List.countP_append, hnone, hone]
        exact (Nat.zero_add _).trans (Nat.zero_add _)
      rw [hacts, hcount]
      by_cases hend : entryOf tx.call = some .terminal
      · rw [if_pos hend]
        refine ⟨le_rfl, fun hlive => ?_⟩
        rw [terminal_ends hend hok] at hlive
        cases hlive
      · rw [if_neg hend]
        exact ⟨Nat.zero_le _, fun _ => rfl⟩
  exact hboth.1

/-- A clean life in which `claimTokens` was accepted at most four times more than the deal has
ticks stays within the reserve, and the account never refuses a call for it. A life that makes every
charged call stays within it only then. Past `2 ^ 104` claims the reserve would not fit its
type. -/
theorem clean_life_within_reserve (env : Env) (s₀ s : Deal) (l : History)
    (h0 : Constructed env s₀) (hrun : DealRun env AnyTx s₀ l s) (hlife : CleanLife (acts l)) :
    (claims (acts l) ≤ s₀.maxTicks + 4 ∧ claims (acts l) ≤ 2 ^ 104 →
      burned (acts l) ≤ dealGasReserveRaw s₀.maxTicks ∧
      ∃ k e, TransactionSystem.Run (execCharged env) (fun a tx => Admissible a.deal tx)
          ⟨s₀, dealGasReserveRaw s₀.maxTicks - gasDeploy⟩ k ⟨s, e⟩ ∧
        k.map TransactionSystem.Record.act = acts l) ∧
    (FullLife (acts l) → burned (acts l) ≤ dealGasReserveRaw s₀.maxTicks →
      claims (acts l) ≤ s₀.maxTicks + 4) := by
  have hticks : 2 ≤ s₀.maxTicks := by
    obtain ⟨m, a, -, hc⟩ := h0
    simp only [construct, require_bind_ok, pure_ok, Except.ok.injEq] at hc
    obtain ⟨-, -, -, hmax, -, -, -, -, rfl⟩ := hc
    exact hmax
  have honce : ∀ e, times e (acts l) ≤ 1 := by
    intro e
    by_cases he : e = .terminal
    · exact he ▸ run_terminal hrun
    · exact hlife.once e he
  constructor
  · rintro ⟨hclaims, hsmall⟩
    have hle : drawn (acts l) ≤ gasClaim * claims (acts l) + 130000000 :=
      (drawn_le hlife.kinds).trans (Nat.add_le_add_left (fixedCost_le honce) _)
    have hburned : burned (acts l) ≤ dealGasReserveRaw s₀.maxTicks := by
      unfold burned dealGasReserveRaw gasDeploy gasPostFromNote gasFundFromBook gasFundDeal gasOpen
        gasAcceptProbe gasSettle gasLight gasTerminal u128
      unfold gasClaim at hle ⊢
      dsimp only
      omega
    obtain ⟨k, e, hk, hsame, -⟩ := run_charged (e := dealGasReserveRaw s₀.maxTicks - gasDeploy) hrun
      (by unfold burned at hburned; omega)
    exact ⟨hburned, k, e, hk, hsame⟩
  · intro hfull hle
    unfold burned at hle
    rw [drawn_eq hfull.kinds hfull.plain, fixedCost_all hfull.all] at hle
    unfold dealGasReserveRaw gasDeploy gasClaim gasPostFromNote gasFundFromBook gasFundDeal
      gasOpen gasAcceptProbe gasSettle gasLight gasTerminal at hle
    dsimp only at hle
    omega

/-- A deal of eight ticks: matched for four, opened, and claimed one token a minute `n` times
after its trial, then settled, drawn from and stopped. -/
def slowSchedule (n : ℕ) : List Tx :=
  [noteTx 10 (.postFromNote 1 1 0 0 0), bookTx 20 (.fundFromOrderBook 4100000000 8 4 0),
    ⟨{ sender := 8, pubkey := 0, now := 30, shellAttached := gasFundDeal },
      .fundBuyerBond 2000000000⟩,
    noteTx 31 (.fundDeal 2000000000 none), sellerTx 40 (.openDeal [1]), sellerTx 300 .acceptProbe] ++
  (List.range n).map (fun i => sellerTx (400 + 60 * i) (.claimTokens (tickSize + 1 + i))) ++
  [strangerTx 4000 .finalize, sellerTx 4010 (.withdrawShell 1), sellerTx 4020 .sellerStop]

def isExhausted : Except Refusal Account → Bool
  | .error .reserve => true
  | _ => false

theorem slowSchedule_clean : FullLife (slowSchedule 13) := by
  refine ⟨⟨fun e he => ?_, by decide, by decide⟩, fun e => ?_, by decide⟩
  · cases e <;> decide
  · cases e <;> decide

/-- Thirteen claims on a deal of eight ticks: the calls are all accepted by the contract, they
take more than the reserve, and the seller's exit is refused for it. -/
theorem thirteen_claims_exhaust :
    (∃ l s, DealRun sampleEnv AnyTx sampleDeal l s ∧ CleanLife (acts l) ∧
      dealGasReserveRaw sampleDeal.maxTicks < burned (acts l)) ∧
    ∃ k a, TransactionSystem.Run (execCharged sampleEnv) (fun a tx => Admissible a.deal tx)
        ⟨sampleDeal, dealGasReserveRaw sampleDeal.maxTicks - gasDeploy⟩ k a ∧
      k.map TransactionSystem.Record.act = (slowSchedule 13).dropLast ∧
      isExhausted (execCharged sampleEnv (sellerTx 4020 .sellerStop) a) = true := by
  constructor
  · have hplay : (played AnyTx (slowSchedule 13)).any (fun _ => true) = true := by decide
    obtain ⟨l, s, hrun, hacts, -⟩ := played_run hplay
    refine ⟨l, s, hrun, ?_, ?_⟩
    · rw [show acts l = slowSchedule 13 from hacts]
      exact slowSchedule_clean.toCleanLife
    · rw [show acts l = slowSchedule 13 from hacts]
      decide
  · have hplay : (TransactionSystem.play (execCharged sampleEnv)
        (fun a tx => Admissible a.deal tx) (slowSchedule 13).dropLast
        ⟨sampleDeal, dealGasReserveRaw sampleDeal.maxTicks - gasDeploy⟩).any
          (fun a => isExhausted (execCharged sampleEnv (sellerTx 4020 .sellerStop) a)) = true := by
      decide
    obtain ⟨a, ha, hp⟩ := (Option.any_eq_true _ _).mp hplay
    obtain ⟨k, hrun, hacts⟩ := TransactionSystem.Run.play .nil ha
    exact ⟨k, a, hrun, hacts, hp⟩

/-- Twelve claims fit. -/
theorem twelve_claims_fit : ∃ l s, DealRun sampleEnv AnyTx sampleDeal l s ∧
    CleanLife (acts l) ∧ claims (acts l) = 12 ∧
    burned (acts l) ≤ dealGasReserveRaw sampleDeal.maxTicks := by
  have hplay : (played AnyTx (slowSchedule 12)).any (fun _ => true) = true := by decide
  obtain ⟨l, s, hrun, hacts, -⟩ := played_run hplay
  have hclean : CleanLife (acts l) := by
    rw [show acts l = slowSchedule 12 from hacts]
    refine ⟨fun e he => ?_, by decide, by decide⟩
    cases e <;> decide
  have hclaims : claims (acts l) = 12 := by
    rw [show acts l = slowSchedule 12 from hacts]
    decide
  have hfit := (clean_life_within_reserve sampleEnv sampleDeal s l sampleDeal_constructed hrun
    hclean).1 ⟨by rw [hclaims]; decide, by rw [hclaims]; decide⟩
  exact ⟨l, s, hrun, hclean, hclaims, hfit.1⟩

end DealGasReserve
