import Mathlib
import Dexdo.TokenContractEvents
import Dexdo.TokenContractGetters

/-! # A landed action recognised as itself

The client resolves what it expects of an action from a read before the call, and measures the
account after the call against that read. -/
namespace SettlementRecognition

open TokenContractState TokenContractCalls TokenContractCharges TokenContractPayouts
open TokenContractSteps TokenContractInvariant
open TokenContractExits TokenContractStreaming TokenContractStakes TokenContractEvents
open TokenContractGetters DealGetters SettlementReceipts

variable {E : Env} {m : Msg} {p s t : Deal} {c : Call}

/-! ## What a call in between moves -/

def figures (s : Deal) : DealChainState × DealSubscription × DealSellerBond × DealBuyerBond :=
  (chainState s, subscription s, sellerBond s, buyerBond s)

/-- The calls that are accepted and leave every figure alone: the claim of what is claimed already,
and `settleWeek` past the last week. -/
def Idles (s : Deal) : Call → Prop
  | .claimTokens n => n = s.tokensPend
  | .settleWeek => s.subWeeks ≤ s.weekIndex
  | _ => False

theorem idles_iff (s : Deal) (c : Call) : Idles s c ↔
    c = .claimTokens s.tokensPend ∨ c = .settleWeek ∧ s.subWeeks ≤ s.weekIndex := by
  cases c <;> simp [Idles]

instance (s : Deal) (c : Call) : Decidable (Idles s c) := decidable_of_iff _ (idles_iff s c).symm

def progress (s : Deal) : (Bool × ℕ × ℕ × ℕ) ×ₗ ℕᵒᵈ :=
  toLex ((s.probeAccepted, s.tokensPend, s.tokensFinal, s.weekIndex),
    OrderDual.toDual s.finalizedOwed)

theorem progress_eq (h : figures s = figures t) : progress s = progress t := by
  simp only [figures, Prod.mk.injEq, chainState, subscription, DealChainState.mk.injEq,
    DealSubscription.mk.injEq] at h
  simp only [progress, h]

theorem progress_of_marks (ha : s.probeAccepted ≤ t.probeAccepted) (hp : s.tokensPend ≤ t.tokensPend)
    (hf : s.tokensFinal ≤ t.tokensFinal) (hw : s.weekIndex ≤ t.weekIndex)
    (hne : s.probeAccepted ≠ t.probeAccepted ∨ s.tokensPend ≠ t.tokensPend ∨
      s.tokensFinal ≠ t.tokensFinal ∨ s.weekIndex ≠ t.weekIndex) : progress s < progress t := by
  refine Prod.Lex.toLex_lt_toLex.mpr (.inl (lt_of_le_of_ne ⟨ha, hp, hf, hw⟩ ?_))
  intro heq
  simp only [Prod.mk.injEq] at heq
  obtain ⟨h1, h2, h3, h4⟩ := heq
  rcases hne with h | h | h | h
  · exact h h1
  · exact h h2
  · exact h h3
  · exact h h4

/-- What any of these calls leaves of the deal. -/
structure Passed (s t : Deal) (c : Call) : Prop where
  opened : t.opened = s.opened
  term : t.subWeeks = s.subWeeks
  accepted : s.probeAccepted = true → t.probeAccepted = true
  taken : t.probeAccepted = s.probeAccepted ↔ c ≠ .acceptProbe
  moved : Idles s c ∧ figures t = figures s ∨ ¬ Idles s c ∧ progress s < progress t

theorem acceptProbe_passed (hi : Invariant s) (h : acceptProbe m s = .ok t)
    (hf : t.fault = false) : Passed s t .acceptProbe := by
  obtain ⟨-, -, ha, -, -, heq⟩ := acceptProbe_ok h hf
  have hfresh := Invariant.fresh hi ha
  have hpend := hfresh.tokensPend
  have hfinal := hfresh.tokensFinal
  have hmove : progress s < progress t := by
    rw [heq]
    refine progress_of_marks ?_ ?_ ?_ le_rfl (.inl ?_)
    · exact Bool.le_true _
    · rw [hpend]
      exact Nat.zero_le _
    · rw [hfinal]
      exact Nat.zero_le _
    · rw [ha]
      exact Bool.false_ne_true
  have hopened : t.opened = s.opened := by rw [heq]
  have hterm : t.subWeeks = s.subWeeks := by rw [heq]
  have haccepted : t.probeAccepted = true := by rw [heq]
  refine ⟨hopened, hterm, fun _ => haccepted, ?_, .inr ⟨id, hmove⟩⟩
  rw [haccepted, ha]
  simp

theorem claimTokens_passed {n : ℕ} (hi : Invariant s) (h : claimTokens E n m s = .ok t)
    (hf : t.fault = false) : Passed s t (.claimTokens n) := by
  obtain ⟨-, -, -, ha, hsame | ⟨hn, u, hclaim⟩⟩ := claimTokens_ok h hf hi.base.start_le_now
  · obtain ⟨hn, rfl⟩ := hsame
    exact ⟨rfl, rfl, id, by simp, .inl ⟨hn, rfl⟩⟩
  · have hs := hi.streaming ha
    obtain ⟨_, _, _, _, _, _, heq, -⟩ := booked_fields hi.base hs hclaim.booked
    have ht := hclaim.eq
    rw [heq] at ht
    have hmove : progress s < progress t := by
      rw [ht]
      refine progress_of_marks le_rfl hn.le hs.final_le_pend (Nat.le_add_right _ _) (.inr (.inl ?_))
      exact hn.ne
    have hopened : t.opened = s.opened := by rw [ht]
    have hterm : t.subWeeks = s.subWeeks := by rw [ht]
    have haccepted : t.probeAccepted = s.probeAccepted := by rw [ht]
    refine ⟨hopened, hterm, fun hacc => haccepted.trans hacc, by simp [haccepted], .inr ⟨?_, hmove⟩⟩
    exact hn.ne'

theorem finalize_passed (hi : Invariant s) (h : finalize E s = .ok t)
    (hlive : t.destroyed = false) : Passed s t .finalize := by
  obtain ⟨-, -, hp, -, rfl | ⟨-, -, rfl⟩⟩ := finalize_ok h hi.base.promote_lt
  · refine ⟨rfl, rfl, id, by simp, .inr ⟨id, ?_⟩⟩
    exact progress_of_marks le_rfl le_rfl hp.le le_rfl (.inr (.inr (.inl hp.ne)))
  · rw [payFinalAndClose_destroyed] at hlive
    cases hlive

theorem settleWeek_passed (hi : Invariant s) (h : settleWeek E s = .ok t)
    (hlive : t.destroyed = false) : Passed s t .settleWeek := by
  obtain ⟨-, hs, -, hdue, u, hu, -, -, ⟨rfl, -⟩ | ⟨-, -, rfl⟩⟩ := settleWeek_inv hi h
  · obtain ⟨_, _, _, _, _, _, heq, -⟩ := booked_fields hi.base hs hu
    have hopened : t.opened = s.opened := by rw [heq]
    have hterm : t.subWeeks = s.subWeeks := by rw [heq]
    have haccepted : t.probeAccepted = s.probeAccepted := by rw [heq]
    refine ⟨hopened, hterm, fun hacc => haccepted.trans hacc, by simp [haccepted], ?_⟩
    by_cases hidle : s.subWeeks ≤ s.weekIndex
    · left
      have hnone : weeksElapsed s - s.weekIndex = 0 :=
        Nat.sub_eq_zero_of_le ((weeksElapsedAt_le _ s).trans hidle)
      have hsame : settledBooks s = s := by
        unfold settledBooks
        rw [hnone]
        rfl
      have hkept := hu.eq
      rw [hsame] at hkept
      refine ⟨hidle, ?_⟩
      rw [hkept]
      rfl
    · right
      refine ⟨hidle, ?_⟩
      have hlt : s.weekIndex < weeksElapsed s := hdue.resolve_right hidle
      rw [heq]
      refine progress_of_marks le_rfl le_rfl le_rfl (Nat.le_add_right _ _) (.inr (.inr (.inr ?_)))
      dsimp only
      omega
  · rw [payFinalAndClose_destroyed] at hlive
    cases hlive

theorem withdrawShell_passed {amount : ℕ} (h : withdrawShell amount m s = .ok t)
    (hlive : t.destroyed = false) : Passed s t (.withdrawShell amount) := by
  obtain ⟨hpos, howed, hbal, rfl | ⟨-, -, rfl⟩⟩ := withdrawShell_ok h
  · rw [drawn_eq hbal]
    refine ⟨rfl, rfl, id, by simp, .inr ⟨id, ?_⟩⟩
    refine Prod.Lex.toLex_lt_toLex.mpr (.inr ⟨rfl, ?_⟩)
    change s.finalizedOwed - amount < s.finalizedOwed
    omega
  · cases hlive

theorem Between.passed (hi : Invariant s) (hc : Between c) (hok : dispatch E m s c = .ok t)
    (hf : t.fault = false) (hlive : t.destroyed = false) : Passed s t c := by
  cases hc with
  | acceptProbe => exact acceptProbe_passed hi hok hf
  | claimTokens n => exact claimTokens_passed hi hok hf
  | finalize => exact finalize_passed hi hok hlive
  | settleWeek => exact settleWeek_passed hi hok hlive
  | withdrawShell a => exact withdrawShell_passed hok hlive

/-! ## What a run of them moves -/

def Interposed (s : Deal) (tx : Tx) : Prop := Admissible s tx ∧ Between tx.call

instance (s : Deal) (tx : Tx) : Decidable (Interposed s tx) :=
  inferInstanceAs (Decidable (_ ∧ _))

/-- The transactions between the read of `p` and the state `s` the action meets. -/
abbrev Interval (E : Env) (p : Deal) (l : List (TransactionSystem.Record Deal Tx)) (s : Deal) :
    Prop :=
  TransactionSystem.Run (exec E) Interposed p l s

/-- What such a run leaves of the deal. -/
structure Carried (p : Deal) (l : List (TransactionSystem.Record Deal Tx)) (s : Deal) : Prop where
  invariant : Invariant s
  secured : Secured s
  quiet : Emits p s []
  opened : s.opened = p.opened
  term : s.subWeeks = p.subWeeks
  accepted : p.probeAccepted = true → s.probeAccepted = true
  taken : s.probeAccepted = p.probeAccepted ↔ ∀ r ∈ l, r.act.call ≠ .acceptProbe
  moved : (∀ r ∈ l, Idles r.pre r.act.call) ∧ figures s = figures p ∨
    ¬ (∀ r ∈ l, Idles r.pre r.act.call) ∧ progress p < progress s

theorem Carried.start (hi : Invariant p) (hsec : Secured p) : Carried p [] p :=
  ⟨hi, hsec, .refl p, rfl, rfl, id, by simp, .inl ⟨by simp, rfl⟩⟩

theorem Carried.progress_le {l : List (TransactionSystem.Record Deal Tx)} (h : Carried p l s) :
    progress p ≤ progress s := by
  rcases h.moved with ⟨-, hsame⟩ | ⟨-, hlt⟩
  · exact (progress_eq hsame).ge
  · exact hlt.le

theorem Carried.step {l : List (TransactionSystem.Record Deal Tx)} {tx : Tx} (h : Carried p l s)
    (hi : Invariant t) (hsec : Secured t) (hpass : Passed s t tx.call) (hquiet : Emits s t []) :
    Carried p (l ++ [⟨s, tx, t⟩]) t := by
  have hall : ∀ P : TransactionSystem.Record Deal Tx → Prop,
      (∀ r ∈ l ++ [⟨s, tx, t⟩], P r) ↔ (∀ r ∈ l, P r) ∧ P ⟨s, tx, t⟩ := by
    intro P
    simp only [List.forall_mem_append, List.forall_mem_singleton]
  refine ⟨hi, hsec, h.quiet.quiet_trans hquiet, hpass.opened.trans h.opened,
    hpass.term.trans h.term, fun hp => hpass.accepted (h.accepted hp), ?_, ?_⟩
  · rw [hall, ← h.taken, ← hpass.taken]
    have hback := h.accepted
    have hstep := hpass.accepted
    -- an acceptance cannot be undone, so it shows at the end wherever it happened
    cases hp : p.probeAccepted <;> cases hs : s.probeAccepted <;> cases ht : t.probeAccepted <;>
      simp_all
  · rw [hall]
    rcases hpass.moved with ⟨hidle, hsame⟩ | ⟨hbusy, hlt⟩
    · rcases h.moved with ⟨hidles, hfig⟩ | ⟨hbusy, hlt⟩
      · exact .inl ⟨⟨hidles, hidle⟩, hsame.trans hfig⟩
      · refine .inr ⟨fun hh => hbusy hh.1, ?_⟩
        rw [progress_eq hsame]
        exact hlt
    · exact .inr ⟨fun hh => hbusy hh.2, h.progress_le.trans_lt hlt⟩

theorem Interval.carried {l : List (TransactionSystem.Record Deal Tx)}
    (hp : Reachable E AnyTx p) (h : Interval E p l s) (hlive : s.destroyed = false) :
    Reachable E AnyTx s ∧ Carried p l s := by
  revert hlive
  induction h with
  | nil =>
    intro hlive
    obtain ⟨hi, hsec⟩ := reachable_secured hp hlive
    exact ⟨hp, .start hi hsec⟩
  | @snoc l s tx t hrun hadm hok ih =>
    intro hlive
    obtain ⟨hlives, hd, hf⟩ := exec_ok hok
    obtain ⟨hreach, hcarried⟩ := ih hlives
    have hreach' : Reachable E AnyTx t := .step hreach ⟨hadm.1, trivial⟩ hok
    obtain ⟨hi, hsec⟩ := reachable_secured hreach' hlive
    have hin := hcarried.invariant.enter hadm.1.later hadm.1.clock
    have hpass := Between.passed hin hadm.2 hd hf hlive
    have hquiet := TokenContractEvents.Between.emits hadm.2 hd hlive
    have hpassed : Passed s t tx.call := ⟨hpass.opened, hpass.term, hpass.accepted, hpass.taken,
      hpass.moved⟩
    have hsilent : Emits s t [] := ⟨hquiet.sent, hquiet.buyer⟩
    exact ⟨hreach', hcarried.step hi hsec hpassed hsilent⟩

/-! ## The action -/

def call : SettlementAction → Call
  | .buyerStop => .stop
  | .sellerStop => .sellerStop
  | .dispute => .dispute
  | .releaseDispute => .releaseDispute
  | .resolveDisputeTimeout => .resolveDisputeTimeout

/-- An action read at `p`, let through by the client, and accepted by the contract on the state
`s` to which the calls in between had brought the deal. -/
structure Landed (E : Env) (account : Account) (action : SettlementAction) (actor : Option Address)
    (p : Deal) (l : List (TransactionSystem.Record Deal Tx)) (s : Deal) (m : Msg) (t : Deal) :
    Prop where
  reachable : Reachable E AnyTx p
  prior : rejectPriorSettlementAction action actor (account.receipts p) = .ok ()
  interval : Interval E p l s
  admissible : Admissible s ⟨m, call action⟩
  executed : exec E ⟨m, call action⟩ s = .ok t

def postSnapshot (code boc : String) (t : Deal) : Option DealChainSnapshot :=
  if t.destroyed then none else some (snapshot code boc t)

def expectedBuyer (action : SettlementAction) (p : Deal) : Option Address :=
  if action.namesBuyer then some p.buyer else none

def Reports (account : Account) (s t : Deal) (r : ActionReceipt) : Prop :=
  ∃ i x, s.out.length ≤ i ∧ t.out[i]? = some x ∧ r.messageId = account.messageId i ∧
    r.createdAt = x.time ∧ actionOut x.body = some r.event

/-- The client succeeds and reports the event of the call. -/
def Recognised (account : Account) (code boc boc' : String) (action : SettlementAction)
    (p s t : Deal) : Prop :=
  ∃ r, reconcile action (action.expected.resolve (chainState p)) (expectedBuyer action p)
      (account.receipts p) (account.receipts t) (snapshot code boc p)
      (postSnapshot code boc' t) = .ok (some r) ∧
    Reports account s t r

/-- Where a landed action is recognised: a stop whose probe was not accepted in between, a dispute
before which no call moved anything, a release on a subscription. -/
def Undisturbed (action : SettlementAction) (p : Deal)
    (l : List (TransactionSystem.Record Deal Tx)) : Prop :=
  match action with
  | .buyerStop => ∀ r ∈ l, r.act.call ≠ .acceptProbe
  | .dispute => ∀ r ∈ l, Idles r.pre r.act.call
  | .releaseDispute => p.subWeeks ≠ 0
  | .sellerStop | .resolveDisputeTimeout => True

instance (action : SettlementAction) (p : Deal) (l : List (TransactionSystem.Record Deal Tx)) :
    Decidable (Undisturbed action p l) := by
  cases action <;> unfold Undisturbed <;> infer_instance

section Recognition

variable {account : Account} {code boc boc' : String} {action : SettlementAction}
  {actor : Option Address} {l : List (TransactionSystem.Record Deal Tx)} {a b : ActionEvent}
  {expected : ExpectedSettlementEvent} {buyer : Option Address} {pre facts : DealChainSnapshot}
  {post : Option DealChainSnapshot} {x y : ℕ}

/-- The event is the expected one, and the account read after it bears it out. -/
structure Accepts (expected : ExpectedSettlementEvent) (buyer : Option Address)
    (pre : DealChainSnapshot) (post : Option DealChainSnapshot) (a : ActionEvent) : Prop where
  reported : reported expected buyer a.event = .ok a
  attached : ∀ r : ActionReceipt, ∃ x, attachSettlementPostSnapshot r pre a.event post = .ok x

theorem preserveBuyer_same {o n : Address} (h : preserveBuyer buyer o = .ok n) : n = o := by
  unfold preserveBuyer at h
  split at h
  · cases h
  · split at h
    · exact (Except.ok.inj h).symm
    · cases h

theorem preserveBuyer_map {o : Address} (f : Address → ActionEvent)
    (h : (preserveBuyer buyer o).map f = .ok b) : b = f o := by
  cases hn : preserveBuyer buyer o with
  | error e =>
    rw [hn] at h
    cases h
  | ok n =>
    rw [hn] at h
    cases h
    rw [preserveBuyer_same hn]

theorem reported_same (h : reported expected buyer a.event = .ok b) : b = a := by
  cases a with
  | probeBurned n x y z =>
    cases expected with
    | probeBurned => exact preserveBuyer_map (.probeBurned · x y z) h
    | _ => cases h
  | streamStopped n x y =>
    cases expected with
    | streamStopped => exact preserveBuyer_map (.streamStopped · x y) h
    | _ => cases h
  | streamDisputed n time =>
    cases expected with
    | streamDisputed => exact preserveBuyer_map (.streamDisputed · time) h
    | _ => cases h
  | disputeResolved x y released =>
    cases expected with
    | disputeResolved wanted =>
      simp only [reported, ActionEvent.event] at h
      split at h
      · exact (Except.ok.inj h).symm
      · cases h
    | _ => cases h

theorem attach_keeps {r r' : ActionReceipt} {e : SettlementEvent}
    (h : attachSettlementPostSnapshot r pre e post = .ok r') :
    r'.messageId = r.messageId ∧ r'.createdAt = r.createdAt ∧ r'.event = r.event := by
  unfold attachSettlementPostSnapshot at h
  cases post with
  | some facts =>
    simp only at h
    cases hs : settlementActionPostState pre facts e with
    | error c =>
      rw [hs] at h
      cases h
    | ok state =>
      rw [hs] at h
      cases h
      exact ⟨rfl, rfl, rfl⟩
  | none =>
    simp only at h
    split at h
    · cases h
    · cases h
      exact ⟨rfl, rfl, rfl⟩

theorem attach_any {r r' r'' : ActionReceipt} {e : SettlementEvent}
    (h : attachSettlementPostSnapshot r pre e post = .ok r') :
    ∃ x, attachSettlementPostSnapshot r'' pre e post = .ok x := by
  unfold attachSettlementPostSnapshot at h ⊢
  cases post with
  | some facts =>
    simp only at h ⊢
    cases hs : settlementActionPostState pre facts e with
    | error c =>
      rw [hs] at h
      cases h
    | ok state => exact ⟨_, rfl⟩
  | none =>
    simp only at h ⊢
    split at h
    · cases h
    · exact ⟨_, rfl⟩

/-- The round on the traffic of an interval and of the call after it. -/
theorem recognised_iff (hp : Emits p s []) (ht : Emits s t [a]) :
    Recognised account code boc boc' action p s t ↔
      Accepts (action.expected.resolve (chainState p)) (expectedBuyer action p)
        (snapshot code boc p) (postSnapshot code boc' t) a := by
  obtain ⟨l₁, hl₁, hquiet⟩ := hp.sent
  obtain ⟨l₂, hl₂, hone⟩ := ht.sent
  obtain ⟨r, i, hi, ⟨hid, x, hx, hat, hact, -⟩, hround⟩ := reconcile_single account action
    (action.expected.resolve (chainState p)) (expectedBuyer action p) (p := p.out)
    (snapshot code boc p) (postSnapshot code boc' t) hquiet hone
  rw [← hl₁, ← hl₂] at hround hx
  rw [← hl₁] at hi
  unfold Recognised
  simp only [Account.receipts, hround]
  constructor
  · rintro ⟨seen, hseen, -⟩
    cases hrep : reported (action.expected.resolve (chainState p)) (expectedBuyer action p)
        a.event with
    | error e =>
      simp only [answer, hrep, bind, Except.bind] at hseen
      cases hseen
    | ok b =>
      have hb := reported_same hrep
      subst hb
      simp only [answer, hrep, bind, Except.bind] at hseen
      split at hseen
      · cases hseen
      · rename_i receipt hatt
        exact ⟨hrep, fun _ => attach_any hatt⟩
  · rintro ⟨hrep, hatt⟩
    obtain ⟨receipt, hreceipt⟩ := hatt ⟨action, r.messageId, r.createdAt, a,
      settlementBondState (snapshot code boc p), none⟩
    obtain ⟨hm, hc, he⟩ := attach_keeps hreceipt
    refine ⟨receipt, ?_, i, x, hi, hx, hm.trans hid, hc.trans hat, ?_⟩
    · simp only [answer, hrep, hreceipt, bind, Except.bind]
    · rw [he]
      exact hact

/-! ### Actions that end the deal -/

theorem accepts_ended (hdead : t.destroyed = true) (ha : ∀ n time, a ≠ .streamDisputed n time) :
    Accepts expected buyer pre (postSnapshot code boc t) a ↔
      reported expected buyer a.event = .ok a := by
  refine ⟨fun h => h.reported, fun h => ⟨h, fun r => ?_⟩⟩
  have hnone : postSnapshot code boc t = none := if_pos hdead
  rw [hnone]
  cases a with
  | streamDisputed n time => exact absurd rfl (ha n time)
  | probeBurned => exact ⟨_, rfl⟩
  | streamStopped => exact ⟨_, rfl⟩
  | disputeResolved => exact ⟨_, rfl⟩

theorem reported_stopped {n : Address} :
    reported .streamStopped (some n) (ActionEvent.streamStopped n x y).event =
      .ok (.streamStopped n x y) := by
  simp [reported, ActionEvent.event, preserveBuyer, Except.map]

theorem reported_resolved {wanted released : Bool} :
    reported (.disputeResolved wanted) buyer (ActionEvent.disputeResolved x y released).event =
      .ok (.disputeResolved x y released) ↔ released = wanted := by
  simp only [reported, ActionEvent.event]
  split
  · rename_i h
    simp [h]
  · rename_i h
    simp [h]

theorem Landed.entered (h : Landed E account action actor p l s m t) :
    Invariant (enter m s) ∧ Secured (enter m s) ∧ Carried p l s ∧
      dispatch E m (enter m s) (call action) = .ok t := by
  obtain ⟨hlive, hok, -⟩ := exec_ok h.executed
  obtain ⟨-, hcarried⟩ := Interval.carried h.reachable h.interval hlive
  have hsec : Secured (enter m s) := hcarried.secured.kept rfl rfl rfl fun _ => ⟨rfl, rfl⟩
  exact ⟨hcarried.invariant.enter h.admissible.later h.admissible.clock, hsec, hcarried, hok⟩

theorem entered_emits (h : Emits (enter m s) t [a]) : Emits s t [a] := ⟨h.sent, h.buyer⟩

theorem buyerStop_recognised (h : Landed E account .buyerStop actor p l s m t) :
    Recognised account code boc boc' .buyerStop p s t ↔ ∀ r ∈ l, r.act.call ≠ .acceptProbe := by
  obtain ⟨hi, -, hcarried, hok⟩ := h.entered
  have hdead : t.destroyed = true := ending_call hok (.inl rfl)
  simp only [call, dispatch, stop, require_bind_ok, pure_ok, Except.ok.injEq] at hok
  obtain ⟨hopen, -, -, rfl⟩ := hok
  have hpopen : p.opened = true := hcarried.opened.symm.trans hopen
  have hbuyer : s.buyer = p.buyer := hcarried.quiet.buyer
  rw [← hcarried.taken]
  rcases stopBody_emits E (enter m s) with ⟨ha, x, y, z, hemit⟩ | ⟨ha, x, y, hemit⟩
  · have hs : s.probeAccepted = false := ha
    rw [recognised_iff hcarried.quiet (entered_emits hemit), accepts_ended hdead (by simp)]
    have hpacc : p.probeAccepted = false := by
      cases hp : p.probeAccepted with
      | false => rfl
      | true =>
        rw [hcarried.accepted hp] at hs
        cases hs
    refine iff_of_true ?_ (hs.trans hpacc.symm)
    simp [SettlementAction.expected, ExpectedSettlementEvent.resolve, onProbe, chainState, hpopen,
      hpacc, expectedBuyer, SettlementAction.namesBuyer, reported, ActionEvent.event,
      preserveBuyer, Except.map, enter, hbuyer]
  · have hs : s.probeAccepted = true := ha
    rw [recognised_iff hcarried.quiet (entered_emits hemit), accepts_ended hdead (by simp), hs]
    cases hp : p.probeAccepted with
    | true =>
      simp [SettlementAction.expected, ExpectedSettlementEvent.resolve, onProbe, chainState,
        hpopen, hp, expectedBuyer, SettlementAction.namesBuyer, reported, ActionEvent.event,
        preserveBuyer, Except.map, enter, hbuyer]
    | false =>
      simp [SettlementAction.expected, ExpectedSettlementEvent.resolve, onProbe, chainState,
        hpopen, hp, reported, ActionEvent.event]

theorem sellerStop_recognised (h : Landed E account .sellerStop actor p l s m t) :
    Recognised account code boc boc' .sellerStop p s t := by
  obtain ⟨hi, -, hcarried, hok⟩ := h.entered
  have hdead : t.destroyed = true := ending_call hok (.inr (.inl rfl))
  simp only [call, dispatch, sellerStop, require_bind_ok, pure_ok, Except.ok.injEq] at hok
  obtain ⟨-, -, -, rfl⟩ := hok
  have hbuyer : (enter m s).buyer = p.buyer := hcarried.quiet.buyer
  obtain ⟨x, y, hemit⟩ := sellerStopBody_emits E (enter m s)
  rw [recognised_iff hcarried.quiet (entered_emits hemit), accepts_ended hdead (by simp), hbuyer]
  exact reported_stopped

theorem disputed_bonds (hi : Invariant s) (hsec : Secured s) (hd : s.disputed = true) :
    0 < s.pricePerTick ∧ (isSubscription s = true → s.pricePerTick ≤ s.buyerBond) ∧
      s.pricePerTick ≤ s.sellerBond := by
  have hstage : s.funded = true ∧ s.opened = true := by
    rcases disputed_stage hi hd with ht | hs
    · exact ⟨ht.funded, ht.opened⟩
    · exact ⟨hs.funded, hs.opened⟩
  obtain ⟨hfunded, hopen⟩ := hstage
  have hheld := hi.base.sellerBond
  rw [opened_bonded hi hopen, if_pos rfl] at hheld
  refine ⟨hi.base.price_pos, fun hsub => ?_, ?_⟩
  · obtain ⟨hbond, -⟩ := hsec hfunded (by simpa [isSubscription] using hsub)
    rw [hbond]
    unfold bondAmount
    omega
  · rw [hheld]
    unfold bondAmount
    omega

theorem releaseDispute_recognised (h : Landed E account .releaseDispute actor p l s m t) :
    Recognised account code boc boc' .releaseDispute p s t ↔ p.subWeeks ≠ 0 := by
  obtain ⟨hi, hsec, hcarried, hok⟩ := h.entered
  have hdead : t.destroyed = true := ending_call hok (.inr (.inr (.inl rfl)))
  simp only [call, dispatch, releaseDispute, require_bind_ok, pure_ok, Except.ok.injEq] at hok
  obtain ⟨-, -, rfl⟩ := hok
  obtain ⟨x, y, hemit⟩ := releaseDisputeBody_emits (s := enter m s) E hi.base.price_pos
  rw [recognised_iff hcarried.quiet (entered_emits hemit), accepts_ended hdead (by simp)]
  have hkind : isSubscription (enter m s) = true ↔ p.subWeeks ≠ 0 := by
    rw [← hcarried.term]
    simp [isSubscription, enter]
  exact reported_resolved.trans hkind

theorem resolveDisputeTimeout_recognised
    (h : Landed E account .resolveDisputeTimeout actor p l s m t) :
    Recognised account code boc boc' .resolveDisputeTimeout p s t := by
  obtain ⟨hi, hsec, hcarried, hok⟩ := h.entered
  have hdead : t.destroyed = true := ending_call hok (.inr (.inr (.inr (.inl rfl))))
  simp only [call, dispatch, resolveDisputeTimeout, require_bind_ok, pure_ok,
    Except.ok.injEq] at hok
  obtain ⟨hd, -, rfl⟩ := hok
  obtain ⟨hpos, hb, hs⟩ := disputed_bonds hi hsec hd
  obtain ⟨x, y, hemit⟩ := resolveDisputeTimeoutBody_checked E
    ((enter m s).disputeTime + disputeWindow < u64) hpos hb hs
  rw [recognised_iff hcarried.quiet (entered_emits hemit), accepts_ended hdead (by simp)]
  exact reported_resolved.mpr rfl

/-! ### The dispute -/

theorem refuseIf_ok {P : Prop} [Decidable P] {e : Contradiction} :
    refuseIf P e = .ok () ↔ ¬ P := by
  by_cases h : P <;> simp [refuseIf, h]

theorem then_ok {α : Type} {c : Except Contradiction Unit} {f : Unit → Except Contradiction α}
    {x : α} : (c >>= f) = .ok x ↔ c = .ok () ∧ f () = .ok x := by
  cases c <;> simp [bind, Except.bind]

/-- The facts of a live deal pass the checks of their own. -/
theorem facts_valid (hi : Invariant s) : validateSettlementFacts (snapshot code boc s) = .ok () := by
  have hseller := hi.base.sellerBond
  have hbuyer := hi.base.buyerBond
  have hpos : bondAmount s.pricePerTick ≠ 0 := by
    have := hi.base.price_pos
    unfold bondAmount
    omega
  have hheld : ¬ s.sellerBond > bondAmount s.pricePerTick := by
    rw [hseller]
    split <;> omega
  have hover : ¬ (TokenContractCalls.isSubscription s = true ∧ s.buyerBond > buyerBondRequired s) := by
    rintro ⟨hk, hlt⟩
    unfold buyerBondRequired at hlt
    rw [if_pos hk] at hlt
    omega
  have hordinary : ¬ (TokenContractCalls.isSubscription s = false ∧ buyerBondRequired s ≠ 0) := by
    rintro ⟨hk, hne⟩
    unfold buyerBondRequired at hne
    rw [if_neg (by simp [hk])] at hne
    exact hne rfl
  have hbonded : ¬ (TokenContractCalls.isSubscription s = true ∧ buyerBondRequired s = 0) := by
    rintro ⟨hk, hz⟩
    unfold buyerBondRequired at hz
    rw [if_pos hk] at hz
    exact hpos hz
  exact refuseIf_bind_ok.mpr ⟨hheld, refuseIf_bind_ok.mpr ⟨hover, refuseIf_bind_ok.mpr
    ⟨hordinary, refuseIf_ok.mpr hbonded⟩⟩⟩

/-- What the account must show after a dispute. -/
theorem settlementActionPostState_disputed {n : Address} {time : ℕ} :
    (∃ st, settlementActionPostState pre facts (.streamDisputed n time) = .ok st) ↔
      validateSettlementFacts facts = .ok () ∧
      ¬ (pre.subscription.isSubscription ≠ facts.subscription.isSubscription ∨
        pre.sellerBond.bondRequired ≠ facts.sellerBond.bondRequired ∨
        pre.buyerBond.bondRequired ≠ facts.buyerBond.bondRequired) ∧
      ¬ (facts.state.opened = false ∨ facts.state.disputed = false) ∧
      checkDisputed pre facts time = .ok () := by
  constructor
  · rintro ⟨st, hst⟩
    obtain ⟨hvalid, hst⟩ := then_ok.mp hst
    obtain ⟨hshape, hst⟩ := refuseIf_bind_ok.mp hst
    obtain ⟨hopen, hst⟩ := refuseIf_bind_ok.mp hst
    exact ⟨hvalid, hshape, hopen, (then_ok.mp hst).1⟩
  · rintro ⟨hvalid, hshape, hopen, hstill⟩
    exact ⟨_, then_ok.mpr ⟨hvalid, refuseIf_bind_ok.mpr ⟨hshape, refuseIf_bind_ok.mpr
      ⟨hopen, then_ok.mpr ⟨hstill, rfl⟩⟩⟩⟩⟩

theorem accepts_live (hrep : reported expected buyer a.event = .ok a) :
    Accepts expected buyer pre (some facts) a ↔
      ∃ st, settlementActionPostState pre facts a.event = .ok st := by
  constructor
  · rintro ⟨-, hatt⟩
    obtain ⟨x, hx⟩ := hatt ⟨.dispute, "", 0, a, settlementBondState pre, none⟩
    cases hs : settlementActionPostState pre facts a.event with
    | error e =>
      simp only [attachSettlementPostSnapshot, hs, bind, Except.bind] at hx
      cases hx
    | ok st => exact ⟨st, rfl⟩
  · rintro ⟨st, hst⟩
    refine ⟨hrep, fun r => ⟨{ r with postState := some st }, ?_⟩⟩
    simp only [attachSettlementPostSnapshot, hst, bind, Except.bind]

def disputedState (c : DealChainState) (time : ℕ) : DealChainState :=
  { c with disputed := true, disputeTime := time }

structure Raised (s t : Deal) (time : ℕ) : Prop where
  state : chainState t = disputedState (chainState s) time
  shape : subscription t = subscription s
  seller : sellerBond t = sellerBond s
  buyer : buyerBond t = buyerBond s

theorem checkDisputed_ok {time : ℕ} :
    checkDisputed (snapshot code boc p) (snapshot code boc' t) time = .ok () ↔ Raised p t time := by
  refine refuseIf_ok.trans ⟨fun h => ?_, fun h => ?_⟩
  · simp only [not_or, not_not] at h
    exact ⟨h.1, h.2.1, h.2.2.1, h.2.2.2⟩
  · simp only [not_or, not_not]
    exact ⟨h.state, h.shape, h.seller, h.buyer⟩

theorem Raised.of_still {time : ℕ} (h : Raised s t time) (hstill : figures s = figures p) :
    Raised p t time := by
  simp only [figures, Prod.mk.injEq] at hstill
  obtain ⟨h1, h2, h3, h4⟩ := hstill
  refine ⟨?_, h.shape.trans h2, h.seller.trans h3, h.buyer.trans h4⟩
  rw [h.state, h1]

theorem Raised.progress_eq {time : ℕ} (h : Raised s t time) (h' : Raised p t time) :
    progress s = progress p := by
  have hstate : disputedState (chainState s) time = disputedState (chainState p) time :=
    h.state.symm.trans h'.state
  have hshape : subscription s = subscription p := h.shape.symm.trans h'.shape
  simp only [disputedState, chainState, DealChainState.mk.injEq] at hstate
  simp only [subscription, DealSubscription.mk.injEq] at hshape
  simp only [progress, hstate, hshape]

theorem dispute_recognised (h : Landed E account .dispute actor p l s m t) :
    Recognised account code boc boc' .dispute p s t ↔ ∀ r ∈ l, Idles r.pre r.act.call := by
  obtain ⟨-, -, hcarried, hok⟩ := h.entered
  obtain ⟨hlive, -, -⟩ := exec_ok h.executed
  simp only [call, dispatch, dispute, require_bind_ok, pure_ok, Except.ok.injEq] at hok
  obtain ⟨hopen, -, -, heq⟩ := hok
  have hmark : Emits (enter m s) { enter m s with
      disputed := true, everDisputed := true, disputeTime := (enter m s).now } [] := .same rfl rfl
  have hemit := hmark.quiet_trans (.send _ (.streamDisputed (enter m s).buyer (enter m s).now))
  rw [heq] at hemit
  have hlivet : t.destroyed = false := by
    rw [← heq]
    exact hlive
  have hinv : Invariant t := exec_invariant hcarried.invariant h.admissible h.executed hlivet
  have hraised : Raised s t m.now := by
    rw [← heq]
    exact ⟨rfl, rfl, rfl, rfl⟩
  have hpost : postSnapshot code boc' t = some (snapshot code boc' t) := by
    unfold postSnapshot
    rw [hlivet]
    rfl
  have hbuyer : (enter m s).buyer = p.buyer := hcarried.quiet.buyer
  have hrep : reported .streamDisputed (some p.buyer)
      (ActionEvent.streamDisputed (enter m s).buyer (enter m s).now).event =
        .ok (.streamDisputed (enter m s).buyer (enter m s).now) := by
    rw [hbuyer]
    simp [reported, ActionEvent.event, preserveBuyer, Except.map]
  have hround : Recognised account code boc boc' .dispute p s t ↔
      Accepts .streamDisputed (some p.buyer) (snapshot code boc p) (postSnapshot code boc' t)
        (.streamDisputed (enter m s).buyer (enter m s).now) :=
    recognised_iff hcarried.quiet (entered_emits hemit)
  rw [hpost] at hround
  refine hround.trans ((accepts_live hrep).trans (settlementActionPostState_disputed.trans ?_))
  constructor
  · rintro ⟨-, -, -, hstill⟩
    have hsame := hraised.progress_eq (checkDisputed_ok.mp hstill)
    rcases hcarried.moved with ⟨hidle, -⟩ | ⟨-, hlt⟩
    · exact hidle
    · rw [hsame] at hlt
      exact absurd hlt (lt_irrefl _)
  · intro hidle
    have hstill : figures s = figures p := by
      rcases hcarried.moved with ⟨-, hsame⟩ | ⟨hbusy, -⟩
      · exact hsame
      · exact absurd hidle hbusy
    have hfrom := hraised.of_still hstill
    refine ⟨facts_valid hinv, ?_, ?_, checkDisputed_ok.mpr hfrom⟩
    · simp only [snapshot, hfrom.shape, hfrom.seller, hfrom.buyer]
      simp
    · have hstate := hraised.state
      simp only [snapshot, hstate, disputedState]
      rintro (hbad | hbad)
      · have hs : s.opened = true := hopen
        change s.opened = false at hbad
        rw [hs] at hbad
        cases hbad
      · cases hbad

/-- Every settlement action that the client let through and the contract executed, on any deal
after any calls in between, is recognised as itself and reported with its figures exactly where
the interval left undisturbed what the client resolved from its read. -/
theorem landed_action_recognised_iff (E : Env) (account : Account) (code boc boc' : String)
    (action : SettlementAction) (actor : Option Address) (p : Deal)
    (l : List (TransactionSystem.Record Deal Tx)) (s : Deal) (m : Msg) (t : Deal)
    (h : Landed E account action actor p l s m t) :
    Recognised account code boc boc' action p s t ↔ Undisturbed action p l := by
  cases action with
  | buyerStop => exact buyerStop_recognised h
  | sellerStop => exact iff_of_true (sellerStop_recognised h) trivial
  | dispute => exact dispute_recognised h
  | releaseDispute => exact releaseDispute_recognised h
  | resolveDisputeTimeout => exact iff_of_true (resolveDisputeTimeout_recognised h) trivial

end Recognition

/-! ## Two landed actions -/

def sampleAccount : Account where
  address := 42
  messageId := fun i => String.ofList (List.replicate i 'm')
  distinct := by
    intro i j h
    have hlen := congrArg List.length (String.ofList_inj.mp h)
    simpa using hlen

theorem isOk_iff {ε α : Type} {x : Except ε α} : x.isOk = true ↔ ∃ a, x = .ok a := by
  cases x <;> simp [Except.isOk, Except.toBool]

/-- The seller claims a second tick while the buyer prepares his stop. -/
theorem claimed_stop_recognised : ∃ p l s t,
    Landed sampleEnv sampleAccount .buyerStop (some 8) p l s (buyerTx 500 .stop).msg t ∧
    l ≠ [] ∧ Recognised sampleAccount "code" "before" "after" .buyerStop p s t := by
  have hplay : (played AnyTx openedSchedule).any (fun p =>
      (rejectPriorSettlementAction .buyerStop (some 8) (sampleAccount.receipts p)).isOk &&
        (TransactionSystem.play (exec sampleEnv) Interposed
          [sellerTx 400 (.claimTokens 2000000)] p).any (fun s =>
          decide (Admissible s (buyerTx 500 .stop)) &&
            (exec sampleEnv (buyerTx 500 .stop) s).isOk)) = true := by
    decide
  obtain ⟨p, hp, hrest⟩ := played_reachable hplay
  rw [Bool.and_eq_true] at hrest
  obtain ⟨s, hs, hend⟩ := (Option.any_eq_true _ _).mp hrest.2
  obtain ⟨l, hl, hacts⟩ := TransactionSystem.Run.play .nil hs
  rw [Bool.and_eq_true, decide_eq_true_eq] at hend
  obtain ⟨t, ht⟩ := isOk_iff.mp hend.2
  obtain ⟨_, hprior⟩ := isOk_iff.mp hrest.1
  have hlanded : Landed sampleEnv sampleAccount .buyerStop (some 8) p l s
      (buyerTx 500 .stop).msg t := ⟨hp, hprior, hl, hend.1, ht⟩
  refine ⟨p, l, s, t, hlanded, ?_, ?_⟩
  · rintro rfl
    cases hacts
  · refine (landed_action_recognised_iff sampleEnv sampleAccount "code" "before" "after" .buyerStop
      (some 8) p l s (buyerTx 500 .stop).msg t hlanded).mpr ?_
    intro r hr hcall
    have hmem := List.mem_map_of_mem (f := fun r => r.act.call) hr
    rw [hcall] at hmem
    have hcalls : l.map (fun r => r.act.call) = [.claimTokens 2000000] := by
      have := congrArg (List.map Tx.call) hacts
      simpa [Function.comp_def, sellerTx] using this
    rw [hcalls] at hmem
    simp at hmem

/-- The seller of an ordinary deal concedes its dispute. His stake burns with the buyer's, the
contract announces the resolution as no release, and the client takes its own landed action for
another one. -/
theorem ordinary_release_not_recognised : ∃ p t,
    Landed sampleEnv sampleAccount .releaseDispute none p [] p (sellerTx 600 .releaseDispute).msg t ∧
    p.subWeeks = 0 ∧
    ¬ Recognised sampleAccount "code" "before" "after" .releaseDispute p p t := by
  have hplay : (played AnyTx (openedSchedule ++ [buyerTx 500 .dispute])).any (fun p =>
      (rejectPriorSettlementAction .releaseDispute none (sampleAccount.receipts p)).isOk &&
        decide (Admissible p (sellerTx 600 .releaseDispute)) && decide (p.subWeeks = 0) &&
        (exec sampleEnv (sellerTx 600 .releaseDispute) p).isOk) = true := by
    decide
  obtain ⟨p, hp, hrest⟩ := played_reachable hplay
  simp only [Bool.and_eq_true, decide_eq_true_eq] at hrest
  obtain ⟨⟨⟨hallowed, hadm⟩, hsub⟩, hok⟩ := hrest
  obtain ⟨_, hprior⟩ := isOk_iff.mp hallowed
  obtain ⟨t, ht⟩ := isOk_iff.mp hok
  have hlanded : Landed sampleEnv sampleAccount .releaseDispute none p [] p
      (sellerTx 600 .releaseDispute).msg t := ⟨hp, hprior, .nil, hadm, ht⟩
  refine ⟨p, t, hlanded, hsub, fun h => ?_⟩
  exact (releaseDispute_recognised hlanded).mp h hsub

end SettlementRecognition
