import Dexdo.SettlementReaders
import Dexdo.SettlementRecognition
import Dexdo.TokenContractStreaming
import Dexdo.TransactionSystem

/-! # How a deal ends, and how the client reads it

Over whole runs of a deal, through any number of funding cycles: a stream that was opened ends by
the burn of its trial tick, by a stop or by the resolution of its one dispute, and its traffic
holds that story and no other action. -/
namespace DealEnds

open TokenContractState TokenContractCalls TokenContractSteps TokenContractInvariant
open TokenContractStreaming TokenContractEvents SettlementReceipts SettlementReaders
open SettlementRecognition (sampleAccount)

/-! ## What a call sends -/

section Calls

variable {E : Env} {m : Msg} {s t u : Deal} {c : Call} {a b : List ActionEvent}

def Sends (s t : Deal) (a : List ActionEvent) : Prop :=
  ∃ l, t.out = s.out ++ l ∧ actionEvents l = a

theorem Sends.same (h : t.out = s.out) : Sends s t [] := ⟨[], by rw [h, List.append_nil], rfl⟩

theorem Sends.trans (h : Sends s t a) (h' : Sends t u b) : Sends s u (a ++ b) := by
  obtain ⟨l, hl, ha⟩ := h
  obtain ⟨l', hl', hb⟩ := h'
  refine ⟨l ++ l', by rw [hl', hl, List.append_assoc], ?_⟩
  rw [← ha, ← hb]
  exact List.filterMap_append ..

theorem Sends.quiet_trans (h : Sends s t []) (h' : Sends t u a) : Sends s u a := h.trans h'

theorem Sends.actions (h : Sends s t a) : actionEvents t.out = actionEvents s.out ++ a := by
  obtain ⟨l, hl, ha⟩ := h
  rw [hl, ← ha]
  exact List.filterMap_append ..

theorem fundFromOrderBook_sends {p b k f : ℕ} (h : fundFromOrderBook E p b k f m s = .ok t) :
    Sends s t [] := by
  have hhandover : Sends s (acceptHandover p f m s) [] :=
    (Sends.same rfl).quiet_trans (Emits.send _ (.onHandoverAccepted m.sender)).sent
  unfold fundFromOrderBook at h
  split at h
  · simp only [pure_ok, Except.ok.injEq] at h
    subst h
    exact .same rfl
  simp only [require_bind_ok] at h
  obtain ⟨-, h⟩ := h
  split at h
  · simp only [pure_ok, Except.ok.injEq] at h
    subst h
    exact .same rfl
  split at h
  · simp only [pure_ok, Except.ok.injEq] at h
    subst h
    exact hhandover.quiet_trans (payShell_emits _ _ _ _).sent
  · simp only [require_bind_ok, pure_ok, Except.ok.injEq] at h
    obtain ⟨-, -, rfl⟩ := h
    generalize acceptHandover p f m s = v at hhandover
    refine hhandover.quiet_trans
      ⟨[⟨v.now, .streamFunded b (p - fillBond f v.pricePerTick)⟩], rfl, rfl⟩

theorem postFromNote_sends {i d k f n : ℕ} (h : postFromNote E i d k f n m s = .ok t) :
    Sends s t [] := by
  simp only [postFromNote, require_bind_ok] at h
  obtain ⟨-, -, h⟩ := h
  split at h
  · simp only [pure_ok, Except.ok.injEq] at h
    subst h
    exact .same rfl
  · simp only [pure_ok, Except.ok.injEq] at h
    subst h
    exact ⟨[_], rfl, rfl⟩

theorem fundDeal_sends {n : ℕ} {x : Option Bytes} (h : fundDeal n x m s = .ok t) :
    Sends s t [] := by
  simp only [fundDeal, require_bind_ok] at h
  obtain ⟨-, -, -, -, -, h⟩ := h
  have htake : Sends s (takeSellerBond n m s) [] :=
    ((Sends.same rfl).quiet_trans (payShell_emits .caller m.sender _ _).sent).quiet_trans
      (Emits.send _ (.sellerBondFunded (bondAmount s.pricePerTick))).sent
  cases x with
  | none =>
    simp only [pure_ok, Except.ok.injEq] at h
    subst h
    exact htake
  | some x =>
    simp only [pure_ok, Except.ok.injEq] at h
    subst h
    exact htake.quiet_trans ⟨[_], rfl, rfl⟩

theorem fundBuyerBond_sends {n : ℕ} (h : fundBuyerBond n m s = .ok t) : Sends s t [] := by
  simp only [fundBuyerBond, require_bind_ok, pure_ok, Except.ok.injEq] at h
  obtain ⟨-, -, -, -, -, rfl⟩ := h
  exact ((Sends.same rfl).quiet_trans (payShell_emits .caller m.sender _ _).sent).quiet_trans
    (Emits.send _ (.buyerBondFunded (bondAmount s.pricePerTick))).sent

theorem openDeal_sends {x : Bytes} (h : openDeal x m s = .ok t) : Sends s t [] := by
  simp only [openDeal, require_bind_ok, pure_ok, Except.ok.injEq] at h
  obtain ⟨-, -, -, -, -, -, rfl⟩ := h
  refine ⟨[⟨s.now, .endpointSet (if x.isEmpty then s.endpointCipher else x)⟩,
    ⟨s.now, .streamOpened s.buyer s.pricePerTick⟩], ?_, rfl⟩
  simp [freezeProbe, Deal.send]

theorem cleanupUnopened_sends (h : cleanupUnopened m s = .ok t) : Sends s t [] := by
  obtain ⟨-, -, -, -, rfl⟩ := cleanupUnopened_ok h
  unfold cleanupUnopenedBody
  dsimp only
  -- from the last message back to the record the payments start from
  refine Sends.quiet_trans ?_ (announceClosed_emits _ _).sent
  refine Sends.quiet_trans ?_ (announceClosed_emits _ _).sent
  refine Sends.quiet_trans ?_ (burnShell_emits _ _).sent
  refine Sends.quiet_trans ?_ (payShell_emits _ _ _ _).sent
  exact Sends.quiet_trans (.same rfl) (payShell_emits _ _ _ _).sent

theorem returnBond_sends (s : Deal) : Sends s (returnBond s) [] := by
  unfold returnBond
  split
  · exact .same rfl
  · exact (Sends.same rfl).quiet_trans (payShell_emits .seller s.sellerNote s.sellerBond _).sent

theorem refundUnopened_sends (s : Deal) : Sends s (refundUnopened s) [] := by
  have hprobe : Sends s (releaseProbe s) [] := (releaseProbe_emits s).sent
  unfold refundUnopened
  generalize releaseProbe s = u at hprobe
  exact (hprobe.quiet_trans (.same rfl)).quiet_trans (payShell_emits .buyer _ _ _).sent

theorem sweepAndDie_sends (h : Sends s t a) : Sends s (sweepAndDie t) a := by
  have hend := h.trans (sweepAndDie_emits t).sent
  rwa [List.append_nil] at hend

theorem destroy_sends (h : destroy m s = .ok t) :
    Sends s t [] ∧ s.opened = false ∧ t.destroyed = true := by
  simp only [destroy, require_bind_ok, pure_ok, Except.ok.injEq] at h
  obtain ⟨-, ho, -, -, rfl⟩ := h
  refine ⟨sweepAndDie_sends (Sends.quiet_trans ?_ (returnBond_sends _)), ho, rfl⟩
  split
  · exact refundUnopened_sends s
  · exact .same rfl

theorem close_sends (h : close m s = .ok t) :
    Sends s t [] ∧ s.funded = false ∧ t.destroyed = true := by
  simp only [close, require_bind_ok, pure_ok, Except.ok.injEq] at h
  obtain ⟨-, hf, -, rfl⟩ := h
  exact ⟨sweepAndDie_sends (returnBond_sends s), hf, rfl⟩

/-- A timeout resolves the dispute, whatever it announces of the stakes. -/
theorem timeout_sends (P : Prop) [Decidable P] :
    ∃ toSeller refund released, Sends s (resolveDisputeTimeoutBody E (s.check P))
      [.disputeResolved toSeller refund released] := by
  have hbooks : Sends s (chargeWeeksThrough (weeksElapsedAt (s.check P).disputeTime (s.check P))
      ((s.check P).check ((s.check P).periodStart ≤ (s.check P).disputeTime))) [] :=
    (Sends.same rfl).quiet_trans (chargeWeeksThrough_emits _ _).sent
  rw [resolveDisputeTimeoutBody_branches]
  generalize chargeWeeksThrough _ _ = v at hbooks ⊢
  split
  · have hlifted : Sends v (liftDispute (checkStake v)) [] := .same rfl
    obtain ⟨x, y, hend⟩ := settleTrustedAndClose_emits E (disputeStake v) (disputeStake v)
      (liftDispute (checkStake v))
    exact ⟨x, y, _, (hbooks.quiet_trans hlifted).quiet_trans hend.sent⟩
  · unfold timeoutOrdinary
    dsimp only
    generalize hw : liftDispute (v.check (pendingCharge v < u128)) = w
    have hlifted : Sends v w [] := by
      subst hw
      exact .same rfl
    generalize (if pendingCharge v > w.deposit then w.deposit else pendingCharge v) = n
    have hcut : Sends w (burnShell n { w with deposit := w.deposit - n }) [] :=
      (Sends.same rfl).quiet_trans (burnShell_emits n _).sent
    generalize burnShell n { w with deposit := w.deposit - n } = z at hcut ⊢
    have hchecked : Sends z (z.check (2 * z.pricePerTick < u128)) [] := .same rfl
    obtain ⟨x, y, hend⟩ := settleTrustedAndClose_emits E (2 * z.pricePerTick)
      (2 * z.pricePerTick) (z.check (2 * z.pricePerTick < u128))
    exact ⟨x, y, _, (((hbooks.quiet_trans hlifted).quiet_trans hcut).quiet_trans
      hchecked).quiet_trans hend.sent⟩

end Calls

/-! ## How a deal ends -/

inductive Ending where
  | probeBurned
  | streamStopped
  | resolved
  | unopened
  deriving DecidableEq

def endingOf (s : Deal) : Call → Ending
  | .stop => if s.probeAccepted then .streamStopped else .probeBurned
  | .sellerStop | .finalize | .settleWeek => .streamStopped
  | .releaseDispute | .resolveDisputeTimeout => .resolved
  | _ => .unopened

def ending (l : List (TransactionSystem.Record Deal Tx)) : Option Ending :=
  match l.getLast? with
  | some r => if r.post.destroyed then some (endingOf r.pre r.act.call) else none
  | none => none

def opens : Call → Bool
  | .openDeal _ => true
  | _ => false

def everOpenedIn (l : List (TransactionSystem.Record Deal Tx)) : Bool :=
  l.any fun r => opens r.act.call

section Histories

variable {l : List (TransactionSystem.Record Deal Tx)} {r : TransactionSystem.Record Deal Tx}

theorem ending_snoc : ending (l ++ [r]) =
    if r.post.destroyed then some (endingOf r.pre r.act.call) else none := by
  rw [ending, List.getLast?_concat]

theorem everOpenedIn_snoc : everOpenedIn (l ++ [r]) = (everOpenedIn l || opens r.act.call) := by
  rw [everOpenedIn, List.any_append, List.any_cons, List.any_nil, Bool.or_false]
  rfl

end Histories

/-! ## One call -/

section Step

variable {E : Env} {m : Msg} {s t : Deal} {c : Call}

/-- What one accepted call adds to the story of a deal. -/
inductive Told (s : Deal) (c : Call) (t : Deal) : Prop where
  | quiet : t.destroyed = false → opens c = false → t.opened = s.opened →
      t.disputed = s.disputed → Sends s t [] → Told s c t
  | opened : t.destroyed = false → opens c = true → s.opened = false → t.opened = true →
      t.disputed = s.disputed → Sends s t [] → Told s c t
  | disputed (time : ℕ) : t.destroyed = false → opens c = false → s.opened = true →
      s.disputed = false → t.opened = true → t.disputed = true →
      Sends s t [.streamDisputed s.buyer time] → Told s c t
  | burned (x y z : ℕ) : t.destroyed = true → s.opened = true → s.disputed = false →
      endingOf s c = .probeBurned → Sends s t [.probeBurned t.buyer x y z] → Told s c t
  | stopped (x y : ℕ) : t.destroyed = true → s.opened = true → s.disputed = false →
      endingOf s c = .streamStopped → Sends s t [.streamStopped t.buyer x y] → Told s c t
  | resolved (x y : ℕ) (released : Bool) : t.destroyed = true → s.disputed = true →
      endingOf s c = .resolved → Sends s t [.disputeResolved x y released] → Told s c t
  | unopened : t.destroyed = true → opens c = false → s.opened = false →
      endingOf s c = .unopened → Sends s t [] → Told s c t

theorem Told.sent (h : Told s c t) : ∃ a, Sends s t a := by
  cases h <;> exact ⟨_, ‹Sends s t _›⟩

/-- A live deal opens at `open` and is disputed at `dispute`. -/
theorem flags_kept (hi : Invariant s) (hok : dispatch E m s c = .ok t) (hf : t.fault = false)
    (hlive : t.destroyed = false) (ho : opens c = false) (hd : c ≠ .dispute) :
    t.opened = s.opened ∧ t.disputed = s.disputed := by
  cases ha : s.probeAccepted with
  | true =>
    have hs := hi.streaming ha
    cases stream_step hi hs hok hf hlive with
    | relisted _ _ _ hr =>
      rw [hr.eq]
      exact ⟨rfl, rfl⟩
    | unchanged n hn => exact ⟨rfl, rfl⟩
    | claimed n u _ hn hbu hsu hclaim =>
      obtain ⟨_, _, _, _, _, _, heq, -⟩ := booked_fields hi.base hs hclaim.booked
      rw [hclaim.eq, heq]
      exact ⟨rfl, rfl⟩
    | promoted => exact ⟨rfl, rfl⟩
    | settled _ hsub hb hnot =>
      obtain ⟨_, _, _, _, _, _, heq, -⟩ := booked_fields hi.base hs hb
      rw [heq]
      exact ⟨rfl, rfl⟩
    | disputed => exact absurd rfl hd
    | drew a howed hbal => exact ⟨rfl, rfl⟩
  | false =>
    cases fresh_step hi ha hok hf hlive with
    | relisted _ _ _ hr =>
      rw [hr.eq]
      exact ⟨rfl, rfl⟩
    | filled p b k f hm hfill =>
      rw [hfill.eq]
      exact ⟨rfl, rfl⟩
    | sellerBonded a x _ hb hq heq =>
      rw [heq]
      exact ⟨rfl, rfl⟩
    | buyerBonded a _ hb hq heq =>
      rw [heq]
      exact ⟨rfl, rfl⟩
    | opened x => cases ho
    | accepted hopen _ hq heq =>
      rw [heq]
      exact ⟨rfl, rfl⟩
    | disputed => exact absurd rfl hd
    | cleaned _ heq =>
      rw [heq]
      exact ⟨rfl, rfl⟩

/-- A call that leaves the deal alive announces no action but a dispute. -/
theorem live_quiet (hok : dispatch E m s c = .ok t) (hlive : t.destroyed = false)
    (hd : c ≠ .dispute) : Sends s t [] := by
  have hend := ending_call hok
  rw [hlive] at hend
  have hbetween (hc : Between c) : Sends s t [] := (hc.emits hok hlive).sent
  cases c with
  | fundFromOrderBook p b k f => exact fundFromOrderBook_sends hok
  | postFromNote i d k f n => exact postFromNote_sends hok
  | onSellClosed =>
    simp only [dispatch, onSellClosed] at hok
    split at hok
    · simp only [pure_ok, Except.ok.injEq] at hok
      exact .same (by rw [hok])
    split at hok
    · simp only [pure_ok, Except.ok.injEq] at hok
      exact .same (by rw [hok])
    · simp only [pure_ok, Except.ok.injEq] at hok
      exact .same (by rw [← hok])
  | close => simp at hend
  | fundDeal a x => exact fundDeal_sends hok
  | fundBuyerBond a => exact fundBuyerBond_sends hok
  | openDeal x => exact openDeal_sends hok
  | acceptProbe => exact hbetween .acceptProbe
  | claimTokens n => exact hbetween (.claimTokens n)
  | finalize => exact hbetween .finalize
  | settleWeek => exact hbetween .settleWeek
  | stop => simp at hend
  | sellerStop => simp at hend
  | dispute => exact absurd rfl hd
  | releaseDispute => simp at hend
  | resolveDisputeTimeout => simp at hend
  | cleanupUnopened => exact cleanupUnopened_sends hok
  | withdrawShell a => exact hbetween (.withdrawShell a)
  | destroy => simp at hend
  | touchDeal =>
    simp only [dispatch, touchDeal, require_bind_ok, pure_ok, Except.ok.injEq] at hok
    obtain ⟨-, rfl⟩ := hok
    exact .same rfl

/-- What a call that ends the deal announces. -/
theorem ended_told (hi : Invariant s) (hlive : s.destroyed = false)
    (hok : dispatch E m s c = .ok t) (hf : t.fault = false) (hdead : t.destroyed = true) :
    Told s c t := by
  have hkept (h : t.destroyed = s.destroyed) : Told s c t := by
    rw [hdead, hlive] at h
    cases h
  cases c with
  | fundFromOrderBook p b k f =>
    rcases fundFromOrderBook_ok hok hf with hr | ⟨-, hfill⟩
    · exact hkept (by rw [hr.eq])
    · exact hkept (by rw [hfill.eq])
  | postFromNote i d k f n => exact hkept (by rw [(postFromNote_ok hok).eq])
  | onSellClosed => exact hkept (by rw [(onSellClosed_ok hok).eq])
  | close =>
    obtain ⟨hsent, hfunded, -⟩ := close_sends hok
    exact .unopened hdead rfl (hi.closed_of_unfunded hfunded) rfl hsent
  | fundDeal a x => exact hkept (by rw [(fundDeal_ok hok hf).2.2.2.2.2])
  | fundBuyerBond a => exact hkept (by rw [(fundBuyerBond_ok hok hf).2.2.2.2.2.2])
  | openDeal x => exact hkept (by rw [(openDeal_ok hok).2.2.2.2.2.2])
  | acceptProbe =>
    obtain ⟨-, -, -, -, -, heq⟩ := acceptProbe_ok hok hf
    exact hkept (by rw [heq])
  | claimTokens n =>
    obtain ⟨-, -, -, ha, ⟨-, rfl⟩ | ⟨-, u, hclaim⟩⟩ := claimTokens_ok hok hf hi.base.start_le_now
    · exact hkept rfl
    · obtain ⟨_, _, _, _, _, _, hu, -⟩ := booked_fields hi.base (hi.streaming ha) hclaim.booked
      exact hkept (by rw [hclaim.eq, hu])
  | finalize =>
    obtain ⟨ho, hd, -, -, rfl | ⟨-, -, rfl⟩⟩ := finalize_ok hok hi.base.promote_lt
    · exact hkept rfl
    · obtain ⟨x, y, hend⟩ := payFinalAndClose_after E (s := s)
        (t := { s with tokensFinal := s.tokensPend }) (.same rfl rfl)
      rw [← hend.buyer] at hend
      exact .stopped x y hdead ho hd rfl hend.sent
  | settleWeek =>
    simp only [dispatch, settleWeek, require_bind_ok] at hok
    obtain ⟨-, ⟨ho, hd⟩, ha, -, hok⟩ := hok
    have hbooks := settleWeekBooks_emits E s
    split at hok
    · simp only [pure_ok, Except.ok.injEq] at hok
      obtain ⟨x, y, hend⟩ := payFinalAndClose_after E (hbooks.quiet_trans (promoteDue_emits _))
      rw [hok, ← hend.buyer] at hend
      exact .stopped x y hdead ho hd rfl hend.sent
    · simp only [pure_ok, Except.ok.injEq] at hok
      have hbooked := settleBoundaries_booked (E := E) ha
      obtain ⟨_, _, _, _, _, _, hu, -⟩ := booked_fields hi.base (hi.streaming ha) hbooked
      have hsame : (settleBoundaries E (weeksElapsed s) s).destroyed = s.destroyed := by rw [hu]
      apply hkept
      rw [← hok, settleWeekBooks, Deal.check_pass hi.base.start_le_now]
      exact hsame
  | stop =>
    simp only [dispatch, stop, require_bind_ok, pure_ok, Except.ok.injEq] at hok
    obtain ⟨ho, -, hd, rfl⟩ := hok
    rcases stopBody_emits E s with ⟨ha, x, y, z, hend⟩ | ⟨ha, x, y, hend⟩
    · rw [← hend.buyer] at hend
      exact .burned x y z hdead ho hd (by rw [endingOf, ha]; rfl) hend.sent
    · rw [← hend.buyer] at hend
      exact .stopped x y hdead ho hd (by rw [endingOf, ha]; rfl) hend.sent
  | sellerStop =>
    simp only [dispatch, sellerStop, require_bind_ok, pure_ok, Except.ok.injEq] at hok
    obtain ⟨-, ho, hd, rfl⟩ := hok
    obtain ⟨x, y, hend⟩ := sellerStopBody_emits E s
    rw [← hend.buyer] at hend
    exact .stopped x y hdead ho hd rfl hend.sent
  | dispute => exact hkept (by rw [(dispute_ok hok).2.2.2.2])
  | releaseDispute =>
    simp only [dispatch, releaseDispute, require_bind_ok, pure_ok, Except.ok.injEq] at hok
    obtain ⟨-, hd, rfl⟩ := hok
    obtain ⟨x, y, hend⟩ := releaseDisputeBody_emits (s := s) E hi.base.price_pos
    exact .resolved x y _ hdead hd rfl hend.sent
  | resolveDisputeTimeout =>
    simp only [dispatch, resolveDisputeTimeout, require_bind_ok, pure_ok, Except.ok.injEq] at hok
    obtain ⟨hd, -, rfl⟩ := hok
    obtain ⟨x, y, released, hend⟩ := timeout_sends (E := E) (s := s)
      (s.disputeTime + disputeWindow < u64)
    exact .resolved x y released hdead hd rfl hend
  | cleanupUnopened =>
    obtain ⟨-, -, -, -, rfl⟩ := cleanupUnopened_ok hok
    exact hkept (by rw [cleanupUnopenedBody_eq hi.base.toBacked])
  | withdrawShell a =>
    obtain ⟨-, -, -, rfl | ⟨-, ho, rfl⟩⟩ := withdrawShell_ok hok
    · exact hkept rfl
    · exact .unopened hdead rfl ho rfl (sweepAndDie_sends (drawn_emits a s).sent)
  | destroy =>
    obtain ⟨hsent, ho, -⟩ := destroy_sends hok
    exact .unopened hdead rfl ho rfl hsent
  | touchDeal => exact hkept (by rw [(touchDeal_ok hok).eq])

theorem dispatch_told (hi : Invariant s) (hlive : s.destroyed = false)
    (hok : dispatch E m s c = .ok t) (hf : t.fault = false) : Told s c t := by
  cases hdead : t.destroyed with
  | true => exact ended_told hi hlive hok hf hdead
  | false =>
    by_cases hd : c = .dispute
    · subst hd
      have hsent : Sends s t [.streamDisputed s.buyer s.now] := by
        simp only [dispatch, dispute, require_bind_ok, pure_ok, Except.ok.injEq] at hok
        obtain ⟨-, -, -, rfl⟩ := hok
        exact ⟨[_], rfl, rfl⟩
      obtain ⟨-, ho, hnone, -, heq⟩ := dispute_ok hok
      exact .disputed s.now hdead rfl ho hnone (by rw [heq]; exact ho) (by rw [heq]) hsent
    have hquiet := live_quiet hok hdead hd
    cases hc : opens c with
    | false =>
      obtain ⟨ho, hdisputed⟩ := flags_kept hi hok hf hdead hc hd
      exact .quiet hdead hc ho hdisputed hquiet
    | true =>
      cases c with
      | openDeal x =>
        obtain ⟨-, ho, -, -, -, -, heq⟩ := openDeal_ok hok
        exact .opened hdead hc ho (by rw [heq]) (by rw [heq]) hquiet
      | _ => cases hc

theorem exec_told {tx : Tx} (hi : Invariant s) (ha : Admissible s tx)
    (hok : exec E tx s = .ok t) : Told s tx.call t := by
  obtain ⟨hlive, hd, hf⟩ := exec_ok hok
  cases dispatch_told (hi.enter ha.later ha.clock) hlive hd hf with
  | quiet hlive hc ho hdisputed hsent => exact .quiet hlive hc ho hdisputed hsent
  | opened hlive hc ho ho' hdisputed hsent => exact .opened hlive hc ho ho' hdisputed hsent
  | disputed time hlive hc ho hd ho' hd' hsent =>
    exact .disputed time hlive hc ho hd ho' hd' hsent
  | burned x y z hdead ho hd hend hsent => exact .burned x y z hdead ho hd hend hsent
  | stopped x y hdead ho hd hend hsent => exact .stopped x y hdead ho hd hend hsent
  | resolved x y released hdead hd hend hsent => exact .resolved x y released hdead hd hend hsent
  | unopened hdead hc ho hend hsent => exact .unopened hdead hc ho hend hsent

end Step

/-! ## A whole run -/

section Runs

variable {E : Env} {s₀ s t : Deal} {l : List (TransactionSystem.Record Deal Tx)} {tx : Tx}

/-- Where a deal stands after a history, with all the actions its traffic holds. -/
inductive Story (l : List (TransactionSystem.Record Deal Tx)) (s : Deal) : Prop where
  | waiting : s.destroyed = false → s.opened = false → s.disputed = false →
      everOpenedIn l = false → ending l = none → actionEvents s.out = [] → Story l s
  | streaming : s.destroyed = false → s.opened = true → s.disputed = false →
      everOpenedIn l = true → ending l = none → actionEvents s.out = [] → Story l s
  | disputed (other : Address) (time : ℕ) : s.destroyed = false → s.opened = true →
      s.disputed = true → everOpenedIn l = true → ending l = none →
      actionEvents s.out = [.streamDisputed other time] → Story l s
  | burned (x y z : ℕ) : s.destroyed = true → everOpenedIn l = true →
      ending l = some .probeBurned → actionEvents s.out = [.probeBurned s.buyer x y z] → Story l s
  | stopped (x y : ℕ) : s.destroyed = true → everOpenedIn l = true →
      ending l = some .streamStopped → actionEvents s.out = [.streamStopped s.buyer x y] →
      Story l s
  | resolved (other : Address) (time x y : ℕ) (released : Bool) : s.destroyed = true →
      everOpenedIn l = true → ending l = some .resolved →
      actionEvents s.out = [.streamDisputed other time, .disputeResolved x y released] → Story l s
  | unopened : s.destroyed = true → everOpenedIn l = false → ending l = some .unopened →
      actionEvents s.out = [] → Story l s

theorem Story.step (h : Story l s) (hlive : s.destroyed = false) (ht : Told s tx.call t) :
    Story (l ++ [⟨s, tx, t⟩]) t := by
  have hopen : everOpenedIn (l ++ [⟨s, tx, t⟩]) = (everOpenedIn l || opens tx.call) :=
    everOpenedIn_snoc
  have hend : ending (l ++ [⟨s, tx, t⟩]) =
      if t.destroyed then some (endingOf s tx.call) else none := ending_snoc
  have hdead (hd : s.destroyed = true) : Story (l ++ [⟨s, tx, t⟩]) t := by
    rw [hlive] at hd
    cases hd
  cases h with
  | waiting _ ho hd hnever _ ha =>
    rw [hnever, Bool.false_or] at hopen
    cases ht with
    | quiet hl hc ho' hd' hsent =>
      rw [hl] at hend
      exact .waiting hl (ho'.trans ho) (hd'.trans hd) (hopen.trans hc) hend
        (by rw [hsent.actions, ha]; rfl)
    | opened hl hc _ ho' hd' hsent =>
      rw [hl] at hend
      exact .streaming hl ho' (hd'.trans hd) (hopen.trans hc) hend (by rw [hsent.actions, ha]; rfl)
    | disputed time _ _ hopened =>
      rw [ho] at hopened
      cases hopened
    | burned x y z _ hopened =>
      rw [ho] at hopened
      cases hopened
    | stopped x y _ hopened =>
      rw [ho] at hopened
      cases hopened
    | resolved x y released _ hdisputed =>
      rw [hd] at hdisputed
      cases hdisputed
    | unopened hl hc _ hway hsent =>
      rw [hl, hway] at hend
      exact .unopened hl (hopen.trans hc) hend (by rw [hsent.actions, ha]; rfl)
  | streaming _ ho hd hever _ ha =>
    rw [hever, Bool.true_or] at hopen
    cases ht with
    | quiet hl hc ho' hd' hsent =>
      rw [hl] at hend
      exact .streaming hl (ho'.trans ho) (hd'.trans hd) hopen hend
        (by rw [hsent.actions, ha]; rfl)
    | opened _ _ hclosed =>
      rw [ho] at hclosed
      cases hclosed
    | disputed time hl _ _ _ ho' hd' hsent =>
      rw [hl] at hend
      exact .disputed s.buyer time hl ho' hd' hopen hend (by rw [hsent.actions, ha]; rfl)
    | burned x y z hl _ _ hway hsent =>
      rw [hl, hway] at hend
      exact .burned x y z hl hopen hend (by rw [hsent.actions, ha]; rfl)
    | stopped x y hl _ _ hway hsent =>
      rw [hl, hway] at hend
      exact .stopped x y hl hopen hend (by rw [hsent.actions, ha]; rfl)
    | resolved x y released _ hdisputed =>
      rw [hd] at hdisputed
      cases hdisputed
    | unopened _ _ hclosed =>
      rw [ho] at hclosed
      cases hclosed
  | disputed other time _ ho hd hever _ ha =>
    rw [hever, Bool.true_or] at hopen
    cases ht with
    | quiet hl hc ho' hd' hsent =>
      rw [hl] at hend
      exact .disputed other time hl (ho'.trans ho) (hd'.trans hd) hopen hend
        (by rw [hsent.actions, ha]; rfl)
    | opened _ _ hclosed =>
      rw [ho] at hclosed
      cases hclosed
    | disputed _ _ _ _ hnone =>
      rw [hd] at hnone
      cases hnone
    | burned _ _ _ _ _ hnone =>
      rw [hd] at hnone
      cases hnone
    | stopped _ _ _ _ hnone =>
      rw [hd] at hnone
      cases hnone
    | resolved x y released hl _ hway hsent =>
      rw [hl, hway] at hend
      exact .resolved other time x y released hl hopen hend (by rw [hsent.actions, ha]; rfl)
    | unopened _ _ hclosed =>
      rw [ho] at hclosed
      cases hclosed
  | burned _ _ _ hd => exact hdead hd
  | stopped _ _ hd => exact hdead hd
  | resolved _ _ _ _ _ hd => exact hdead hd
  | unopened hd => exact hdead hd

def Deployed (s : Deal) : Prop := ∃ time rest, s.out = ⟨time, .contractDeployed⟩ :: rest

theorem Deployed.grows (h : Deployed s) {a : List ActionEvent} (hs : Sends s t a) : Deployed t := by
  obtain ⟨time, rest, hout⟩ := h
  obtain ⟨l, hl, -⟩ := hs
  exact ⟨time, rest ++ l, by rw [hl, hout]; rfl⟩

theorem constructed_story (h : Constructed E s) : Story [] s ∧ Deployed s := by
  obtain ⟨m, a, -, h⟩ := h
  simp only [construct, require_bind_ok, pure_ok, Except.ok.injEq] at h
  obtain ⟨-, -, -, -, -, -, -, -, rfl⟩ := h
  exact ⟨.waiting rfl rfl rfl rfl rfl rfl, m.now, _, rfl⟩

theorem run_story (h0 : Constructed E s₀)
    (hrun : TransactionSystem.Run (exec E) Admissible s₀ l s) : Story l s ∧ Deployed s := by
  have hall : (s.destroyed = false → Invariant s) ∧ Story l s ∧ Deployed s := by
    refine TransactionSystem.Run.invariant
      (I := fun l s => (s.destroyed = false → Invariant s) ∧ Story l s ∧ Deployed s)
      ⟨fun _ => constructed_invariant h0, constructed_story h0⟩ ?_ hrun
    intro l s tx t ⟨hi, hstory, hout⟩ ha hok
    have hlive := (exec_ok hok).1
    have ht := exec_told (hi hlive) ha hok
    obtain ⟨_, hsent⟩ := ht.sent
    exact ⟨exec_invariant (hi hlive) ha hok, hstory.step hlive ht, hout.grows hsent⟩
  exact hall.2

end Runs

/-! ## The readers -/

section Readers

variable {account : Account} {s : Deal} {l : List (TransactionSystem.Record Deal Tx)}
  {a : List ActionEvent} {action : SettlementAction} {expected : Option Address}

theorem receipts_actions (h : actionEvents s.out = a) :
    (account.receipts s).filterMap (·.event.action) = a := by
  rw [Account.receipts, receiptsFrom_actions, h]

/-- The reader of stops goes by the one `StreamStopped` a deal can have sent. -/
theorem stop_read (h : Story l s) : ∃ found,
    exactBuyerStopSettlement (account.receipts s) = .ok found ∧
    (found.isSome = true ↔ ending l = some .streamStopped) ∧
    ∀ x y, found = some (x, y) → .streamStopped s.buyer x y ∈ actionEvents s.out := by
  have hquiet {e : Option Ending} (hl : ending l = e) (he : e ≠ some .streamStopped)
      (hf : (actionEvents s.out).filterMap stopFigures = []) : ∃ found,
      exactBuyerStopSettlement (account.receipts s) = .ok found ∧
      (found.isSome = true ↔ ending l = some .streamStopped) ∧
      ∀ x y, found = some (x, y) → .streamStopped s.buyer x y ∈ actionEvents s.out := by
    refine ⟨none, ?_, ?_, nofun⟩
    · rw [exactBuyerStopSettlement, stopLoop_actions, receipts_actions rfl, hf]
      rfl
    · rw [hl]
      exact iff_of_false nofun he
  cases h with
  | waiting _ _ _ _ he ha => exact hquiet he nofun (by rw [ha]; rfl)
  | streaming _ _ _ _ he ha => exact hquiet he nofun (by rw [ha]; rfl)
  | disputed _ _ _ _ _ _ he ha => exact hquiet he nofun (by rw [ha]; rfl)
  | burned _ _ _ _ _ he ha => exact hquiet he nofun (by rw [ha]; rfl)
  | stopped x y _ _ he ha =>
    refine ⟨some (x, y), ?_, iff_of_true rfl he, ?_⟩
    · rw [exactBuyerStopSettlement, stopLoop_actions, receipts_actions ha]
      rfl
    · rintro _ _ ⟨⟩
      rw [ha]
      exact List.mem_singleton_self _
  | resolved _ _ _ _ _ _ _ he ha => exact hquiet he nofun (by rw [ha]; rfl)
  | unopened _ _ he ha => exact hquiet he nofun (by rw [ha]; rfl)

theorem burn_read (h : Deployed s) : exactProbeBurnSettlement (account.receipts s) = .ok none := by
  obtain ⟨time, rest, hout⟩ := h
  rw [Account.receipts, hout, receiptsFrom_cons]
  rfl

theorem select_read (h : Story l s) : ∃ found,
    selectPriorBuyerTerminalReceipt s.buyer (account.receipts s) = .ok found ∧
    (found.isSome = true ↔
      ending l = some .probeBurned ∨ ending l = some .streamStopped) := by
  cases h with
  | waiting _ _ _ _ he ha =>
    exact ⟨none, select_quiet (receipts_actions ha), by rw [he]; exact iff_of_false nofun (by simp)⟩
  | streaming _ _ _ _ he ha =>
    exact ⟨none, select_quiet (receipts_actions ha), by rw [he]; exact iff_of_false nofun (by simp)⟩
  | disputed _ _ _ _ _ _ he ha =>
    exact ⟨none, select_disputed (receipts_actions ha),
      by rw [he]; exact iff_of_false nofun (by simp)⟩
  | burned _ _ _ _ _ he ha =>
    obtain ⟨r, hr, -⟩ := select_closed (receipts_actions ha) rfl rfl
    exact ⟨some r, hr, iff_of_true rfl (.inl he)⟩
  | stopped _ _ _ _ he ha =>
    obtain ⟨r, hr, -⟩ := select_closed (receipts_actions ha) rfl rfl
    exact ⟨some r, hr, iff_of_true rfl (.inr he)⟩
  | resolved _ _ _ _ _ _ _ he ha =>
    exact ⟨none, select_resolved (receipts_actions ha),
      by rw [he]; exact iff_of_false nofun (by simp)⟩
  | unopened _ _ he ha =>
    exact ⟨none, select_quiet (receipts_actions ha), by rw [he]; exact iff_of_false nofun (by simp)⟩

/-- What an action needs of the deal, as far as its history can say. -/
def Admits (action : SettlementAction) (l : List (TransactionSystem.Record Deal Tx))
    (s : Deal) : Prop :=
  if action.resolves then s.destroyed = false ∧ s.disputed = true
  else (s.destroyed = false ∧ s.opened = true ∧ s.disputed = false) ∨ everOpenedIn l = false

theorem reject_read (h : Story l s) :
    rejectPriorSettlementAction action expected (account.receipts s) = .ok () ↔
      Admits action l s := by
  unfold Admits
  cases h with
  | waiting hl ho hd hever he ha =>
    rw [reject_quiet (receipts_actions ha)]
    cases action <;> simp [SettlementAction.resolves, hd, hever]
  | streaming hl ho hd hever he ha =>
    rw [reject_quiet (receipts_actions ha)]
    cases action <;> simp [SettlementAction.resolves, hl, ho, hd]
  | disputed other time hl ho hd hever he ha =>
    rw [reject_disputed (receipts_actions ha)]
    cases action <;> simp [SettlementAction.resolves, hl, hd, hever]
  | burned x y z hl hever he ha =>
    refine iff_of_false (reject_closed (receipts_actions ha) rfl) ?_
    cases action <;> simp [SettlementAction.resolves, hl, hever]
  | stopped x y hl hever he ha =>
    refine iff_of_false (reject_closed (receipts_actions ha) rfl) ?_
    cases action <;> simp [SettlementAction.resolves, hl, hever]
  | resolved other time x y released hl hever he ha =>
    refine iff_of_false (reject_resolved (receipts_actions ha)) ?_
    cases action <;> simp [SettlementAction.resolves, hl, hever]
  | unopened hl hever he ha =>
    rw [reject_quiet (receipts_actions ha)]
    cases action <;> simp [SettlementAction.resolves, hl, hever]

end Readers

/-- Over every run of a deal, on its complete history: the reader of stops finds the figures of the
`StreamStopped` exactly where the stream was stopped, the reader of burned trials never fails and
never takes another end for one, the terminal receipt of the recorded buyer is there exactly where
the trial burned or the stream was stopped, and an action passes exactly where the stream can still
take it, a stop or a dispute also where no stream was ever opened. -/
theorem readers_agree (E : Env) (account : Account) (s₀ s : Deal)
    (l : List (TransactionSystem.Record Deal Tx)) (h0 : Constructed E s₀)
    (hrun : TransactionSystem.Run (exec E) Admissible s₀ l s) :
    (∃ found, exactBuyerStopSettlement (account.receipts s) = .ok found ∧
      (found.isSome = true ↔ ending l = some .streamStopped) ∧
      ∀ x y, found = some (x, y) → .streamStopped s.buyer x y ∈ actionEvents s.out) ∧
    (∃ found, exactProbeBurnSettlement (account.receipts s) = .ok found ∧
      ∀ x y z, found = some (x, y, z) → ending l = some .probeBurned ∧
        .probeBurned s.buyer x y z ∈ actionEvents s.out) ∧
    (∃ found, selectPriorBuyerTerminalReceipt s.buyer (account.receipts s) = .ok found ∧
      (found.isSome = true ↔ ending l = some .probeBurned ∨ ending l = some .streamStopped)) ∧
    ∀ action expected,
      rejectPriorSettlementAction action expected (account.receipts s) = .ok () ↔
        Admits action l s := by
  obtain ⟨hstory, hdeployed⟩ := run_story h0 hrun
  exact ⟨stop_read hstory, ⟨none, burn_read hdeployed, nofun⟩, select_read hstory,
    fun action expected => reject_read hstory⟩

/-- The seller walks out of a stream, and the reader of stops finds it. -/
theorem seller_stop_read : ∃ l s,
    TransactionSystem.Run (exec sampleEnv) Admissible sampleDeal l s ∧
    (∃ figures, exactBuyerStopSettlement (sampleAccount.receipts s) = .ok (some figures)) ∧
    ending l = some .streamStopped := by
  have hplay : (TransactionSystem.play (exec sampleEnv) Admissible
      (openedSchedule ++ [sellerTx 400 .sellerStop]) sampleDeal).any (fun s =>
        (exactBuyerStopSettlement (sampleAccount.receipts s)).toOption.join.isSome) = true := by
    decide
  obtain ⟨s, hs, hread⟩ := (Option.any_eq_true _ _).mp hplay
  obtain ⟨l, hrun, -⟩ := TransactionSystem.Run.play .nil hs
  obtain ⟨⟨found, hfound, hend, -⟩, -⟩ :=
    readers_agree sampleEnv sampleAccount sampleDeal s l sampleDeal_constructed hrun
  rw [hfound] at hread
  obtain ⟨figures, rfl⟩ := Option.isSome_iff_exists.mp hread
  exact ⟨l, s, hrun, ⟨figures, hfound⟩, hend.mp rfl⟩

/-- Nothing was matched yet, and a stop passes all the same. -/
theorem unopened_stop_passes : Constructed sampleEnv sampleDeal ∧
    TransactionSystem.Run (exec sampleEnv) Admissible sampleDeal [] sampleDeal ∧
    rejectPriorSettlementAction .buyerStop none (sampleAccount.receipts sampleDeal) = .ok () ∧
    sampleDeal.opened = false :=
  ⟨sampleDeal_constructed, .nil, rfl, rfl⟩

end DealEnds
