import Dexdo.SettlementReceipts
import Dexdo.TokenContractStakes

/-! # Which action a call of a deal announces

Of the events a call emits at most one is an action of the client. The traffic of a call is
followed through the pieces its body is made of. -/
namespace TokenContractEvents

open TokenContractState TokenContractCalls TokenContractStakes SettlementReceipts

variable {E : Env} {m : Msg} {s t u : Deal} {a b : List ActionEvent}

/-- From `s` to `t` the deal sent traffic with the actions `a`, under one buyer. -/
structure Emits (s t : Deal) (a : List ActionEvent) : Prop where
  sent : ∃ l, t.out = s.out ++ l ∧ actionEvents l = a
  buyer : t.buyer = s.buyer

namespace Emits

theorem same (ho : t.out = s.out) (hb : t.buyer = s.buyer) : Emits s t [] :=
  ⟨⟨[], by rw [ho, List.append_nil], rfl⟩, hb⟩

theorem refl (s : Deal) : Emits s s [] := same rfl rfl

theorem trans (h : Emits s t a) (h' : Emits t u b) : Emits s u (a ++ b) := by
  obtain ⟨⟨l, hl, ha⟩, hbuyer⟩ := h
  obtain ⟨⟨l', hl', hb⟩, hbuyer'⟩ := h'
  refine ⟨⟨l ++ l', by rw [hl', hl, List.append_assoc], ?_⟩, hbuyer'.trans hbuyer⟩
  rw [← ha, ← hb]
  exact List.filterMap_append ..

theorem quiet_trans (h : Emits s t []) (h' : Emits t u a) : Emits s u a := h.trans h'

theorem trans_quiet (h : Emits s t a) (h' : Emits t u []) : Emits s u a := by
  have := h.trans h'
  rwa [List.append_nil] at this

theorem write (h : Emits s t a) (ho : u.out = t.out) (hb : u.buyer = t.buyer) : Emits s u a :=
  h.trans_quiet (same ho hb)

theorem send (s : Deal) (o : Out) : Emits s (s.send o) (actionOut o).toList := by
  refine ⟨⟨[⟨s.now, o⟩], rfl, ?_⟩, rfl⟩
  unfold actionEvents
  rw [List.filterMap_cons]
  cases actionOut o <;> rfl

theorem sendIf (s : Deal) (p : Prop) [Decidable p] {o : Out} (ho : actionOut o = none) :
    Emits s (s.sendIf p o) [] := by
  refine ⟨⟨sentIf p s.now o, rfl, ?_⟩, rfl⟩
  unfold sentIf actionEvents
  split
  · rw [List.filterMap_cons, ho]
    rfl
  · rfl

end Emits

/-! ## Money -/

theorem payShell_emits (payee : Payee) (dest : Address) (amount : ℕ) (s : Deal) :
    Emits s (payShell payee dest amount s) [] := by
  have hpaid : Emits s { s with
      balance := s.balance - amount
      fault := s.fault || decide (s.balance < amount) } [] := .same rfl rfl
  exact hpaid.quiet_trans (.sendIf _ _ rfl)

theorem burnShell_emits (amount : ℕ) (s : Deal) : Emits s (burnShell amount s) [] := by
  have hpaid : Emits s { s with
      balance := s.balance - amount
      fault := s.fault || decide (s.balance < amount) } [] := .same rfl rfl
  exact hpaid.quiet_trans (.sendIf _ _ rfl)

theorem announceClosed_emits (dest : Address) (s : Deal) : Emits s (announceClosed dest s) [] :=
  .sendIf s _ rfl

theorem die_emits (s : Deal) : Emits s (die s) [] := by
  have htold := (announceClosed_emits s.buyer s).quiet_trans
    (announceClosed_emits (announceClosed s.buyer s).sellerNote (announceClosed s.buyer s))
  exact (htold.quiet_trans (.send _ .contractDestroyed)).write rfl rfl

theorem sweepAndDie_emits (s : Deal) : Emits s (sweepAndDie s) [] :=
  (payShell_emits .residual s.sellerNote s.balance s).quiet_trans (die_emits _)

theorem payOwedAndDie_emits (s : Deal) : Emits s (payOwedAndDie s) [] := by
  have hzero : Emits s { s with finalizedOwed := 0 } [] := .same rfl rfl
  have howed := hzero.quiet_trans (payShell_emits .seller s.sellerNote s.finalizedOwed _)
  exact howed.quiet_trans (sweepAndDie_emits _)

theorem settleFees_emits (E : Env) (clean : Bool) (s : Deal) :
    Emits s (settleFees E clean s) [] := by
  have hchecked : Emits s ((s.check (clean && !s.everDisputed →
      rebate s.pricePerTick s.ticksFinalized < u128)).check
      (s.finalizedOwed + rebateDue clean s < u128)) [] := .same rfl rfl
  generalize hv : (s.check (clean && !s.everDisputed →
      rebate s.pricePerTick s.ticksFinalized < u128)).check
      (s.finalizedOwed + rebateDue clean s < u128) = v at hchecked
  have hcredit : Emits s { v with finalizedOwed := v.finalizedOwed + rebateDue clean s } [] :=
    hchecked.write rfl rfl
  have hburn := hcredit.quiet_trans (burnShell_emits (s.feeAccrued - rebateDue clean s) _)
  have hclear := hburn.write (u := { burnShell (s.feeAccrued - rebateDue clean s)
    { v with finalizedOwed := v.finalizedOwed + rebateDue clean s } with feeAccrued := 0 }) rfl rfl
  subst hv
  exact hclear.quiet_trans (.sendIf _ _ rfl)

theorem releaseProbe_emits (s : Deal) : Emits s (releaseProbe s) [] := by
  unfold releaseProbe
  split
  · exact .refl s
  · exact .same rfl rfl

theorem promoteDue_emits (s : Deal) : Emits s (promoteDue s) [] := by
  unfold promoteDue
  dsimp only
  split
  · exact .same rfl rfl
  · exact .same rfl rfl

theorem chargeWeeksThrough_emits (k : ℕ) (s : Deal) : Emits s (chargeWeeksThrough k s) [] := by
  have hloop : ∀ (n : ℕ) (s : Deal), Emits s (chargeWeek^[n] s) [] := by
    intro n
    induction n with
    | zero => exact fun s => .refl s
    | succ n ih =>
      intro s
      have hweek : Emits s (chargeWeek s) [] := .same rfl rfl
      exact hweek.quiet_trans (ih (chargeWeek s))
  unfold chargeWeeksThrough
  split
  · exact hloop _ s
  · exact .refl s

theorem settleBoundaries_emits (E : Env) (due : ℕ) (s : Deal) :
    Emits s (settleBoundaries E due s) [] := by
  unfold settleBoundaries
  split
  · exact .refl s
  · have hweeks := chargeWeeksThrough_emits due s
    have htold := hweeks.quiet_trans (.send _ (.tickFinalized
      (chargeWeeksThrough due s).finalizedOwed (chargeWeeksThrough due s).deposit))
    have hdelivered : Emits s (recordDelivered ((chargeWeeksThrough due s).send (.tickFinalized
        (chargeWeeksThrough due s).finalizedOwed (chargeWeeksThrough due s).deposit))) [] :=
      htold.write rfl rfl
    exact hdelivered.quiet_trans (.sendIf _ _ rfl)

theorem forfeitBonds_emits (x y : ℕ) (s : Deal) : Emits s (forfeitBonds x y s) [] := by
  have hcut : Emits s { s with
      fault := (s.check ((if x ≤ s.buyerBond then x else s.buyerBond) +
        (if y ≤ s.sellerBond then y else s.sellerBond) < u128)).fault
      buyerBond := s.buyerBond - (if x ≤ s.buyerBond then x else s.buyerBond)
      sellerBond := s.sellerBond - (if y ≤ s.sellerBond then y else s.sellerBond) } [] :=
    .same rfl rfl
  exact hcut.quiet_trans (burnShell_emits _ _)

/-! ## The exits -/

theorem closeClean_emits (E : Env) (s : Deal) : ∃ toSeller refund,
    Emits s (closeClean E s) [.streamStopped s.buyer toSeller refund] := by
  have hprobe := releaseProbe_emits s
  have hrecord : Emits s (recordDelivered (releaseBuyerBond (releaseProbe s))) [] :=
    hprobe.write rfl rfl
  generalize hu : recordDelivered (releaseBuyerBond (releaseProbe s)) = u at hrecord
  have hbond : Emits s { creditSellerBond { u with deposit := 0 } with opened := false } [] :=
    hrecord.write rfl rfl
  have hfees := hbond.quiet_trans (settleFees_emits E true _)
  have hpaid := hfees.quiet_trans (payShell_emits .buyer (settleFees E true
    { creditSellerBond { u with deposit := 0 } with opened := false }).buyer u.deposit _)
  generalize hv : payShell .buyer (settleFees E true
    { creditSellerBond { u with deposit := 0 } with opened := false }).buyer u.deposit
      (settleFees E true { creditSellerBond { u with deposit := 0 } with opened := false }) = v
    at hpaid
  have hstop := hpaid.quiet_trans (.send v (.streamStopped v.buyer v.finalizedOwed u.deposit))
  refine ⟨v.finalizedOwed, u.deposit, ?_⟩
  have hend := hstop.trans_quiet (payOwedAndDie_emits _)
  rw [hpaid.buyer] at hend
  have heq : closeClean E s = payOwedAndDie
      (v.send (.streamStopped v.buyer v.finalizedOwed u.deposit)) := by
    subst hv hu
    rfl
  rw [heq, hpaid.buyer]
  exact hend

theorem payFinalAndClose_emits (E : Env) (s : Deal) : ∃ toSeller refund,
    Emits s (payFinalAndClose E s) [.streamStopped s.buyer toSeller refund] := by
  have hpaid : Emits s (payTokens (finalOwed s) s) [] := .same rfl rfl
  unfold payFinalAndClose
  dsimp only
  split
  · have hmark := hpaid.write (u := { payTokens (finalOwed s) s with
        tokensPaid := (payTokens (finalOwed s) s).tokensFinal }) rfl rfl
    obtain ⟨x, y, hclose⟩ := closeClean_emits E { payTokens (finalOwed s) s with
        tokensPaid := (payTokens (finalOwed s) s).tokensFinal }
    exact ⟨x, y, hmark.quiet_trans hclose⟩
  · obtain ⟨x, y, hclose⟩ := closeClean_emits E (payTokens (finalOwed s) s)
    exact ⟨x, y, hpaid.quiet_trans hclose⟩

theorem payFinalAndClose_after (E : Env) (h : Emits s t []) : ∃ toSeller refund,
    Emits s (payFinalAndClose E t) [.streamStopped s.buyer toSeller refund] := by
  obtain ⟨x, y, hclose⟩ := payFinalAndClose_emits E t
  rw [h.buyer] at hclose
  exact ⟨x, y, h.quiet_trans hclose⟩

theorem stopOnProbe_emits (s : Deal) : ∃ burnedProbe burnedBond refund,
    Emits s (stopOnProbe s) [.probeBurned s.buyer burnedProbe burnedBond refund] := by
  generalize hburn : (if s.probeTick ≤ s.sellerBond then s.probeTick else s.sellerBond) = x
  generalize hv : creditSellerBond { releaseBuyerBond (s.check (s.probeTick + x < u128)) with
    sellerBond := (releaseBuyerBond (s.check (s.probeTick + x < u128))).sellerBond - x } = v
  have hbonds : Emits s v [] := by
    subst hv
    exact .same rfl rfl
  have hdrained := hbonds.write
    (u := { v with probeTick := 0, deposit := 0, opened := false }) rfl rfl
  have hburned := hdrained.quiet_trans (burnShell_emits (s.probeTick + x) _)
  generalize hw : burnShell (s.probeTick + x)
    { v with probeTick := 0, deposit := 0, opened := false } = w at hburned
  have hpaid := hburned.quiet_trans (payShell_emits .buyer w.buyer
    (releaseBuyerBond (s.check (s.probeTick + x < u128))).deposit w)
  generalize hz : payShell .buyer w.buyer
    (releaseBuyerBond (s.check (s.probeTick + x < u128))).deposit w = z at hpaid
  have hstop := hpaid.quiet_trans (.send z (.probeBurned z.buyer z.pricePerTick x
    (releaseBuyerBond (s.check (s.probeTick + x < u128))).deposit))
  refine ⟨z.pricePerTick, x, (releaseBuyerBond (s.check (s.probeTick + x < u128))).deposit, ?_⟩
  have heq : stopOnProbe s = payOwedAndDie (z.send (.probeBurned z.buyer z.pricePerTick x
      (releaseBuyerBond (s.check (s.probeTick + x < u128))).deposit)) := by
    subst hz hw hv hburn
    rfl
  rw [heq, hpaid.buyer]
  have hend := hstop.trans_quiet (payOwedAndDie_emits _)
  rwa [hpaid.buyer] at hend

/-- The exit of the buyer: on the trial the probe burns, after it the stream stops. -/
theorem stopBody_emits (E : Env) (s : Deal) :
    (s.probeAccepted = false ∧ ∃ burnedProbe burnedBond refund,
      Emits s (stopBody E s) [.probeBurned s.buyer burnedProbe burnedBond refund]) ∨
    (s.probeAccepted = true ∧ ∃ toSeller refund,
      Emits s (stopBody E s) [.streamStopped s.buyer toSeller refund]) := by
  cases ha : s.probeAccepted with
  | false =>
    left
    have heq : stopBody E s = stopOnProbe s := by
      unfold stopBody
      rw [ha]
      rfl
    rw [heq]
    exact ⟨rfl, stopOnProbe_emits s⟩
  | true =>
    right
    refine ⟨rfl, ?_⟩
    unfold stopBody
    rw [ha]
    simp only [Bool.not_true, Bool.false_eq_true, if_false]
    have hdue := promoteDue_emits s
    generalize promoteDue s = v at hdue
    split
    · have hforfeit := (hdue.write (u := promote v) rfl rfl).quiet_trans
        (forfeitBonds_emits v.pricePerTick 0 (promote v))
      generalize forfeitBonds v.pricePerTick 0 (promote v) = w at hforfeit
      have hchecked := hforfeit.write (u := w.check (w.periodStart ≤ w.now)) rfl rfl
      exact payFinalAndClose_after E (hchecked.quiet_trans (chargeWeeksThrough_emits _ _))
    · have hchecked := hdue.write (u := v.check (v.periodStart ≤ v.now)) rfl rfl
      exact payFinalAndClose_after E (hchecked.quiet_trans (chargeWeeksThrough_emits _ _))

theorem sellerExit_emits (E : Env) (s : Deal) : ∃ toSeller refund,
    Emits s (sellerExit E s) [.streamStopped s.buyer toSeller refund] := by
  unfold sellerExit
  have hdue := promoteDue_emits s
  generalize promoteDue s = v at hdue
  dsimp only
  split
  · have hforfeit := (hdue.write (u := { v with tokensPend := v.tokensFinal }) rfl rfl).quiet_trans
      (forfeitBonds_emits 0 v.pricePerTick { v with tokensPend := v.tokensFinal })
    generalize forfeitBonds 0 v.pricePerTick { v with tokensPend := v.tokensFinal } = w at hforfeit
    have hchecked := hforfeit.write (u := w.check (w.periodStart ≤ w.now)) rfl rfl
    exact payFinalAndClose_after E (hchecked.quiet_trans (chargeWeeksThrough_emits _ _))
  · have hchecked := hdue.write (u := v.check (v.periodStart ≤ v.now)) rfl rfl
    exact payFinalAndClose_after E (hchecked.quiet_trans (chargeWeeksThrough_emits _ _))

theorem sellerStopBody_emits (E : Env) (s : Deal) : ∃ toSeller refund,
    Emits s (sellerStopBody E s) [.streamStopped s.buyer toSeller refund] := by
  unfold sellerStopBody
  split
  · have hcut : Emits s { s with
        sellerBond := s.sellerBond -
          (if s.pricePerTick ≤ s.sellerBond then s.pricePerTick else s.sellerBond) } [] :=
      .same rfl rfl
    have htrial : Emits s (forfeitTrial s) [] := hcut.quiet_trans (burnShell_emits _ _)
    obtain ⟨x, y, hexit⟩ := sellerExit_emits E (forfeitTrial s)
    rw [htrial.buyer] at hexit
    exact ⟨x, y, htrial.quiet_trans hexit⟩
  · exact sellerExit_emits E s

/-! ## Resolutions -/

theorem burnUnearned_emits (s : Deal) : Emits s (burnUnearned s).1 [] := by
  unfold burnUnearned
  split
  · dsimp only
    have hchecked : Emits s (s.check (s.periodStart ≤ s.disputeTime ∧
        unstartedTokens s < u128 ∧ unstartedCharge s < u128)) [] := .same rfl rfl
    split
    · exact hchecked.quiet_trans (burnShell_emits _ _)
    · exact hchecked
  · exact .refl s

/-- A resolution announces itself as the one its seller's stake says it is. -/
theorem closeDisputed_emits (E : Env) (released : Bool) (s : Deal) : ∃ toSeller refund,
    Emits s (closeDisputed E released s) [.disputeResolved toSeller refund released] := by
  have hburn := burnUnearned_emits s
  generalize hu : burnUnearned s = x at hburn
  obtain ⟨u, r⟩ := x
  have hbonds : Emits s { creditSellerBond { u.check (r + u.buyerBond < u128) with
      buyerBond := 0, deposit := 0 } with opened := false } [] := hburn.write rfl rfl
  have hfees := hbonds.quiet_trans (settleFees_emits E false _)
  generalize hv : settleFees E false { creditSellerBond { u.check (r + u.buyerBond < u128) with
      buyerBond := 0, deposit := 0 } with opened := false } = v at hfees
  have hpaid := hfees.quiet_trans (payShell_emits .buyer v.buyer (r + u.buyerBond) v)
  have hsent := hpaid.quiet_trans (.send (payShell .buyer v.buyer (r + u.buyerBond) v)
    (.disputeResolved (payShell .buyer v.buyer (r + u.buyerBond) v).finalizedOwed
      (r + u.buyerBond) released))
  have heq : closeDisputed E released s = payOwedAndDie
      ((payShell .buyer v.buyer (r + u.buyerBond) v).send
        (.disputeResolved (payShell .buyer v.buyer (r + u.buyerBond) v).finalizedOwed
          (r + u.buyerBond) released)) := by
    subst hv
    unfold closeDisputed
    rw [hu]
    rfl
  rw [heq]
  exact ⟨_, _, hsent.trans_quiet (payOwedAndDie_emits _)⟩

theorem payTrusted_emits (s : Deal) : Emits s (payTrusted s) [] := by
  have hprobe := releaseProbe_emits s
  generalize hu : releaseProbe s = u at hprobe
  have hchecked := hprobe.write (u := u.check (u.periodStart ≤ u.disputeTime)) rfl rfl
  have hweeks := hchecked.quiet_trans
    (chargeWeeksThrough_emits (weeksElapsedAt u.disputeTime u) _)
  unfold payTrusted
  rw [hu]
  exact hweeks.write rfl rfl

theorem settleTrustedAndClose_emits (E : Env) (x y : ℕ) (s : Deal) : ∃ toSeller refund,
    Emits s (settleTrustedAndClose E x y s) [.disputeResolved toSeller refund (y == 0)] := by
  have hpaid := payTrusted_emits s
  generalize hu : payTrusted s = u at hpaid
  have hcut := hpaid.write (u := { u.check ((if x > u.buyerBond then u.buyerBond else x) +
      (if y > u.sellerBond then u.sellerBond else y) < u128) with
    buyerBond := u.buyerBond - (if x > u.buyerBond then u.buyerBond else x)
    sellerBond := u.sellerBond - (if y > u.sellerBond then u.sellerBond else y) }) rfl rfl
  have hstakes : Emits s (burnStakes x y u) [] := hcut.quiet_trans (burnShell_emits _ _)
  obtain ⟨a, b, hclose⟩ := closeDisputed_emits E (y == 0) (burnStakes x y u)
  unfold settleTrustedAndClose
  rw [hu]
  exact ⟨a, b, hstakes.quiet_trans hclose⟩

theorem liftDispute_emits (s : Deal) : Emits s (liftDispute s) [] := .same rfl rfl

theorem chargeWeeksThrough_terms (k : ℕ) (s : Deal) :
    (chargeWeeksThrough k s).subWeeks = s.subWeeks ∧
      (chargeWeeksThrough k s).pricePerTick = s.pricePerTick ∧
      (chargeWeeksThrough k s).buyerBond = s.buyerBond ∧
      (chargeWeeksThrough k s).sellerBond = s.sellerBond := by
  have hloop : ∀ (n : ℕ) (s : Deal), (chargeWeek^[n] s).pricePerTick = s.pricePerTick ∧
      (chargeWeek^[n] s).sellerBond = s.sellerBond := by
    intro n
    induction n with
    | zero => exact fun _ => ⟨rfl, rfl⟩
    | succ n ih => exact fun s => ih (chargeWeek s)
  refine ⟨chargeWeeksThrough_subWeeks k s, ?_, chargeWeeksThrough_buyerBond k s, ?_⟩
  · unfold chargeWeeksThrough
    split
    · exact (hloop _ s).1
    · rfl
  · unfold chargeWeeksThrough
    split
    · exact (hloop _ s).2
    · rfl

/-- A release announces itself as one only where the seller gives up no stake: on a
subscription. -/
theorem releaseDisputeBody_emits (E : Env) (hpos : 0 < s.pricePerTick) : ∃ toSeller refund,
    Emits s (releaseDisputeBody E s) [.disputeResolved toSeller refund (isSubscription s)] := by
  have hchecked : Emits s (s.check (s.periodStart ≤ s.disputeTime)) [] := .same rfl rfl
  have hweeks := hchecked.quiet_trans (chargeWeeksThrough_emits (weeksElapsedAt s.disputeTime s) _)
  obtain ⟨hsub, hprice, -, -⟩ := chargeWeeksThrough_terms (weeksElapsedAt s.disputeTime s)
    (s.check (s.periodStart ≤ s.disputeTime))
  have hdef : releaseDisputeBody E s =
      if isSubscription (liftDispute (chargeWeeksThrough (weeksElapsedAt s.disputeTime s)
          (s.check (s.periodStart ≤ s.disputeTime)))) then
        settleTrustedAndClose E (disputeStake (liftDispute (chargeWeeksThrough
          (weeksElapsedAt s.disputeTime s) (s.check (s.periodStart ≤ s.disputeTime))))) 0
          (checkStake (liftDispute (chargeWeeksThrough (weeksElapsedAt s.disputeTime s)
            (s.check (s.periodStart ≤ s.disputeTime)))))
      else settleTrustedAndClose E
        (liftDispute (chargeWeeksThrough (weeksElapsedAt s.disputeTime s)
          (s.check (s.periodStart ≤ s.disputeTime)))).pricePerTick
        (liftDispute (chargeWeeksThrough (weeksElapsedAt s.disputeTime s)
          (s.check (s.periodStart ≤ s.disputeTime)))).pricePerTick
        (liftDispute (chargeWeeksThrough (weeksElapsedAt s.disputeTime s)
          (s.check (s.periodStart ≤ s.disputeTime)))) := rfl
  rw [hdef]
  generalize chargeWeeksThrough (weeksElapsedAt s.disputeTime s)
    (s.check (s.periodStart ≤ s.disputeTime)) = v at hweeks hsub hprice
  have hlifted := hweeks.quiet_trans (liftDispute_emits v)
  have hkind : isSubscription (liftDispute v) = isSubscription s := by
    change (v.subWeeks != 0) = (s.subWeeks != 0)
    rw [hsub]
    rfl
  have hcost : (liftDispute v).pricePerTick = s.pricePerTick := hprice
  rw [hkind, hcost]
  cases hs : isSubscription s with
  | true =>
    have hstaked := hlifted.write (u := checkStake (liftDispute v)) rfl rfl
    obtain ⟨x, y, hend⟩ := settleTrustedAndClose_emits E (disputeStake (liftDispute v)) 0
      (checkStake (liftDispute v))
    exact ⟨x, y, hstaked.quiet_trans hend⟩
  | false =>
    obtain ⟨x, y, hend⟩ := settleTrustedAndClose_emits E s.pricePerTick s.pricePerTick
      (liftDispute v)
    rw [beq_eq_false_iff_ne.mpr hpos.ne'] at hend
    exact ⟨x, y, hlifted.quiet_trans hend⟩

/-- What `resolveDisputeTimeout` does on an ordinary deal past its weekly books. -/
def timeoutOrdinary (E : Env) (s : Deal) : Deal :=
  let w := liftDispute (s.check (pendingCharge s < u128))
  let x := if pendingCharge s > w.deposit then w.deposit else pendingCharge s
  let z := burnShell x { w with deposit := w.deposit - x }
  settleTrustedAndClose E (2 * z.pricePerTick) (2 * z.pricePerTick)
    (z.check (2 * z.pricePerTick < u128))

theorem resolveDisputeTimeoutBody_branches (E : Env) (s : Deal) :
    resolveDisputeTimeoutBody E s =
      if isSubscription (chargeWeeksThrough (weeksElapsedAt s.disputeTime s)
          (s.check (s.periodStart ≤ s.disputeTime))) then
        settleTrustedAndClose E
          (disputeStake (chargeWeeksThrough (weeksElapsedAt s.disputeTime s)
            (s.check (s.periodStart ≤ s.disputeTime))))
          (disputeStake (chargeWeeksThrough (weeksElapsedAt s.disputeTime s)
            (s.check (s.periodStart ≤ s.disputeTime))))
          (liftDispute (checkStake (chargeWeeksThrough (weeksElapsedAt s.disputeTime s)
            (s.check (s.periodStart ≤ s.disputeTime)))))
      else timeoutOrdinary E (chargeWeeksThrough (weeksElapsedAt s.disputeTime s)
        (s.check (s.periodStart ≤ s.disputeTime))) := rfl

theorem disputeStake_ge (hsub : isSubscription s = true) (hb : s.pricePerTick ≤ s.buyerBond)
    (hs : s.pricePerTick ≤ s.sellerBond) : s.pricePerTick ≤ disputeStake s := by
  have hcap : s.pricePerTick ≤ bondAmount s.pricePerTick := by
    unfold bondAmount
    omega
  unfold disputeStake
  simp only [hsub, if_true]
  split_ifs <;> omega

/-- The ordinary branch of the timeout, on the record its weekly books leave. -/
theorem timeoutOrdinary_emits (E : Env) (s : Deal) (hpos : 0 < s.pricePerTick) :
    ∃ toSeller refund, Emits s (timeoutOrdinary E s) [.disputeResolved toSeller refund false] := by
  have hchecked : Emits s (s.check (pendingCharge s < u128)) [] := .same rfl rfl
  have hlifted := hchecked.quiet_trans (liftDispute_emits (s.check (pendingCharge s < u128)))
  have hcost : (liftDispute (s.check (pendingCharge s < u128))).pricePerTick = s.pricePerTick := rfl
  unfold timeoutOrdinary
  generalize liftDispute (s.check (pendingCharge s < u128)) = w at hlifted hcost
  dsimp only
  generalize (if pendingCharge s > w.deposit then w.deposit else pendingCharge s) = x
  have hcut := hlifted.write (u := { w with deposit := w.deposit - x }) rfl rfl
  have hburned := hcut.quiet_trans (burnShell_emits x _)
  have hprice : (burnShell x { w with deposit := w.deposit - x }).pricePerTick =
      s.pricePerTick := hcost
  generalize burnShell x { w with deposit := w.deposit - x } = z at hburned hprice
  have hlast := hburned.write (u := z.check (2 * z.pricePerTick < u128)) rfl rfl
  obtain ⟨a, b, hend⟩ := settleTrustedAndClose_emits E (2 * z.pricePerTick) (2 * z.pricePerTick)
    (z.check (2 * z.pricePerTick < u128))
  rw [beq_eq_false_iff_ne.mpr (by omega)] at hend
  exact ⟨a, b, hlast.quiet_trans hend⟩

/-- A timeout never announces itself as a release. -/
theorem resolveDisputeTimeoutBody_emits (E : Env) (hpos : 0 < s.pricePerTick)
    (hb : isSubscription s = true → s.pricePerTick ≤ s.buyerBond)
    (hs : s.pricePerTick ≤ s.sellerBond) : ∃ toSeller refund,
    Emits s (resolveDisputeTimeoutBody E s) [.disputeResolved toSeller refund false] := by
  have hchecked : Emits s (s.check (s.periodStart ≤ s.disputeTime)) [] := .same rfl rfl
  have hweeks := hchecked.quiet_trans (chargeWeeksThrough_emits (weeksElapsedAt s.disputeTime s) _)
  obtain ⟨hsub, hprice, hbuyer, hseller⟩ := chargeWeeksThrough_terms
    (weeksElapsedAt s.disputeTime s) (s.check (s.periodStart ≤ s.disputeTime))
  rw [resolveDisputeTimeoutBody_branches]
  generalize chargeWeeksThrough (weeksElapsedAt s.disputeTime s)
    (s.check (s.periodStart ≤ s.disputeTime)) = v at hweeks hsub hprice hbuyer hseller
  have hkind : isSubscription v = isSubscription s := by
    change (v.subWeeks != 0) = (s.subWeeks != 0)
    rw [hsub]
    rfl
  have hcost : v.pricePerTick = s.pricePerTick := hprice
  have hheld : v.buyerBond = s.buyerBond := hbuyer
  have hstake : v.sellerBond = s.sellerBond := hseller
  split
  · rename_i hv
    have hmine : v.pricePerTick ≤ v.buyerBond := by
      rw [hcost, hheld]
      exact hb (hkind ▸ hv)
    have hle := disputeStake_ge hv hmine (by rw [hcost, hstake]; exact hs)
    have hlifted := (hweeks.write (u := checkStake v) rfl rfl).quiet_trans
      (liftDispute_emits (checkStake v))
    obtain ⟨x, y, hend⟩ := settleTrustedAndClose_emits E (disputeStake v) (disputeStake v)
      (liftDispute (checkStake v))
    rw [beq_eq_false_iff_ne.mpr (by omega)] at hend
    exact ⟨x, y, hlifted.quiet_trans hend⟩
  · obtain ⟨x, y, hend⟩ := timeoutOrdinary_emits E v (by omega)
    exact ⟨x, y, hweeks.quiet_trans hend⟩

theorem resolveDisputeTimeoutBody_checked (E : Env) (P : Prop) [Decidable P]
    (hpos : 0 < s.pricePerTick) (hb : isSubscription s = true → s.pricePerTick ≤ s.buyerBond)
    (hs : s.pricePerTick ≤ s.sellerBond) : ∃ toSeller refund,
    Emits s (resolveDisputeTimeoutBody E (s.check P)) [.disputeResolved toSeller refund false] := by
  have hchecked : Emits s (s.check P) [] := .same rfl rfl
  obtain ⟨x, y, hend⟩ := resolveDisputeTimeoutBody_emits (s := s.check P) E hpos hb hs
  exact ⟨x, y, hchecked.quiet_trans hend⟩

/-! ## Calls that neither end nor dispute a deal -/

/-- The calls that may fall between the read of an action and the action. -/
inductive Between : Call → Prop where
  | acceptProbe : Between .acceptProbe
  | claimTokens (n : ℕ) : Between (.claimTokens n)
  | finalize : Between .finalize
  | settleWeek : Between .settleWeek
  | withdrawShell (amount : ℕ) : Between (.withdrawShell amount)

instance (c : Call) : Decidable (Between c) := by
  cases c <;> first
    | exact isTrue (by constructor)
    | exact isFalse (by rintro ⟨⟩)

theorem takeProbe_emits (s : Deal) : Emits s (takeProbe s) [] :=
  ⟨⟨[⟨s.now, .probeAccepted s.buyer s.pricePerTick 0⟩], rfl, rfl⟩, rfl⟩

theorem claimTokens_emits {n : ℕ} (h : claimTokens E n m s = .ok t) : Emits s t [] := by
  simp only [claimTokens, require_bind_ok] at h
  obtain ⟨-, -, -, -, -, h⟩ := h
  split at h
  · simp only [pure_ok, Except.ok.injEq] at h
    subst h
    exact .refl s
  · have hchecked : Emits s (s.check (s.periodStart ≤ s.now)) [] := .same rfl rfl
    have hbooks := hchecked.quiet_trans (settleBoundaries_emits E
      (weeksElapsed (s.check (s.periodStart ≤ s.now))) _)
    have hclock : Emits s (settleToClock E s) [] := hbooks.write rfl rfl
    generalize settleToClock E s = u at h hclock
    simp only [claimAbove, require_bind_ok, pure_ok, Except.ok.injEq] at h
    obtain ⟨-, -, -, -, -, rfl⟩ := h
    have hdue := hclock.quiet_trans (promoteDue_emits u)
    have htaken := hdue.write (u := { promoteDue u with
      tokensPend := n, lastClaimTime := (promoteDue u).now }) rfl rfl
    exact htaken.quiet_trans (.send _ (.ticksClaimed (promoteDue u).tokensFinal n))

theorem settleWeekBooks_emits (E : Env) (s : Deal) : Emits s (settleWeekBooks E s) [] := by
  have hchecked : Emits s (s.check (s.periodStart ≤ s.now)) [] := .same rfl rfl
  have hbooks := hchecked.quiet_trans (settleBoundaries_emits E
    (weeksElapsed (s.check (s.periodStart ≤ s.now))) _)
  exact hbooks.write rfl rfl

theorem drawn_emits (amount : ℕ) (s : Deal) : Emits s (TokenContractSteps.drawn amount s) [] := by
  have hcut : Emits s { s with finalizedOwed := s.finalizedOwed - amount } [] := .same rfl rfl
  have hpaid := hcut.quiet_trans (payShell_emits .seller s.sellerNote amount _)
  exact hpaid.quiet_trans (.send _ (.shellWithdrawn s.sellerNote amount))

/-- A call of these that leaves the deal alive announces no action. -/
theorem Between.emits {c : Call} (hc : Between c) (hok : dispatch E m s c = .ok t)
    (hlive : t.destroyed = false) : Emits s t [] := by
  cases hc with
  | acceptProbe =>
    simp only [dispatch, TokenContractCalls.acceptProbe, require_bind_ok, pure_ok, Except.ok.injEq] at hok
    obtain ⟨-, -, -, -, -, rfl⟩ := hok
    exact takeProbe_emits s
  | claimTokens n => exact claimTokens_emits hok
  | finalize =>
    simp only [dispatch, TokenContractCalls.finalize, require_bind_ok] at hok
    obtain ⟨-, -, hok⟩ := hok
    split at hok
    · simp only [pure_ok, Except.ok.injEq] at hok
      subst hok
      cases hlive
    · simp only [pure_ok, Except.ok.injEq] at hok
      subst hok
      exact promoteDue_emits s
  | settleWeek =>
    simp only [dispatch, TokenContractCalls.settleWeek, require_bind_ok] at hok
    obtain ⟨-, -, -, -, hok⟩ := hok
    split at hok
    · simp only [pure_ok, Except.ok.injEq] at hok
      subst hok
      cases hlive
    · simp only [pure_ok, Except.ok.injEq] at hok
      subst hok
      exact settleWeekBooks_emits E s
  | withdrawShell a =>
    simp only [dispatch, TokenContractCalls.withdrawShell, require_bind_ok] at hok
    obtain ⟨-, -, -, -, hok⟩ := hok
    split at hok
    · simp only [pure_ok, Except.ok.injEq] at hok
      subst hok
      cases hlive
    · simp only [pure_ok, Except.ok.injEq] at hok
      subst hok
      exact drawn_emits a s

end TokenContractEvents
