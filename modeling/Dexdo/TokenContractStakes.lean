import Dexdo.TokenContractExitCost

/-! # The stake of a dispute under both resolutions

`releaseDispute` and `resolveDisputeTimeout` both take a stake `D` from the bond of a
subscription's buyer. -/
namespace TokenContractStakes

open TokenContractState TokenContractCalls TokenContractCharges TokenContractPayouts
open TokenContractSteps TokenContractInvariant TokenContractExits TokenContractStreaming
open TokenContractClaims TokenContractLedger TokenContractExitCost

variable {E : Env} {m m' : Msg} {s t u : Deal} {c : Call}

/-! ## What each resolution asks for -/

/-- The stakes a resolution hands to `_settleTrustedAndClose`, with the record it settles. -/
structure Terms where
  buyerStake : ℕ
  sellerStake : ℕ
  deal : Deal

/-- `releaseDispute` up to its settlement: the claims are voided before `D` is measured. -/
def releaseTerms (s : Deal) : Terms :=
  let s := s.check (s.periodStart ≤ s.disputeTime)
  let s := chargeWeeksThrough (weeksElapsedAt s.disputeTime s) s
  let s := liftDispute s
  if isSubscription s then ⟨disputeStake s, 0, checkStake s⟩
  else ⟨s.pricePerTick, s.pricePerTick, s⟩

/-- `resolveDisputeTimeout` of a subscription up to its settlement: `D` is measured first. -/
def timeoutTerms (s : Deal) : Terms :=
  let s := s.check (s.periodStart ≤ s.disputeTime)
  let s := chargeWeeksThrough (weeksElapsedAt s.disputeTime s) s
  let d := disputeStake s
  ⟨d, d, liftDispute (checkStake s)⟩

def Terms.settled (E : Env) (x : Terms) : Deal :=
  settleTrustedAndClose E x.buyerStake x.sellerStake x.deal

theorem releaseDisputeBody_terms (E : Env) (s : Deal) :
    releaseDisputeBody E s = (releaseTerms s).settled E := by
  unfold releaseDisputeBody releaseTerms
  dsimp only
  split
  · rfl
  · rfl

theorem chargeWeeksThrough_subWeeks (k : ℕ) (s : Deal) :
    (chargeWeeksThrough k s).subWeeks = s.subWeeks := by
  have hloop : ∀ (n : ℕ) (s : Deal), (chargeWeek^[n] s).subWeeks = s.subWeeks := by
    intro n
    induction n with
    | zero => exact fun _ => rfl
    | succ n ih => exact fun s => ih (chargeWeek s)
  unfold chargeWeeksThrough
  split
  · exact hloop _ s
  · rfl

theorem resolveDisputeTimeoutBody_terms (E : Env) (hsub : s.subWeeks ≠ 0) :
    resolveDisputeTimeoutBody E s = (timeoutTerms s).settled E := by
  have hkind : isSubscription (chargeWeeksThrough (weeksElapsedAt s.disputeTime s)
      (s.check (s.periodStart ≤ s.disputeTime))) = true := by
    have hweeks := chargeWeeksThrough_subWeeks (weeksElapsedAt s.disputeTime s)
      (s.check (s.periodStart ≤ s.disputeTime))
    rw [show (s.check (s.periodStart ≤ s.disputeTime)).subWeeks = s.subWeeks from rfl] at hweeks
    simpa [isSubscription, hweeks] using hsub
  unfold resolveDisputeTimeoutBody timeoutTerms
  exact if_pos hkind

def bondBurned (x : Terms) : ℕ :=
  (payTrusted x.deal).buyerBond -
    (burnStakes x.buyerStake x.sellerStake (payTrusted x.deal)).buyerBond

/-! ## The settlement reaches the bond only through the stake -/

theorem chargeWeeks_buyerBond (k : ℕ) (s : Deal) :
    (chargeWeek^[k] s).buyerBond = s.buyerBond := by
  induction k generalizing s with
  | zero => rfl
  | succ k ih => exact ih (chargeWeek s)

theorem chargeWeeksThrough_buyerBond (k : ℕ) (s : Deal) :
    (chargeWeeksThrough k s).buyerBond = s.buyerBond := by
  unfold chargeWeeksThrough
  split
  · exact chargeWeeks_buyerBond _ s
  · rfl

theorem releaseProbe_buyerBond (s : Deal) : (releaseProbe s).buyerBond = s.buyerBond := by
  unfold releaseProbe
  split
  · rfl
  · rfl

theorem check_buyerBond (p : Prop) [Decidable p] (s : Deal) :
    (s.check p).buyerBond = s.buyerBond := rfl

theorem recordPaid_buyerBond (n : ℕ) (s : Deal) :
    (recordDelivered (payTokens n s)).buyerBond = s.buyerBond := rfl

theorem payTrusted_buyerBond (s : Deal) : (payTrusted s).buyerBond = s.buyerBond := by
  simp only [payTrusted, recordPaid_buyerBond, chargeWeeksThrough_buyerBond, check_buyerBond,
    releaseProbe_buyerBond]

theorem bondBurned_eq (x : Terms) : bondBurned x = min x.buyerStake x.deal.buyerBond := by
  have hpaid := payTrusted_buyerBond x.deal
  have hleft : (burnStakes x.buyerStake x.sellerStake (payTrusted x.deal)).buyerBond =
      (payTrusted x.deal).buyerBond - (if x.buyerStake > (payTrusted x.deal).buyerBond then
        (payTrusted x.deal).buyerBond else x.buyerStake) := rfl
  unfold bondBurned
  rw [hleft, hpaid]
  split <;> omega

/-! ## The bond of a funded subscription -/

def Secured (s : Deal) : Prop :=
  s.funded = true → s.subWeeks ≠ 0 →
    s.buyerBond = bondAmount s.pricePerTick ∧ s.buyerBondFunded = true

theorem Secured.kept (h : Secured s) (hf : t.funded = s.funded) (hw : t.subWeeks = s.subWeeks)
    (hp : t.pricePerTick = s.pricePerTick)
    (hb : s.buyerBondFunded = true →
      t.buyerBond = s.buyerBond ∧ t.buyerBondFunded = s.buyerBondFunded) : Secured t := by
  intro hft hwt
  obtain ⟨hbond, hflag⟩ := h (hf ▸ hft) (hw ▸ hwt)
  obtain ⟨hb, hbf⟩ := hb hflag
  exact ⟨by rw [hb, hp, hbond], hbf.trans hflag⟩

theorem filled_secured {paid : ℕ} {b : Address} {k f : ℕ} (hpos : 0 < s.pricePerTick)
    (h : Filled paid b k f s t) : Secured t := by
  intro _ hsub
  rw [h.eq] at hsub ⊢
  have hflag : f &&& flagSubscription ≠ 0 := by
    intro hz
    simp [hz] at hsub
  simp [fillBond, hflag, bondAmount, hpos]

theorem FreshStep.secured (hb : Base s) (h : Secured s) (hst : FreshStep E m s c t) :
    Secured t := by
  cases hst with
  | relisted _ _ _ hr =>
    rw [hr.eq]
    exact h.kept rfl rfl rfl fun _ => ⟨rfl, rfl⟩
  | filled p b k f _ hfill => exact filled_secured hb.price_pos hfill
  | sellerBonded a c _ _ _ heq =>
    rw [heq]
    exact h.kept rfl rfl rfl fun _ => ⟨rfl, rfl⟩
  | buyerBonded a _ hflag _ heq =>
    rw [heq]
    refine h.kept rfl rfl rfl fun hset => ?_
    rw [hflag] at hset
    cases hset
  | opened c _ _ _ _ heq =>
    rw [heq]
    exact h.kept rfl rfl rfl fun _ => ⟨rfl, rfl⟩
  | accepted _ _ _ heq =>
    rw [heq]
    exact h.kept rfl rfl rfl fun _ => ⟨rfl, rfl⟩
  | disputed _ _ heq =>
    rw [heq]
    exact h.kept rfl rfl rfl fun _ => ⟨rfl, rfl⟩
  | cleaned _ heq =>
    rw [heq]
    intro hf
    cases hf

theorem booked_secured (hb : Base s) (hs : Streaming s) (h : Secured s)
    (hu : Booked (settledBooks s) u) : Secured u := by
  obtain ⟨_, _, _, _, _, _, heq, -⟩ := booked_fields hb hs hu
  rw [heq]
  exact h.kept rfl rfl rfl fun _ => ⟨rfl, rfl⟩

theorem StreamStep.secured (hb : Base s) (hs : Streaming s) (h : Secured s)
    (hst : StreamStep s c t) : Secured t := by
  cases hst with
  | relisted _ _ _ hr =>
    rw [hr.eq]
    exact h.kept rfl rfl rfl fun _ => ⟨rfl, rfl⟩
  | unchanged n _ => exact h
  | claimed n u _ _ _ _ hclaim =>
    rw [hclaim.eq]
    exact (booked_secured hb hs h hclaim.booked).kept rfl rfl rfl fun _ => ⟨rfl, rfl⟩
  | promoted _ _ _ => exact h.kept rfl rfl rfl fun _ => ⟨rfl, rfl⟩
  | settled _ _ hu _ => exact booked_secured hb hs h hu
  | disputed _ _ heq =>
    rw [heq]
    exact h.kept rfl rfl rfl fun _ => ⟨rfl, rfl⟩
  | drew a _ hbal =>
    rw [drawn_eq hbal]
    exact h.kept rfl rfl rfl fun _ => ⟨rfl, rfl⟩

theorem constructed_secured (h : Constructed E s) : Secured s := by
  obtain ⟨m, a, -, h⟩ := h
  simp only [construct, require_bind_ok, pure_ok, Except.ok.injEq] at h
  obtain ⟨-, -, -, -, -, -, -, -, rfl⟩ := h
  intro hf
  simp [Deal.send] at hf

theorem reachable_secured {Φ : Deal → Tx → Prop} (h : Reachable E Φ s)
    (hlive : s.destroyed = false) : Invariant s ∧ Secured s := by
  revert hlive
  refine TransactionSystem.Reachable.invariant
    (I := fun s => s.destroyed = false → Invariant s ∧ Secured s)
    (fun s h _ => ⟨constructed_invariant h, constructed_secured h⟩) ?_ h
  intro s a t ih hadm hok hlive
  obtain ⟨hlives, hd, hf⟩ := exec_ok hok
  obtain ⟨hi, hsec⟩ := ih hlives
  have hin := hi.enter hadm.1.later hadm.1.clock
  have hsin : Secured (enter a.msg s) := hsec.kept rfl rfl rfl fun _ => ⟨rfl, rfl⟩
  refine ⟨exec_invariant hi hadm.1 hok hlive, ?_⟩
  cases ha : (enter a.msg s).probeAccepted with
  | true =>
    have hs := hin.streaming ha
    exact StreamStep.secured hin.base hs hsin (stream_step hin hs hd hf hlive)
  | false => exact FreshStep.secured hin.base hsin (fresh_step hin ha hd hf hlive)

/-! ## Both stakes compared -/

/-- The claim a release voids does not move the stake: it is worth nothing on top of the claims
that stand, or all claims together do not pass the floor, or those that stand reach the cap. -/
def Immaterial (s : Deal) : Prop :=
  chargeOf s.pricePerTick (standing s - bookedBase s) =
      chargeOf s.pricePerTick (s.tokensPend - bookedBase s) ∨
    chargeOf s.pricePerTick (s.tokensPend - bookedBase s) ≤ s.pricePerTick ∨
    bondAmount s.pricePerTick ≤ chargeOf s.pricePerTick (standing s - bookedBase s)

instance (s : Deal) : Decidable (Immaterial s) := by
  unfold Immaterial
  infer_instance

theorem clamp_eq_iff {p x y : ℕ} (hxy : x ≤ y) (hp : 0 < p) :
    min (max p x) (2 * p) = min (max p y) (2 * p) ↔ x = y ∨ y ≤ p ∨ 2 * p ≤ x := by
  omega

theorem stakeOf_agree_iff (hle : standing s ≤ s.tokensPend) (hp : 0 < s.pricePerTick) :
    stakeOf .releaseDispute s = stakeOf .resolveDisputeTimeout s ↔ Immaterial s := by
  have hmono : chargeOf s.pricePerTick (standing s - bookedBase s) ≤
      chargeOf s.pricePerTick (s.tokensPend - bookedBase s) :=
    chargeOf_mono _ (Nat.sub_le_sub_right hle _)
  exact clamp_eq_iff hmono hp

/-- A resolution past the trial burns from the bond the stake that the frozen record fixes. -/
theorem bondBurned_streaming (hb : Base s) (hs : Streaming s) (hd : s.disputed = true)
    (hbond : s.buyerBond = bondAmount s.pricePerTick) (hsub : s.subWeeks ≠ 0) :
    bondBurned (releaseTerms s) = stakeOf .releaseDispute s ∧
      bondBurned (timeoutTerms s) = stakeOf .resolveDisputeTimeout s := by
  obtain ⟨htimeout, hrelease⟩ := stake_taken hb hs hd hbond hsub
  obtain ⟨hbb, hsb⟩ := disputeBooks_invariant hb hs hd
  have hclock := Deal.check_pass (s := s) (disputed_start_le hb hs.toFrozen hd)
  have hvoid := liftDispute_eq hbb hsb
  have hheld : (disputeBooks s).buyerBond = bondAmount s.pricePerTick :=
    (chargeWeeks_buyerBond _ s).trans hbond
  have hkind : isSubscription (voided (standing (disputeBooks s)) (disputeBooks s)) = true := by
    obtain ⟨_, _, _, _, _, _, heq, -⟩ := disputeBooks_marks hb hs hd hsub
    rw [heq]
    simpa [isSubscription, voided] using hsub
  have hcap := (stakeOf_bounds .releaseDispute s).2
  have hcap' := (stakeOf_bounds .resolveDisputeTimeout s).2
  refine ⟨?_, ?_⟩
  · have hterms : releaseTerms s =
        ⟨stakeOf .releaseDispute s, 0,
          checkStake (voided (standing (disputeBooks s)) (disputeBooks s))⟩ := by
      unfold releaseTerms
      simp only [hclock, disputeBooks_eq hs, hvoid, hkind, if_true, hrelease]
    rw [bondBurned_eq, hterms]
    change min _ (disputeBooks s).buyerBond = _
    rw [hheld]
    exact min_eq_left hcap
  · have hterms : timeoutTerms s =
        ⟨stakeOf .resolveDisputeTimeout s, stakeOf .resolveDisputeTimeout s,
          liftDispute (checkStake (disputeBooks s))⟩ := by
      unfold timeoutTerms
      simp only [hclock, disputeBooks_eq hs, htimeout]
    rw [bondBurned_eq, hterms]
    change min _ (disputeBooks s).buyerBond = _
    rw [hheld]
    exact min_eq_left hcap'

theorem trial_immaterial (ht : Trial s) : Immaterial s := by
  refine .inr (.inl ?_)
  rw [ht.tokensPend, Nat.zero_sub]
  simp [chargeOf, valueOf, fee]

theorem bondBurned_trial (hb : Base s) (ht : Trial s) (hd : s.disputed = true)
    (hbond : s.buyerBond = bondAmount s.pricePerTick) (hsub : s.subWeeks ≠ 0) :
    bondBurned (releaseTerms s) = min (disputeStake s) s.buyerBond ∧
      bondBurned (timeoutTerms s) = min (disputeStake s) s.buyerBond := by
  obtain ⟨-, hsame⟩ := trial_stake hb ht hbond hsub
  have hclock := Deal.check_pass (s := s) (disputed_start_le hb ht.toFrozen hd)
  have hvoid : liftDispute s = voided s.tokensFinal s :=
    liftDispute_settled (ht.tokensPend.trans ht.tokensFinal.symm)
  have hweeks : chargeWeeksThrough (weeksElapsedAt s.disputeTime s) s = s := by
    simp [chargeWeeksThrough, ht.unaccepted]
  have hkind : isSubscription (voided s.tokensFinal s) = true := by
    simpa [isSubscription, voided] using hsub
  have hrelease : releaseTerms s = ⟨disputeStake s, 0, checkStake (voided s.tokensFinal s)⟩ := by
    unfold releaseTerms
    simp only [hclock, hweeks, hvoid, hkind, if_true, hsame]
  have htimeout : timeoutTerms s =
      ⟨disputeStake s, disputeStake s, liftDispute (checkStake s)⟩ := by
    unfold timeoutTerms
    simp only [hclock, hweeks]
  rw [bondBurned_eq, bondBurned_eq, hrelease, htimeout]
  exact ⟨rfl, rfl⟩

/-- On every disputed subscription, whoever called what before: a release at any later time burns
from the buyer's bond what the timeout would burn exactly where the claim it voids is
immaterial. -/
theorem resolutions_stake_alike_iff (E : Env) (s : Deal) (m m' : Msg) (h : Reachable E AnyTx s)
    (hlive : s.destroyed = false) (hd : s.disputed = true) (hsub : s.subWeeks ≠ 0)
    (hrelease : Admissible s ⟨m, .releaseDispute⟩)
    (htimeout : Admissible s ⟨m', .resolveDisputeTimeout⟩) :
    releaseDisputeBody E (enter m s) = (releaseTerms (enter m s)).settled E ∧
    resolveDisputeTimeoutBody E (enter m' s) = (timeoutTerms (enter m' s)).settled E ∧
    (bondBurned (releaseTerms (enter m s)) = bondBurned (timeoutTerms (enter m' s)) ↔
      Immaterial s) := by
  have hne : (enter m' s).subWeeks ≠ 0 := hsub
  refine ⟨releaseDisputeBody_terms E _, resolveDisputeTimeoutBody_terms E hne, ?_⟩
  obtain ⟨hi, hsec⟩ := reachable_secured h hlive
  have hin : Invariant (enter m s) := hi.enter hrelease.later hrelease.clock
  have hin' : Invariant (enter m' s) := hi.enter htimeout.later htimeout.clock
  rcases disputed_stage hi hd with ht | hs
  · obtain ⟨hbond, -⟩ := hsec ht.funded hsub
    have htr : Trial (enter m s) := hin.trial ht.opened ht.unaccepted
    have htr' : Trial (enter m' s) := hin'.trial ht.opened ht.unaccepted
    have hreleased := (bondBurned_trial hin.base htr hd hbond hsub).1
    have htimed := (bondBurned_trial hin'.base htr' hd hbond hsub).2
    exact iff_of_true (hreleased.trans htimed.symm) (trial_immaterial ht)
  · obtain ⟨hbond, -⟩ := hsec hs.funded hsub
    have hst : Streaming (enter m s) := hin.streaming hs.accepted
    have hst' : Streaming (enter m' s) := hin'.streaming hs.accepted
    rw [(bondBurned_streaming hin.base hst hd hbond hsub).1,
      (bondBurned_streaming hin'.base hst' hd hbond hsub).2]
    have hle : standing s ≤ s.tokensPend := standing_le hs
    exact stakeOf_agree_iff hle hi.base.price_pos

/-- A subscription whose whole delivery had matured when the buyer disputed it. -/
theorem matured_claim_stakes_alike : ∃ s, Reachable sampleEnv AnyTx s ∧ s.disputed = true ∧
    tickSize < s.tokensPend ∧
    bondBurned (releaseTerms (enter (sellerTx 5000 .releaseDispute).msg s)) =
      bondBurned (timeoutTerms (enter (strangerTx 1300000 .resolveDisputeTimeout).msg s)) := by
  have hplay : (played AnyTx (subscribedSchedule ++
      [sellerTx 700 (.claimTokens 2000000), buyerTx 4400 .dispute])).any (fun s =>
        !s.destroyed && s.disputed && decide (s.subWeeks ≠ 0) && decide (tickSize < s.tokensPend) &&
        decide (Immaterial s) && decide (Admissible s (sellerTx 5000 .releaseDispute)) &&
        decide (Admissible s (strangerTx 1300000 .resolveDisputeTimeout))) = true := by
    decide
  obtain ⟨s, h, hp⟩ := played_reachable hplay
  simp only [Bool.and_eq_true, Bool.not_eq_true', decide_eq_true_eq] at hp
  obtain ⟨⟨⟨⟨⟨⟨hlive, hd⟩, hsub⟩, hpend⟩, him⟩, hrelease⟩, htimeout⟩ := hp
  exact ⟨s, h, hd, hpend, (resolutions_stake_alike_iff sampleEnv s
    (sellerTx 5000 .releaseDispute).msg (strangerTx 1300000 .resolveDisputeTimeout).msg h hlive hd
    hsub hrelease htimeout).2.2.mpr him⟩

/-- The buyer disputes the second tick of his first week while its claim is still open to contest:
the release voids the claim and burns one tick of his bond, the timeout one tick with its fee. -/
theorem contested_claim_stakes_less : ∃ s, Reachable sampleEnv (BookFill sampleEnv) s ∧
    s.destroyed = false ∧ s.disputed = true ∧ s.subWeeks ≠ 0 ∧ s.pricePerTick = 1000000000 ∧
    bondBurned (releaseTerms (enter (sellerTx 1000 .releaseDispute).msg s)) = 1000000000 ∧
    bondBurned (timeoutTerms (enter (strangerTx 1300000 .resolveDisputeTimeout).msg s)) =
      1025000000 := by
  have hplay : (played (BookFill sampleEnv) (subscribedSchedule ++
      [sellerTx 700 (.claimTokens 2000000), buyerTx 730 .dispute])).any (fun s =>
        !s.destroyed && s.disputed && decide (s.subWeeks ≠ 0) &&
        decide (s.pricePerTick = 1000000000) &&
        decide (bondBurned (releaseTerms (enter (sellerTx 1000 .releaseDispute).msg s)) =
          1000000000) &&
        decide (bondBurned (timeoutTerms (enter
          (strangerTx 1300000 .resolveDisputeTimeout).msg s)) = 1025000000)) = true := by
    decide
  obtain ⟨s, h, hp⟩ := played_reachable hplay
  simp only [Bool.and_eq_true, Bool.not_eq_true', decide_eq_true_eq] at hp
  exact ⟨s, h, hp.1.1.1.1.1, hp.1.1.1.1.2, hp.1.1.1.2, hp.1.1.2, hp.1.2, hp.2⟩

end TokenContractStakes
