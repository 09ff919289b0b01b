import Dexdo.TokenContractClaims
import Dexdo.TokenContractSplit

/-! # Disputes

A dispute freezes the deal until it is resolved, so a resolution at any later time pays what
the record said when the dispute rose. Its outcome for the buyer is compared with the `stop`
he could have called instead, at the same instant. -/
namespace TokenContractDisputes

open TokenContractState TokenContractCalls TokenContractCharges TokenContractPayouts
open TokenContractSteps TokenContractInvariant TokenContractExits TokenContractStreaming
open TokenContractClaims TokenContractLedger TokenContractSplit

variable {E : Env} {m : Msg} {s t u v : Deal} {c : Call} {tx : Tx}

/-! ## What a dispute freezes -/

/-- Everything but the listing, the clock and what the seller draws. -/
structure Held (s t : Deal) : Prop where
  eq : t = { s with
    iobHash := t.iobHash, iobDepth := t.iobDepth, noteAuthorized := t.noteAuthorized
    offerPosted := t.offerPosted, finalizedOwed := t.finalizedOwed, balance := t.balance
    now := t.now, fault := t.fault, out := t.out }
  buyer : t.credited .buyer = s.credited .buyer
  drawn : t.finalizedOwed + t.withdrawn = s.finalizedOwed + s.withdrawn

theorem Held.refl (s : Deal) : Held s s := ⟨rfl, rfl, rfl⟩

theorem Held.trans (h : Held s t) (h' : Held t u) : Held s u := by
  refine ⟨?_, h'.buyer.trans h.buyer, h'.drawn.trans h.drawn⟩
  rw [h'.eq]
  rw [h.eq]

theorem held_enter (m : Msg) (s : Deal) : Held s (enter m s) := ⟨rfl, rfl, rfl⟩

theorem relisted_held (h : Relisted s t) : Held s t := by
  have hwd := h.withdrawn
  refine ⟨?_, h.buyer, ?_⟩
  · rw [h.eq]
  · rw [hwd, h.eq]

/-- One more call on a disputed deal that lives on. -/
theorem held_dispatch (hi : Invariant s) (hd : s.disputed = true)
    (hok : dispatch E m s c = .ok t) (hf : t.fault = false) (hlive : t.destroyed = false) :
    Held s t := by
  have hopen : s.opened = true := by
    rcases disputed_stage hi hd with ht | hs
    · exact ht.opened
    · exact hs.opened
  have hundis : s.disputed = false → Held s t := by
    intro h
    rw [hd] at h
    cases h
  have hclosed : s.opened = false → Held s t := by
    intro h
    rw [hopen] at h
    cases h
  cases ha : s.probeAccepted with
  | true =>
    cases stream_step hi (hi.streaming ha) hok hf hlive with
    | relisted _ _ _ hr => exact relisted_held hr
    | unchanged n _ => exact .refl s
    | claimed n u h _ _ _ _ => exact hundis h
    | promoted h _ _ => exact hundis h
    | settled h _ _ _ => exact hundis h
    | disputed h _ _ => exact hundis h
    | drew a howed hbal =>
      have hdrew := drawn_drew a s
      have hwd := hdrew.withdrawn
      refine ⟨?_, hdrew.buyer, ?_⟩
      · rw [drawn_eq hbal]
      · rw [hwd, drawn_eq hbal]
        dsimp only
        omega
  | false =>
    cases fresh_step hi ha hok hf hlive with
    | relisted _ _ _ hr => exact relisted_held hr
    | filled p b k f _ hfill => exact hclosed (hi.closed_of_unfunded hfill.unfunded)
    | sellerBonded a c h _ _ _ => exact hclosed h
    | buyerBonded a h _ _ _ => exact hclosed h
    | opened c _ h _ _ _ => exact hclosed h
    | accepted _ h _ _ => exact hundis h
    | disputed h _ _ => exact hundis h
    | cleaned h _ => exact hclosed h

theorem held_run {Φ : Deal → Tx → Prop} {l : History} (hi : Invariant s) (hd : s.disputed = true)
    (hrun : DealRun E Φ s l t) (hlive : t.destroyed = false) : Invariant t ∧ Held s t := by
  revert hlive
  refine TransactionSystem.Run.invariant
    (I := fun _ t => t.destroyed = false → Invariant t ∧ Held s t) ?_ ?_ hrun
  · exact fun _ => ⟨hi, .refl s⟩
  · intro l u a t ih hΦ hok hlive
    obtain ⟨hlu, hdis, hf⟩ := exec_ok hok
    obtain ⟨hiu, hheld⟩ := ih hlu
    have hdu : u.disputed = true := by
      rw [hheld.eq]
      exact hd
    have hin := hiu.enter hΦ.1.later hΦ.1.clock
    exact ⟨exec_invariant hiu hΦ.1 hok hlive,
      hheld.trans ((held_enter a.msg u).trans (held_dispatch hin hdu hdis hf hlive))⟩

theorem exec_of_dispatch (hlive : s.destroyed = false)
    (hok : dispatch E m (enter m s) c = .ok t) (hf : t.fault = false) :
    exec E ⟨m, c⟩ s = .ok t := by
  simp [exec, perform, hlive, hok, hf]

/-! ## The timeout of an ordinary deal -/

theorem cut_bond (hb : Base s) :
    cut (bondAmount s.pricePerTick) s.buyerBond = s.buyerBond := by
  unfold cut
  rcases hb.buyerBond with h | h
  · rw [h]
    split <;> omega
  · rw [h]
    simp

theorem cut_sellerBond (hb : Base s) (hbonded : s.sellerBondFunded = true) :
    cut (bondAmount s.pricePerTick) s.sellerBond = s.sellerBond := by
  have h : s.sellerBond = bondAmount s.pricePerTick := by
    rw [hb.sellerBond, hbonded]
    rfl
  unfold cut
  rw [h]
  simp

theorem ordinary_paid (hs : Streaming s) (hz : s.subWeeks = 0) : s.tokensPaid = tickSize := by
  have hweeks := hs.weeks
  rw [hs.paid, if_pos (by omega)]

theorem ordinary_trustedOwed (hs : Streaming s) (hz : s.subWeeks = 0) {x p : ℕ}
    (hx : tickSize ≤ x) : trustedOwed (voided x (burnPending p s)) = x - tickSize := by
  have hbase : claimBase (voided x (burnPending p s)) = tickSize := by
    have hpaid := ordinary_paid hs hz
    change claimBase s = tickSize
    simp [claimBase, isSubscription, hz, hpaid]
  unfold trustedOwed
  rw [hbase]
  change (if x > tickSize then x - tickSize else 0) = _
  split <;> omega

/-- What the timeout moves, before anything is known about the ledger. -/
theorem timeout_ordinary_moved (hb : Base s) (hs : Streaming s) (hd : s.disputed = true)
    (hz : s.subWeeks = 0) :
    let n := standing s - tickSize
    let u := burnPending (pendingBurn s) s
    Moved s (resolveDisputeTimeoutBody E s) (u.deposit - taken n u)
      (s.finalizedOwed + sellerPart n u) (s.balance - s.earmarks)
      (pendingBurn s + s.buyerBond + s.sellerBond + s.feeAccrued + feePart n u) := by
  intro n u
  have hle : pendingBurn s ≤ s.deposit := min_le_right _ _
  have htick := hs.tick_le_final.trans (tokensFinal_le_standing hs)
  obtain ⟨hbp, hsp⟩ := burnPending_invariant hb hs hle
  have hclosed : BooksClosed u := by
    change weeksElapsedAt s.disputeTime s ≤ s.weekIndex
    have hcap := weeksElapsedAt_le s.disputeTime s
    omega
  have hclock := disputed_start_le hb hs.toFrozen hd
  have hpay := voided_payable (x := standing s) hbp hsp hclosed hclock (standing_le hs)
  have howed : trustedOwed (voided (standing s) u) = n := ordinary_trustedOwed hs hz htick
  have hmove := settleTrustedAndClose_moved (E := E) (B := bondAmount s.pricePerTick)
    (S := bondAmount s.pricePerTick) hpay.1 hpay.2
  have hstart : Moved u (voided (standing s) u) 0 0 0 0 := .regroup rfl rfl
  have hall := ((burnPending_moved hb.toBacked hle).trans hstart).trans hmove
  have hslack := burnPending_slack hb.toBacked hle
  have hprobe := hs.probeTick
  have hb1 := cut_bond hb
  have hb2 := cut_sellerBond hb hs.bonded
  have hsum := parts_sum n u
  have htk := taken_le n u
  rw [howed] at hall
  rw [resolveDisputeTimeoutBody_ordinary hb hs hd hz]
  -- nothing is frozen and no week is unearned on an ordinary deal
  have hfields : ∀ k : ℕ, ∀ x : ℕ,
      (paidUp k x (unfrozen (voided (standing s) u))).deposit = u.deposit - taken k u ∧
      (paidUp k x (unfrozen (voided (standing s) u))).finalizedOwed =
        s.finalizedOwed + sellerPart k u ∧
      (paidUp k x (unfrozen (voided (standing s) u))).feeAccrued = s.feeAccrued + feePart k u ∧
      disputeRefund (paidUp k x (unfrozen (voided (standing s) u))) =
        (paidUp k x (unfrozen (voided (standing s) u))).deposit := by
    intro k x
    have hun : unfrozen (voided (standing s) u) = voided (standing s) u := by
      have hp : (voided (standing s) u).probeTick = 0 := hprobe
      unfold unfrozen
      rw [hp]
      simp only [Nat.add_zero]
      rw [← hp]
    rw [hun]
    refine ⟨rfl, rfl, rfl, ?_⟩
    unfold disputeRefund
    rw [if_neg]
    have hkind : isSubscription (paidUp k x (voided (standing s) u)) = false := by
      change (s.subWeeks != 0) = false
      simp [hz]
    simp [hkind]
  obtain ⟨h1, h2, h3, h4⟩ := hfields n
    (max (voided (standing s) u).tokensFinal (voided (standing s) u).tokensPaid)
  refine hall.of_eq ?_ ?_ ?_ ?_
  · rw [h4, h1]
    change 0 + 0 + (u.deposit - taken n u +
      (s.buyerBond - cut (bondAmount s.pricePerTick) s.buyerBond)) = _
    rw [hb1]
    omega
  · rw [h2]
    change 0 + 0 + (s.finalizedOwed + sellerPart n u +
      (s.sellerBond - cut (bondAmount s.pricePerTick) s.sellerBond)) = _
    rw [hb2]
    omega
  · change 0 + 0 + (u.balance - u.earmarks) = _
    simpa using hslack
  · rw [h4, h3, Nat.sub_self]
    change pendingBurn s + 0 + (cut (bondAmount s.pricePerTick) s.buyerBond +
      cut (bondAmount s.pricePerTick) s.sellerBond + 0 + (s.feeAccrued + feePart n u)) = _
    rw [hb1, hb2]
    omega

/-- Each claimed token is charged once: the claimed and unpaid tokens leave the deposit, the part
that had matured goes to the seller, and the rest is burned with the fees and the bonds. -/
structure ChargedOnce (s t : Deal) : Prop where
  escrow : paidOut .buyer s t + chargeOf s.pricePerTick (s.tokensPend - s.tokensPaid) = s.deposit
  seller : paidOut .seller s t =
    s.finalizedOwed + valueOf s.pricePerTick (standing s - s.tokensPaid)
  burned : t.burned - s.burned = chargeOf s.pricePerTick (s.tokensPend - standing s) +
    fee (valueOf s.pricePerTick (standing s - s.tokensPaid)) + s.feeAccrued + s.buyerBond +
    s.sellerBond

def Overlooked (s : Deal) : Prop :=
  s.tokensFinal < s.tokensPend ∧ s.lastClaimTime + claimPromoteWindow ≤ s.disputeTime

theorem chargeOf_pos {p n : ℕ} (hp : priceStep ∣ p) (hpos : 0 < p) (hn : 0 < n) :
    0 < valueOf p n ∧ 0 < chargeOf p n := by
  obtain ⟨q, rfl⟩ := hp
  have hq : 0 < q := by
    rcases Nat.eq_zero_or_pos q with rfl | hq
    · simp at hpos
    · exact hq
  rw [valueOf_step, chargeOf_step]
  exact ⟨by positivity, by positivity⟩

theorem sellerPart_full {n : ℕ} (hpos : 0 < valueOf s.pricePerTick n)
    (h : sellerPart n s = valueOf s.pricePerTick n) :
    feePart n s = fee (valueOf s.pricePerTick n) := by
  unfold sellerPart clampedPay at h
  unfold feePart
  split at h
  · rename_i hclamp
    unfold clampedFee at h ⊢
    rw [if_pos hclamp] at h ⊢
    split at h
    · omega
    · rename_i hroom
      rw [if_neg hroom]
  · rename_i hroom
    exact clampedFee_of_le (by omega)

theorem pendingCharge_eq (hs : Streaming s) :
    pendingCharge s = chargeOf s.pricePerTick (s.tokensPend - s.tokensFinal) := by
  have hle := hs.final_le_pend
  unfold pendingCharge
  split
  · rfl
  · rw [show s.tokensPend - s.tokensFinal = 0 by omega]
    simp [chargeOf, valueOf, fee]

theorem ordinary_room (hs : Streaming s) (hl : Ledger s) (hz : s.subWeeks = 0) {x : ℕ}
    (hlo : tickSize ≤ x) (hhi : x ≤ s.tokensPend) :
    chargeOf s.pricePerTick (x - tickSize) + chargeOf s.pricePerTick (s.tokensPend - x) =
      chargeOf s.pricePerTick (s.tokensPend - tickSize) ∧
    chargeOf s.pricePerTick (s.tokensPend - tickSize) ≤ s.deposit := by
  have hw := hl.whole hs.funded
  have hpaid := ordinary_paid hs hz
  have hpend := hs.pend_le_funded
  refine ⟨?_, ?_⟩
  · have hsum : x - tickSize + (s.tokensPend - x) = s.tokensPend - tickSize := by omega
    rw [← chargeOf_add hw.step, hsum]
  · exact charge_le_deposit hw (hl.paying hs.accepted) (by omega)

theorem chargedOnce_iff (hb : Base s) (hs : Streaming s) (hl : Ledger s) (hz : s.subWeeks = 0)
    {r : ℕ}
    (hmove : Moved s t
      ((burnPending (pendingBurn s) s).deposit -
        taken (standing s - tickSize) (burnPending (pendingBurn s) s))
      (s.finalizedOwed + sellerPart (standing s - tickSize) (burnPending (pendingBurn s) s)) r
      (pendingBurn s + s.buyerBond + s.sellerBond + s.feeAccrued +
        feePart (standing s - tickSize) (burnPending (pendingBurn s) s))) :
    ChargedOnce s t ↔ ¬ Overlooked s := by
  have hw := hl.whole hs.funded
  have hpaid := ordinary_paid hs hz
  have hfinal := hs.tick_le_final
  have hle := hs.final_le_pend
  have hseller := hmove.seller
  have hbuyer := hmove.buyer
  have hburned := hmove.burned
  obtain ⟨hsplit, hroom⟩ := ordinary_room hs hl hz hfinal hle
  have hburn : pendingBurn s = chargeOf s.pricePerTick (s.tokensPend - s.tokensFinal) := by
    unfold pendingBurn
    rw [pendingCharge_eq hs]
    exact min_eq_left (by omega)
  have hdep : (burnPending (pendingBurn s) s).deposit = s.deposit - pendingBurn s := rfl
  have hprice : (burnPending (pendingBurn s) s).pricePerTick = s.pricePerTick := rfl
  constructor
  · -- the burn of an overlooked claim has to come from somewhere
    rintro ⟨-, hpay, hfees⟩ ⟨hgt, hmat⟩
    have hstand : standing s = s.tokensPend := if_pos hmat
    have hpos := chargeOf_pos hw.step hb.price_pos (show 0 < s.tokensPend - s.tokensFinal by omega)
    have hvalue := chargeOf_pos hw.step hb.price_pos
      (show 0 < s.tokensPend - tickSize by omega)
    unfold paidOut at hpay
    rw [hstand, hpaid] at hpay hfees
    rw [hstand] at hseller hburned
    have hfull := sellerPart_full (s := burnPending (pendingBurn s) s)
      (n := s.tokensPend - tickSize) (by rw [hprice]; exact hvalue.1) (by rw [hprice]; omega)
    rw [hprice] at hfull
    rw [Nat.sub_self] at hfees
    simp only [chargeOf, valueOf, fee, Nat.zero_mul, Nat.zero_div] at hfees hpos hburn hfull
    omega
  · intro hnot
    have hstand : standing s = s.tokensFinal := by
      unfold standing
      split
      · rename_i hmat
        have : ¬ s.tokensFinal < s.tokensPend := fun hgt => hnot ⟨hgt, hmat⟩
        omega
      · rfl
    have hfit : chargeOf (burnPending (pendingBurn s) s).pricePerTick (s.tokensFinal - tickSize) ≤
        (burnPending (pendingBurn s) s).deposit := by
      rw [hprice, hdep]
      omega
    rw [hstand, taken_whole hfit, hdep, hprice] at hbuyer
    rw [hstand, sellerPart_whole hfit, hprice] at hseller
    rw [hstand, feePart_whole hfit, hprice] at hburned
    refine ⟨?_, ?_, ?_⟩
    · unfold paidOut
      rw [hpaid]
      omega
    · unfold paidOut
      rw [hstand, hpaid]
      omega
    · rw [hstand, hpaid]
      omega

/-! ## A dispute from the state it was raised in to its resolution -/

/-- The record `s` waits for the resolution of the dispute raised on `s₀` by the message `d`. -/
structure Waiting (s₀ : Deal) (d : Msg) (s : Deal) : Prop where
  opened : s₀.opened = true
  undisputed : s₀.disputed = false
  raisedBy : d.sender = s₀.buyer
  live₀ : s₀.destroyed = false
  live : s.destroyed = false
  before : Invariant (enter d s₀)
  ledger₀ : Ledger s₀
  now : Invariant s
  ledger : Ledger s
  credited : s.credited .buyer = s₀.credited .buyer
  eq : s = { s₀ with
    disputed := true, everDisputed := true, disputeTime := d.now
    iobHash := s.iobHash, iobDepth := s.iobDepth, noteAuthorized := s.noteAuthorized
    offerPosted := s.offerPosted, finalizedOwed := s.finalizedOwed, balance := s.balance
    now := s.now, fault := s.fault, out := s.out }

theorem waiting_of_run {s₀ s₁ s : Deal} {d : Msg} {l : History}
    (h : Reachable E (BookFill E) s₀) (hadm : Admissible s₀ ⟨d, .dispute⟩)
    (hdis : exec E ⟨d, .dispute⟩ s₀ = .ok s₁) (hrun : DealRun E (BookFill E) s₁ l s)
    (hlive : s.destroyed = false) : Waiting s₀ d s := by
  obtain ⟨hlive₀, hd, -⟩ := exec_ok hdis
  obtain ⟨hi₀, hl₀⟩ := reachable_ledger (fun _ _ h => h) h hlive₀
  obtain ⟨hm, ho, hund, hq, heq⟩ := dispute_ok hd
  have hlive₁ : s₁.destroyed = false := by
    rw [heq]
    exact hlive₀
  have hd₁ : s₁.disputed = true := by rw [heq]
  have hi₁ := exec_invariant hi₀ hadm hdis hlive₁
  obtain ⟨hi, hheld⟩ := held_run hi₁ hd₁ hrun hlive
  have hbook : BookFill E s₀ ⟨d, .dispute⟩ := by
    intro f hf
    simp [fillOf] at hf
  have hreach : Reachable E (BookFill E) s :=
    TransactionSystem.Run.reachable hrun (.step h ⟨hadm, hbook⟩ hdis)
  refine ⟨ho, hund, hm, hlive₀, hlive, hi₀.enter hadm.later hadm.clock, hl₀, hi,
    (reachable_ledger (fun _ _ h => h) hreach hlive).2, hheld.buyer.trans hq.buyer, ?_⟩
  rw [hheld.eq]
  rw [heq]
  rfl

theorem Waiting.stop {s₀ : Deal} {d : Msg} (h : Waiting s₀ d s) :
    ∃ v, v = stopBody E (enter d s₀) ∧ exec E ⟨d, .stop⟩ s₀ = .ok v := by
  refine ⟨_, rfl, exec_of_dispatch h.live₀ ?_ ?_⟩
  · simp only [dispatch, TokenContractCalls.stop, require_bind_ok, pure_ok]
    exact ⟨h.opened, h.raisedBy, h.undisputed, trivial⟩
  · have hok : TokenContractCalls.stop E d (enter d s₀) = .ok (stopBody E (enter d s₀)) := by
      simp only [TokenContractCalls.stop, require_bind_ok, pure_ok]
      exact ⟨h.opened, h.raisedBy, h.undisputed, trivial⟩
    obtain ⟨_, _, _, hmove⟩ := stop_settles h.before hok
    exact hmove.fault

theorem Waiting.timeout {s₀ : Deal} {d : Msg} (h : Waiting s₀ d s) (hadm : Admissible s ⟨m, c⟩)
    (hwin : d.now + disputeWindow ≤ m.now) :
    exec E ⟨m, .resolveDisputeTimeout⟩ s =
      .ok (resolveDisputeTimeoutBody E (enter m s)) := by
  have hi := h.now.enter hadm.later hadm.clock
  have hd : (enter m s).disputed = true := by
    change s.disputed = true
    rw [h.eq]
  have htime : (enter m s).disputeTime + disputeWindow ≤ (enter m s).now := by
    change s.disputeTime + disputeWindow ≤ m.now
    rw [h.eq]
    exact hwin
  have hok : resolveDisputeTimeout E (enter m s) =
      .ok (resolveDisputeTimeoutBody E (enter m s)) := by
    have hpass := Deal.check_pass (s := enter m s) (disputeTime_lt hi hd)
    simp only [resolveDisputeTimeout, require_bind_ok, pure_ok]
    exact ⟨hd, htime, by rw [hpass]⟩
  obtain ⟨_, _, _, hmove⟩ := resolveDisputeTimeout_settles hi hok
  exact exec_of_dispatch h.live hok hmove.fault

theorem Waiting.release {s₀ : Deal} {d : Msg} (h : Waiting s₀ d s) (hadm : Admissible s ⟨m, c⟩)
    (hkey : m.pubkey = s.sellerPubkey) :
    exec E ⟨m, .releaseDispute⟩ s = .ok (releaseDisputeBody E (enter m s)) := by
  have hi := h.now.enter hadm.later hadm.clock
  have hd : (enter m s).disputed = true := by
    change s.disputed = true
    rw [h.eq]
  have hok : releaseDispute E m (enter m s) = .ok (releaseDisputeBody E (enter m s)) := by
    simp only [releaseDispute, require_bind_ok, pure_ok]
    exact ⟨hkey, hd, trivial⟩
  obtain ⟨_, _, _, hmove⟩ := releaseDispute_settles hi hok
  exact exec_of_dispatch h.live hok hmove.fault

theorem stop_credit_ordinary (hb : Base s) (hs : Streaming s) (hl : Ledger s)
    (hz : s.subWeeks = 0) :
    (stopBody E s).credited .buyer = s.credited .buyer +
      (s.deposit - chargeOf s.pricePerTick (s.tokensPend - tickSize) +
        (s.buyerBond - cut s.pricePerTick s.buyerBond)) := by
  have htick := hs.tick_le_final.trans hs.final_le_pend
  have hmove := ordinary_close_moved (E := E) (x := s.tokensPend) (y := s.tokensPend)
    (B := s.pricePerTick) (S := 0) hb hs hz le_rfl htick
  have hroom := (ordinary_room hs hl hz htick le_rfl).2
  have hbuyer := hmove.buyer
  have hdep : ∀ n k : ℕ, (paidUp n k (trusting s.tokensPend s)).deposit =
      s.deposit - taken n s := fun _ _ => rfl
  rw [hdep, taken_whole hroom] at hbuyer
  rw [stopBody_ordinary hb hs hz]
  exact hbuyer

/-- Take any book-funded ordinary deal past its trial, let the buyer dispute it, let anything
happen until the timeout, and compare with the `stop` he could have called instead. The timeout
charges each claimed token once, and leaves the buyer exactly one tick below `stop`, if and only
if the pending claim was not a matured one that nobody had promoted and his bond was on
record. -/
theorem timeout_charges_once (E : Env) (s₀ s₁ s : Deal) (d m : Msg) (l : History)
    (h : Reachable E (BookFill E) s₀) (hadm : Admissible s₀ ⟨d, .dispute⟩)
    (hkind : s₀.subWeeks = 0) (hacc : s₀.probeAccepted = true)
    (hdis : exec E ⟨d, .dispute⟩ s₀ = .ok s₁) (hrun : DealRun E (BookFill E) s₁ l s)
    (hlive : s.destroyed = false) (hlate : Admissible s ⟨m, .resolveDisputeTimeout⟩)
    (hwin : d.now + disputeWindow ≤ m.now) :
    ∃ t v, exec E ⟨m, .resolveDisputeTimeout⟩ s = .ok t ∧ exec E ⟨d, .stop⟩ s₀ = .ok v ∧
      (ChargedOnce s t ∧ paidOut .buyer s t + s₀.pricePerTick = paidOut .buyer s₀ v ↔
        ¬ (s₀.tokensFinal < s₀.tokensPend ∧ s₀.lastClaimTime + claimPromoteWindow ≤ d.now) ∧
          s₀.buyerBond = bondAmount s₀.pricePerTick) := by
  have hwait := waiting_of_run h hadm hdis hrun hlive
  obtain ⟨v, hv, hstop⟩ := hwait.stop (E := E)
  refine ⟨_, v, hwait.timeout hlate hwin, hstop, ?_⟩
  -- the two records the figures are read from
  have hi := hwait.now.enter hlate.later hlate.clock
  have hsame : s.probeAccepted = s₀.probeAccepted ∧ s.subWeeks = s₀.subWeeks ∧
      s.disputed = true ∧ s.tokensPaid = s₀.tokensPaid ∧ s.tokensPend = s₀.tokensPend ∧
      s.deposit = s₀.deposit ∧ s.pricePerTick = s₀.pricePerTick ∧
      (Overlooked s ↔ s₀.tokensFinal < s₀.tokensPend ∧
        s₀.lastClaimTime + claimPromoteWindow ≤ d.now) := by
    rw [hwait.eq]
    exact ⟨rfl, rfl, rfl, rfl, rfl, rfl, rfl, Iff.rfl⟩
  obtain ⟨e1, e2, e3, e4, e5, e6, e7, hover⟩ := hsame
  have hs : Streaming (enter m s) := hi.streaming (e1.trans hacc)
  have hs₀ : Streaming (enter d s₀) := hwait.before.streaming hacc
  have hz : (enter m s).subWeeks = 0 := e2.trans hkind
  have honce : ChargedOnce s (resolveDisputeTimeoutBody E (enter m s)) ↔ ¬ Overlooked s := by
    have hiff := chargedOnce_iff hi.base hs (enter_ledger hwait.ledger m) hz
      (timeout_ordinary_moved (E := E) hi.base hs e3 hz)
    exact ⟨fun h => hiff.mp { h with }, fun h => { hiff.mpr h with }⟩
  have hcredit := stop_credit_ordinary (E := E) hwait.before.base hs₀
    (enter_ledger hwait.ledger₀ d) hkind
  have hpaid : (enter m s).tokensPaid = tickSize := ordinary_paid hs hz
  change s.tokensPaid = tickSize at hpaid
  have hbond : s₀.buyerBond = 0 ∨ s₀.buyerBond = bondAmount s₀.pricePerTick :=
    hwait.before.base.buyerBond
  have hpos : 0 < s₀.pricePerTick := hwait.before.base.price_pos
  have hroom := (ordinary_room hs₀ (enter_ledger hwait.ledger₀ d) hkind
    (hs₀.tick_le_final.trans hs₀.final_le_pend) le_rfl).2
  change chargeOf s₀.pricePerTick (s₀.tokensPend - tickSize) ≤ s₀.deposit at hroom
  -- `stop` leaves him the deposit less his claims, and all but one tick of his bond
  have hvpaid : paidOut .buyer s₀ v =
      s₀.deposit - chargeOf s₀.pricePerTick (s₀.tokensPend - tickSize) +
        (s₀.buyerBond - cut s₀.pricePerTick s₀.buyerBond) := by
    unfold paidOut
    rw [hv, hcredit]
    exact Nat.add_sub_cancel_left (s₀.credited .buyer) _
  rw [← hover]
  constructor
  · rintro ⟨hc, hone⟩
    refine ⟨honce.mp hc, ?_⟩
    have hesc := hc.escrow
    rw [e5, e6, e7, hpaid] at hesc
    rcases hbond with hb | hb
    · rw [hvpaid, hb, Nat.zero_sub] at hone
      omega
    · exact hb
  · rintro ⟨hnot, hb⟩
    have hc := honce.mpr hnot
    refine ⟨hc, ?_⟩
    have hesc := hc.escrow
    rw [e5, e6, e7, hpaid] at hesc
    have hcut : cut s₀.pricePerTick (bondAmount s₀.pricePerTick) = s₀.pricePerTick := by
      unfold cut bondAmount
      split <;> omega
    rw [hvpaid, hb, hcut]
    unfold bondAmount
    omega

/-- A claim disputed twenty seconds after it was made, and left to the timeout. -/
theorem timeout_charges_once_unmatured :
    ∃ s₀ s t v, Reachable sampleEnv (BookFill sampleEnv) s₀ ∧
      exec sampleEnv (buyerTx 420 .dispute) s₀ = .ok s ∧
      exec sampleEnv (strangerTx 1020 .resolveDisputeTimeout) s = .ok t ∧
      exec sampleEnv (buyerTx 420 .stop) s₀ = .ok v ∧
      ChargedOnce s t ∧ paidOut .buyer s t + s₀.pricePerTick = paidOut .buyer s₀ v := by
  have hplay : (played (BookFill sampleEnv)
      (openedSchedule ++ [sellerTx 400 (.claimTokens 1500000)])).any (fun s =>
        s.probeAccepted && decide (s.subWeeks = 0) &&
        decide (s.lastClaimTime = 400) && decide (s.buyerBond = bondAmount s.pricePerTick) &&
        decide (Admissible s (buyerTx 420 .dispute)) &&
        (exec sampleEnv (buyerTx 420 .dispute) s).toOption.any (fun u => !u.destroyed &&
          decide (Admissible u (strangerTx 1020 .resolveDisputeTimeout)))) = true := by
    decide
  obtain ⟨s₀, h, hp⟩ := played_reachable hplay
  simp only [Bool.and_eq_true, decide_eq_true_eq] at hp
  obtain ⟨⟨⟨⟨⟨hacc, hkind⟩, hlast⟩, hbond⟩, hadm⟩, hexec⟩ := hp
  obtain ⟨s, hdis, hq⟩ := exec_of_any hexec
  simp only [Bool.and_eq_true, Bool.not_eq_true', decide_eq_true_eq] at hq
  obtain ⟨t, v, ht, hv, hiff⟩ := timeout_charges_once sampleEnv s₀ s s (buyerTx 420 .dispute).msg
    (strangerTx 1020 .resolveDisputeTimeout).msg [] h hadm hkind hacc hdis .nil hq.1 hq.2 (by decide)
  obtain ⟨hone, hstop⟩ := hiff.mpr ⟨fun hover => by
    rw [hlast] at hover
    exact absurd hover.2 (by decide), hbond⟩
  exact ⟨s₀, s, t, v, h, hdis, ht, hv, hone, hstop⟩

/-- The same claim disputed at 470, matured and not promoted: the timeout burns it and pays it, and
the buyer ends a tick and half a claim below `stop`. -/
theorem matured_claim_burned_and_paid :
    ∃ s₀ s t v, Reachable sampleEnv (BookFill sampleEnv) s₀ ∧
      exec sampleEnv (buyerTx 470 .dispute) s₀ = .ok s ∧ s.subWeeks = 0 ∧
      exec sampleEnv (strangerTx 1070 .resolveDisputeTimeout) s = .ok t ∧
      exec sampleEnv (buyerTx 470 .stop) s₀ = .ok v ∧
      paidOut .buyer s t + chargeOf s.pricePerTick (s.tokensPend - s.tokensPaid) ≠ s.deposit ∧
      paidOut .buyer s t + s₀.pricePerTick ≠ paidOut .buyer s₀ v := by
  have hplay : (played (BookFill sampleEnv)
      (openedSchedule ++ [sellerTx 400 (.claimTokens 1500000)])).any (fun s₀ =>
        (exec sampleEnv (buyerTx 470 .stop) s₀).toOption.any (fun v =>
        (exec sampleEnv (buyerTx 470 .dispute) s₀).toOption.any (fun s =>
          decide (s.subWeeks = 0) &&
          (exec sampleEnv (strangerTx 1070 .resolveDisputeTimeout) s).toOption.any (fun t =>
            decide (paidOut .buyer s t + chargeOf s.pricePerTick (s.tokensPend - s.tokensPaid) ≠
              s.deposit) &&
            decide (paidOut .buyer s t + s₀.pricePerTick ≠ paidOut .buyer s₀ v))))) = true := by
    decide
  obtain ⟨s₀, h, hp⟩ := played_reachable hplay
  obtain ⟨v, hv, hp⟩ := exec_of_any hp
  obtain ⟨s, hs, hp⟩ := exec_of_any hp
  simp only [Bool.and_eq_true, decide_eq_true_eq] at hp
  obtain ⟨t, ht, hq⟩ := exec_of_any hp.2
  simp only [Bool.and_eq_true, decide_eq_true_eq] at hq
  exact ⟨s₀, s, t, v, h, hs, hp.1, ht, hv, hq.1, hq.2⟩

end TokenContractDisputes
