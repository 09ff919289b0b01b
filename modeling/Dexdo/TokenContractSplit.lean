import Dexdo.TokenContractLedger

/-! # The split of a clean close

A deal funded by the book and closed without a dispute pays the seller the value of the
settled tokens over its whole life, however claims, weeks and withdrawals were spread, and
returns the rest of the escrow to the buyer. -/
namespace TokenContractSplit

open TokenContractState TokenContractCalls TokenContractCharges TokenContractPayouts
open TokenContractSteps TokenContractInvariant TokenContractExits TokenContractEarmarks
open TokenContractStreaming TokenContractLedger

variable {E : Env} {m : Msg} {s t u v : Deal} {c : Call}

def WholeRun (E : Env) (s : Deal) (tx : Tx) : Prop := BookFill E s tx ∧ BondWhileFunded s tx

instance (E : Env) (s : Deal) (tx : Tx) : Decidable (WholeRun E s tx) :=
  inferInstanceAs (Decidable (BookFill E s tx ∧ BondWhileFunded s tx))

def paidOut (p : Payee) (s t : Deal) : ℕ := t.credited p - s.credited p

def escrow (s : Deal) : ℕ := s.fundedTokens / tickSize * unit s.pricePerTick

def settledWeeks (c : Call) (s : Deal) : ℕ :=
  match c with
  | .stop => weeksStarted s
  | .sellerStop => weeksElapsed s
  | _ => s.subWeeks

/-- Tokens a clean close by `c` pays for over the life of the deal. The accepted trial tick stays
paid even where no week of a subscription is charged. -/
def settledTokens (c : Call) (s : Deal) : ℕ :=
  if s.subWeeks = 0 then (if c = .sellerStop then matured s else s.tokensPend)
  else max tickSize (settledWeeks c s * s.tokensPerWeek)

def trustedTokens (c : Call) (s : Deal) : ℕ :=
  match c with
  | .sellerStop => matured s
  | .stop => if s.subWeeks = 0 then s.tokensPend else matured s
  | _ => s.tokensPend

def buyerBack (c : Call) (s : Deal) : ℕ :=
  if s.subWeeks = 0 ∧ c = .stop then bondAmount s.pricePerTick - s.pricePerTick
  else bondAmount s.pricePerTick

def sellerBack (c : Call) (s : Deal) : ℕ :=
  if s.subWeeks = 0 ∧ c = .sellerStop then bondAmount s.pricePerTick - s.pricePerTick
  else bondAmount s.pricePerTick

def rebatePaid (c : Call) (s : Deal) : ℕ :=
  min (rebate s.pricePerTick (trustedTokens c s / tickSize))
    (fee (valueOf s.pricePerTick (settledTokens c s)))

/-- The split as a whole. -/
structure Split (c : Call) (s t : Deal) : Prop where
  unclamped : t.clamped = false
  seller : s.withdrawn + paidOut .seller s t =
    valueOf s.pricePerTick (settledTokens c s) + sellerBack c s + rebatePaid c s
  buyer : paidOut .buyer s t + valueOf s.pricePerTick (settledTokens c s) +
    fee (valueOf s.pricePerTick (settledTokens c s)) = escrow s + buyerBack c s

/-! ## The clamp flag of the closing chain -/

theorem releaseProbe_clamped : (releaseProbe s).clamped = s.clamped := by
  unfold releaseProbe
  split
  · rfl
  · rfl

theorem settleFees_clamped {clean : Bool} : (settleFees E clean s).clamped = s.clamped := rfl

theorem payOwedAndDie_clamped : (payOwedAndDie s).clamped = s.clamped := rfl

theorem closeClean_clamped : (closeClean E s).clamped = s.clamped := by
  have h := releaseProbe_clamped (s := s)
  unfold closeClean
  generalize releaseProbe s = r at h ⊢
  simp only [payOwedAndDie_clamped, settleFees_clamped, payShell, Deal.send, Deal.sendIf,
    creditSellerBond, recordDelivered, releaseBuyerBond, Deal.check]
  exact h

theorem payFinalAndClose_clamped :
    (payFinalAndClose E s).clamped =
      (s.clamped || decide (chargeOf s.pricePerTick (finalOwed s) > s.deposit)) := by
  unfold payFinalAndClose
  dsimp only
  rw [closeClean_clamped]
  split
  · rfl
  · rfl

/-! ## From a balanced ledger to the figures -/

theorem escrow_eq (hs : Streaming s) (hw : Whole s) :
    escrow s = chargeOf s.pricePerTick s.fundedTokens := by
  obtain ⟨ticks, hshape⟩ := hs.shape
  unfold escrow
  rw [hshape.tokens, Nat.mul_div_cancel _ (by decide), chargeOf_ticks hw.step]

theorem cleanRebate_eq (he : v.everDisputed = false) (ht : tickSize ≤ v.tokensFinal) :
    cleanRebate v = min (rebate v.pricePerTick (v.tokensFinal / tickSize)) v.feeAccrued := by
  unfold cleanRebate rebateDue recordDelivered
  simp [he, show ¬ v.tokensFinal < tickSize by omega]

/-- A close that pays what is left of the record `v` and returns the bonds `b` and `k`. -/
theorem split_of_moved {b k d r : ℕ} (hs : Streaming s) (hw : Whole s) (hp : Paying v)
    (hprice : v.pricePerTick = s.pricePerTick) (hfunded : v.fundedTokens = s.fundedTokens)
    (hdrawn : v.withdrawn = s.withdrawn) (hpaid : v.tokensPaid = settledTokens c s)
    (hfinal : v.tokensFinal = trustedTokens c s) (htick : tickSize ≤ trustedTokens c s)
    (hever : v.everDisputed = false) (hb : b = buyerBack c s) (hk : k = sellerBack c s)
    (hmove : Moved s t (v.deposit + b) (v.finalizedOwed + k + cleanRebate v) r d)
    (hclamped : t.clamped = false) : Split c s t := by
  have hesc := hp.escrow
  have howed := hp.owed
  have hfees := hp.fees
  have hrebate : cleanRebate v = rebatePaid c s := by
    rw [cleanRebate_eq hever (by omega), hfees, hprice, hpaid, hfinal]
    rfl
  have hbuyer := hmove.buyer
  have hseller := hmove.seller
  rw [hprice, hfunded, hpaid, ← escrow_eq hs hw] at hesc
  rw [hprice, hpaid, hdrawn] at howed
  unfold chargeOf at hesc
  refine ⟨hclamped, ?_, ?_⟩
  · unfold paidOut
    omega
  · unfold paidOut
    omega

theorem trusting_ledger {x : ℕ} (hw : Whole s) (hp : Paying s) :
    Whole (trusting x s) ∧ Paying (trusting x s) := ⟨{ hw with }, { hp with }⟩

/-! ## Subscriptions -/

/-- The books of a subscription after `n` of its weeks, the trusted mark at `x`. -/
theorem weeks_settled {x n : ℕ} (hb : Base s) (hs : Streaming s) (hl : Ledger s)
    (hsub : s.subWeeks ≠ 0) (hn : n = settledWeeks c s) (hlo : s.weekIndex ≤ n)
    (hhi : n ≤ s.subWeeks) :
    let v := chargeWeek^[n - s.weekIndex] (trusting x s)
    Paying v ∧ v.clamped = false ∧ v.tokensPaid = settledTokens c s ∧
      ∃ cl d o f p b, v = { trusting x s with
        clamped := cl, deposit := d, finalizedOwed := o, feeAccrued := f
        tokensPaid := p, weekIndex := s.weekIndex + (n - s.weekIndex), weekBaseTokens := b } := by
  intro v
  have hw := hl.whole hs.funded
  obtain ⟨hwx, hpx⟩ := trusting_ledger (x := x) hw (hl.paying hs.accepted)
  have hk : s.weekIndex + (n - s.weekIndex) ≤ s.subWeeks := by omega
  have hbehind := Streaming.behind hs hw hsub
  have hroll : Rolling (trusting x s) :=
    ⟨{ hb.toBacked with }, { Invariant.weekly hb hs with }, hwx, hpx, hbehind⟩
  obtain ⟨hv, hclamped⟩ := chargeWeeks_rolling hroll (n - s.weekIndex) hk
  obtain ⟨cl, d, o, f, p, b, heq, -, hzero, hpos⟩ :=
    chargeWeeks_spec hroll.backed hroll.weekly (n - s.weekIndex) hk
  have hquota := hw.quota hsub
  have hpaid : p = settledTokens c s := by
    unfold settledTokens
    rw [if_neg hsub, ← hn]
    rcases Nat.eq_or_lt_of_le hlo with h | h
    · obtain ⟨rfl, -⟩ := hzero (by omega)
      change s.tokensPaid = _
      rw [hs.paid, h]
      split
      · rename_i hz
        simp [hz]
      · have := Nat.mul_le_mul_right s.tokensPerWeek (show 1 ≤ n by omega)
        rw [max_eq_right (by omega)]
    · obtain ⟨rfl, -⟩ := hpos (by omega)
      change (s.weekIndex + (n - s.weekIndex)) * s.tokensPerWeek = _
      have := Nat.mul_le_mul_right s.tokensPerWeek (show 1 ≤ n by omega)
      rw [Nat.add_sub_cancel' hlo, max_eq_right (by omega)]
  refine ⟨hv.paying, hclamped.trans hl.unclamped, ?_, cl, d, o, f, p, b, heq⟩
  rw [show v = _ from heq]
  exact hpaid

/-- A subscription closed after `n` of its weeks are booked. -/
theorem weeks_split {x n : ℕ} (hb : Base s) (hs : Streaming s) (hl : Ledger s)
    (hund : s.disputed = false) (hsub : s.subWeeks ≠ 0) (hx : x = trustedTokens c s)
    (hxle : x ≤ s.tokensPend) (htick : tickSize ≤ x) (hn : n = settledWeeks c s)
    (hlo : s.weekIndex ≤ n) (hhi : n ≤ s.subWeeks)
    (ht : t = payFinalAndClose E (chargeWeek^[n - s.weekIndex] (trusting x s))) :
    Split c s t := by
  have hw := hl.whole hs.funded
  have hk : s.weekIndex + (n - s.weekIndex) ≤ s.subWeeks := by omega
  obtain ⟨hpaying, hclamped, hpaid, cl, d, o, f, p, b, heq⟩ :=
    weeks_settled (x := x) hb hs hl hsub hn hlo hhi
  have hmove := weeks_close_moved (E := E) (x := x) (k := n - s.weekIndex) hb hs hsub hxle hk
  have hcl := payFinalAndClose_clamped (E := E)
    (s := chargeWeek^[n - s.weekIndex] (trusting x s))
  generalize chargeWeek^[n - s.weekIndex] (trusting x s) = v at *
  have hbond : s.buyerBond = buyerBack c s := by
    rw [(hw.bond hsub).1]
    simp [buyerBack, hsub]
  have hsbond : s.sellerBond = sellerBack c s := by
    rw [hb.sellerBond, hs.bonded]
    simp [sellerBack, hsub]
  have hever : s.everDisputed = false := hb.ever.trans hund
  have howed : finalOwed v = 0 := by
    apply finalOwed_subscription
    rw [heq]
    exact hsub
  have hnoclamp : (payFinalAndClose E v).clamped = false := by
    rw [hcl, howed, hclamped]
    simp [chargeOf, valueOf, fee]
  rw [ht]
  refine split_of_moved hs hw hpaying ?_ ?_ ?_ hpaid ?_ (hx ▸ htick) ?_ hbond hsbond hmove hnoclamp
  all_goals rw [heq]
  · rfl
  · rfl
  · rfl
  · exact hx
  · exact hever

/-! ## Ordinary deals -/

theorem paidUp_frame (n k x : ℕ) (s : Deal) :
    (paidUp n k (trusting x s)).pricePerTick = s.pricePerTick ∧
    (paidUp n k (trusting x s)).fundedTokens = s.fundedTokens ∧
    (paidUp n k (trusting x s)).withdrawn = s.withdrawn ∧
    (paidUp n k (trusting x s)).everDisputed = s.everDisputed :=
  ⟨rfl, rfl, rfl, rfl⟩

/-- An ordinary deal closed at the trusted mark `x` with the forfeits `B` and `S`. -/
theorem ordinary_split {x y B S : ℕ} (hb : Base s) (hs : Streaming s) (hl : Ledger s)
    (hund : s.disputed = false) (hz : s.subWeeks = 0) (hbond : s.buyerBond = bondAmount s.pricePerTick)
    (hx : x = trustedTokens c s) (hpaid : x = settledTokens c s) (hxle : x ≤ s.tokensPend)
    (htick : tickSize ≤ x) (hfb : B = if c = .stop then s.pricePerTick else 0)
    (hfs : S = if c = .sellerStop then s.pricePerTick else 0)
    (ht : t = payFinalAndClose E (burnStakes B S { trusting x s with tokensPend := y })) :
    Split c s t := by
  have hw := hl.whole hs.funded
  obtain ⟨hwx, hpx⟩ := trusting_ledger (x := x) hw (hl.paying hs.accepted)
  have htp : (trusting x s).tokensPaid = tickSize := by
    have hweeks := hs.weeks
    exact hs.paid.trans (if_pos (by omega))
  have hsum : (trusting x s).tokensPaid + (x - tickSize) = x := by omega
  have hroom : (trusting x s).tokensPaid + (x - tickSize) ≤ (trusting x s).fundedTokens := by
    rw [hsum]
    exact hxle.trans hs.pend_le_funded
  have hle := charge_le_deposit hwx hpx hroom
  have hp := (paidUp_paying hwx hpx hroom).1
  rw [hsum] at hp
  have hmove := ordinary_close_moved (E := E) (x := x) (y := y) (B := B) (S := S) hb hs hz
    hxle htick
  have hback : Backed { trusting x s with tokensPend := y } := { hb.toBacked with }
  have hstakes := burnStakes_eq (B := B) (S := S) hback
  have howed : finalOwed (trusting x s) = x - tickSize := by
    unfold finalOwed
    rw [htp]
    simp only [trusting, isSubscription, hz]
    by_cases hgt : x > tickSize
    · simp [hgt]
    · simp [hgt]
      omega
  have hcut : ∀ a : ℕ, a ≤ bondAmount s.pricePerTick → cut a (bondAmount s.pricePerTick) = a := by
    intro a ha
    exact if_neg (by omega)
  have hone : s.pricePerTick ≤ bondAmount s.pricePerTick := by
    unfold bondAmount
    omega
  have hsb : s.sellerBond = bondAmount s.pricePerTick := by
    rw [hb.sellerBond, hs.bonded]
    rfl
  obtain ⟨hprice, hfunded, hdrawn, hever⟩ := paidUp_frame (x - tickSize) x x s
  rw [ht]
  refine split_of_moved (b := s.buyerBond - cut B s.buyerBond)
    (k := s.sellerBond - cut S s.sellerBond) hs hw hp hprice hfunded hdrawn hpaid hx (hx ▸ htick)
    (hever.trans (hb.ever.trans hund)) ?_ ?_ hmove ?_
  · rw [hbond, hcut B (by rw [hfb]; split <;> omega), hfb]
    unfold buyerBack
    by_cases hc : c = .stop
    · simp [hc, hz]
    · simp [hc]
  · rw [hsb, hcut S (by rw [hfs]; split <;> omega), hfs]
    unfold sellerBack
    by_cases hc : c = .sellerStop
    · simp [hc, hz]
    · simp [hc]
  · have hroom' : chargeOf s.pricePerTick (finalOwed (trusting x s)) ≤ s.deposit := by
      rw [howed]
      exact hle
    rw [payFinalAndClose_clamped, hstakes]
    change (s.clamped ||
      decide (chargeOf s.pricePerTick (finalOwed (trusting x s)) > s.deposit)) = false
    simp [hl.unclamped, hroom']

/-! ## Every clean close -/

theorem stop_split (hi : Invariant s) (hs : Streaming s) (hl : Ledger s)
    (hbond : s.buyerBond = bondAmount s.pricePerTick) (hok : stop E m s = .ok t) :
    Split .stop s t := by
  simp only [stop, require_bind_ok, pure_ok, Except.ok.injEq] at hok
  obtain ⟨-, -, hd, ht⟩ := hok
  have htick := hs.tick_le_final
  by_cases hz : s.subWeeks = 0
  · rw [stopBody_ordinary hi.base hs hz] at ht
    exact ordinary_split (x := s.tokensPend) (y := s.tokensPend) (B := s.pricePerTick) (S := 0)
      hi.base hs hl hd hz hbond (by simp [trustedTokens, hz]) (by simp [settledTokens, hz]) le_rfl
      (htick.trans hs.final_le_pend) (by simp) (by simp) ht.symm
  · rw [stopBody_subscription hi.base hs hz] at ht
    exact weeks_split (x := matured s) (n := weeksStarted s) hi.base hs hl hd hz
      (by simp [trustedTokens, hz]) (matured_le hs) (htick.trans (tokensFinal_le_matured hs)) rfl
      (weeksStarted_ge hs) (weeksStartedAt_le _ _) ht.symm

theorem sellerStop_split (hi : Invariant s) (hs : Streaming s) (hl : Ledger s)
    (hbond : s.buyerBond = bondAmount s.pricePerTick) (hok : sellerStop E m s = .ok t) :
    Split .sellerStop s t := by
  simp only [sellerStop, require_bind_ok, pure_ok, Except.ok.injEq] at hok
  obtain ⟨-, -, hd, ht⟩ := hok
  have htick := hs.tick_le_final.trans (tokensFinal_le_matured hs)
  by_cases hz : s.subWeeks = 0
  · rw [sellerStopBody_ordinary hi.base hs hz] at ht
    exact ordinary_split (x := matured s) (y := matured s) (B := 0) (S := s.pricePerTick)
      hi.base hs hl hd hz hbond rfl (by simp [settledTokens, hz]) (matured_le hs) htick (by simp)
      (by simp) ht.symm
  · rw [sellerStopBody_subscription hi.base hs hz] at ht
    exact weeks_split (x := matured s) (n := weeksElapsed s) hi.base hs hl hd hz rfl
      (matured_le hs) htick rfl (weeksElapsed_ge hs) (weeksElapsedAt_le _ _) ht.symm

theorem finalize_split (hi : Invariant s) (hs : Streaming s) (hl : Ledger s)
    (hbond : s.buyerBond = bondAmount s.pricePerTick) (hlive : s.destroyed = false)
    (hok : finalize E s = .ok t) (hdead : t.destroyed = true) : Split .finalize s t := by
  obtain ⟨-, hd, hp, -, rfl | ⟨hz, -, ht⟩⟩ := finalize_ok hok hi.base.promote_lt
  · rw [hlive] at hdead
    cases hdead
  · have hback : Backed { trusting s.tokensPend s with tokensPend := s.tokensPend } :=
      { hi.base.toBacked with }
    have hnone := burnStakes_none hback
    refine ordinary_split (x := s.tokensPend) (y := s.tokensPend) (B := 0) (S := 0)
      hi.base hs hl hd hz hbond rfl (by simp [settledTokens, hz]) le_rfl
      (hs.tick_le_final.trans hs.final_le_pend) (by simp) (by simp) ?_ (E := E)
    rw [hnone, ht]
    rfl

/-- `settleWeek` closes from books that hold the whole term. -/
theorem settleWeek_split (hi : Invariant s) (hl : Ledger s) (hlive : s.destroyed = false)
    (hok : settleWeek E s = .ok t) (hdead : t.destroyed = true) : Split .settleWeek s t := by
  obtain ⟨hsub, hs, hd, -, u, hu, hbu, hsu, ⟨rfl, -⟩ | ⟨hall, -, ht⟩⟩ := settleWeek_inv hi hok
  · obtain ⟨_, _, _, _, _, _, heq, -⟩ := booked_fields hi.base hs hu
    rw [heq, hlive] at hdead
    cases hdead
  have hw := hl.whole hs.funded
  obtain ⟨hwu, hpu, hcu⟩ := booked_ledger hi.base hs hw (hl.paying hs.accepted) hu
  have hlu := ledger_accepted hsu.accepted (hcu.trans hl.unclamped) hwu hpu
  obtain ⟨_, _, _, _, _, _, heq, -⟩ := booked_fields hi.base hs hu
  have hquiet := (booked_regroups hi.base hs hu).1
  have hweeks := hsu.weeks
  have hsame : u.subWeeks = s.subWeeks ∧ u.disputed = s.disputed ∧ u.withdrawn = s.withdrawn ∧
      u.credited .buyer = s.credited .buyer ∧ u.credited .seller = s.credited .seller := by
    refine ⟨?_, ?_, hquiet.withdrawn, hquiet.buyer, hquiet.seller⟩
    · rw [heq]
    · rw [heq]
  obtain ⟨h1, h2, h3, h4, h5⟩ := hsame
  have hne : u.subWeeks ≠ 0 := by rwa [h1]
  -- the books already hold the term, so nothing more is charged
  have hsplit : Split .settleWeek u t := by
    refine weeks_split (x := u.tokensPend) (n := u.subWeeks) hbu hsu hlu (h2.trans hd) hne rfl
      le_rfl (hsu.tick_le_final.trans hsu.final_le_pend) rfl hweeks le_rfl ?_ (E := E)
    rw [ht, show u.subWeeks - u.weekIndex = 0 by omega]
    rfl
  have hfig : settledTokens .settleWeek u = settledTokens .settleWeek s ∧
      trustedTokens .settleWeek u = trustedTokens .settleWeek s ∧
      u.pricePerTick = s.pricePerTick ∧ escrow u = escrow s ∧
      buyerBack .settleWeek u = buyerBack .settleWeek s ∧
      sellerBack .settleWeek u = sellerBack .settleWeek s := by
    rw [heq]
    exact ⟨rfl, rfl, rfl, rfl, rfl, rfl⟩
  obtain ⟨g1, g2, g3, g4, g5, g6⟩ := hfig
  have hseller := hsplit.seller
  have hbuyer := hsplit.buyer
  unfold paidOut rebatePaid at hseller
  unfold paidOut at hbuyer
  rw [g1, g2, g3, g6, h3, h5] at hseller
  rw [g1, g3, g4, g5, h4] at hbuyer
  exact ⟨hsplit.unclamped, hseller, hbuyer⟩

def IsClean : Call → Prop
  | .finalize | .settleWeek | .stop | .sellerStop => True
  | _ => False

theorem dispatch_split (hi : Invariant s) (hl : Ledger s) (hx : Exact s)
    (hlive : s.destroyed = false) (ha : s.probeAccepted = true) (hc : IsClean c)
    (hok : dispatch E m s c = .ok t) (hdead : t.destroyed = true) : Split c s t := by
  have hs := hi.streaming ha
  have hbond : s.buyerBond = bondAmount s.pricePerTick := by
    rw [hx.bond, hs.buyerBonded]
    rfl
  cases c with
  | finalize => exact finalize_split hi hs hl hbond hlive hok hdead
  | settleWeek => exact settleWeek_split hi hl hlive hok hdead
  | stop => exact stop_split hi hs hl hbond hok
  | sellerStop => exact sellerStop_split hi hs hl hbond hok
  | _ => exact absurd hc (by simp [IsClean])

/-- For every run funded by the book that ends by `finalize`, `settleWeek`, `stop` or
`sellerStop` after the trial tick was accepted: no clamp ever fired, and both sides' totals are
the closed form in the settled tokens. -/
theorem clean_close_split (E : Env) (s t : Deal) (tx : Tx) (h : Reachable E (WholeRun E) s)
    (hadm : Admissible s tx) (ha : s.probeAccepted = true) (hc : IsClean tx.call)
    (hok : exec E tx s = .ok t) (hdead : t.destroyed = true) :
    Split tx.call (enter tx.msg s) t := by
  obtain ⟨hlive, hd, -⟩ := exec_ok hok
  obtain ⟨hi, hl⟩ := reachable_ledger (fun _ _ h => h.1) h hlive
  have hx := ((reachable_sound (h.mono fun _ _ hΦ => ⟨hΦ.1, hΦ.2.2⟩)).live hlive).2
  exact dispatch_split (hi.enter hadm.later hadm.clock) (enter_ledger hl tx.msg) { hx with } hlive ha hc hd hdead

theorem exec_of_any {x : Except Err Deal} {p : Deal → Bool} (h : x.toOption.any p = true) :
    ∃ t, x = .ok t ∧ p t = true := by
  cases x with
  | error e => simp [Except.toOption] at h
  | ok t => exact ⟨t, rfl, by simpa [Except.toOption] using h⟩

/-- The buyer stops an ordinary deal of four ticks after a claim of half a tick beyond the trial. -/
theorem clean_close_split_stop :
    ∃ s t, Reachable sampleEnv (WholeRun sampleEnv) s ∧ s.tokensPend = 1500000 ∧
      exec sampleEnv (buyerTx 420 .stop) s = .ok t ∧
      Split .stop (enter (buyerTx 420 .stop).msg s) t := by
  have hplay : (played (WholeRun sampleEnv)
      (openedSchedule ++ [sellerTx 400 (.claimTokens 1500000)])).any (fun s =>
        s.probeAccepted && decide (s.tokensPend = 1500000) &&
        decide (Admissible s (buyerTx 420 .stop)) &&
        (exec sampleEnv (buyerTx 420 .stop) s).toOption.any (fun t => t.destroyed)) = true := by
    decide
  obtain ⟨s, hs, hp⟩ := played_reachable hplay
  simp only [Bool.and_eq_true, decide_eq_true_eq] at hp
  obtain ⟨⟨⟨ha, hpend⟩, hadm⟩, hexec⟩ := hp
  obtain ⟨t, ht, hdead⟩ := exec_of_any hexec
  exact ⟨s, t, hs, hpend, ht, clean_close_split sampleEnv s t _ hs hadm ha trivial ht hdead⟩

/-- A subscription whose seller stops in the first week: no week is charged, and the buyer still
gets back less than the whole escrow and his bond, because the trial tick stays paid. -/
theorem trial_tick_stays_paid :
    ∃ s t, Reachable sampleEnv (WholeRun sampleEnv) s ∧ s.probeAccepted = true ∧
      exec sampleEnv (sellerTx 400 .sellerStop) s = .ok t ∧ t.destroyed = true ∧
      weeksElapsed (enter (sellerTx 400 .sellerStop).msg s) = 0 ∧
      paidOut .buyer s t + valueOf s.pricePerTick (0 * s.tokensPerWeek) +
        fee (valueOf s.pricePerTick (0 * s.tokensPerWeek)) ≠
          escrow s + bondAmount s.pricePerTick := by
  have hplay : (played (WholeRun sampleEnv) subscribedSchedule).any (fun s =>
      s.probeAccepted && decide (weeksElapsed (enter (sellerTx 400 .sellerStop).msg s) = 0) &&
      (exec sampleEnv (sellerTx 400 .sellerStop) s).toOption.any (fun t => t.destroyed &&
        decide (paidOut .buyer s t + valueOf s.pricePerTick (0 * s.tokensPerWeek) +
          fee (valueOf s.pricePerTick (0 * s.tokensPerWeek)) ≠
            escrow s + bondAmount s.pricePerTick))) = true := by
    decide
  obtain ⟨s, hs, hp⟩ := played_reachable hplay
  simp only [Bool.and_eq_true, decide_eq_true_eq] at hp
  obtain ⟨⟨ha, hweeks⟩, hexec⟩ := hp
  obtain ⟨t, ht, hq⟩ := exec_of_any hexec
  simp only [Bool.and_eq_true, decide_eq_true_eq] at hq
  exact ⟨s, t, hs, ha, ht, hq.1, hweeks, hq.2⟩

end TokenContractSplit
