import Dexdo.TokenContractQuota
import Dexdo.TokenContractExitCost

/-! # Keepers

Anybody may call `settleWeek`. -/
namespace TokenContractKeepers

open TokenContractState TokenContractCalls TokenContractCharges TokenContractPayouts
open TokenContractSteps TokenContractInvariant TokenContractExits TokenContractStreaming
open TokenContractClaims TokenContractLedger TokenContractSplit TokenContractDisputes
open TokenContractQuota TokenContractExitCost

variable {E : Env} {m : Msg} {z e s t u v : Deal} {c : Call}

/-! ## The weekly books on their own -/

structure Books where
  deposit : ℕ
  finalizedOwed : ℕ
  feeAccrued : ℕ
  tokensPaid : ℕ
  weekIndex : ℕ
  weekBaseTokens : ℕ

def booksOf (s : Deal) : Books :=
  ⟨s.deposit, s.finalizedOwed, s.feeAccrued, s.tokensPaid, s.weekIndex, s.weekBaseTokens⟩

/-- One boundary, at price `p`, quota `q` and claimed mark `n`. -/
def Books.charge (p q n : ℕ) (b : Books) : Books :=
  let due := if (b.weekIndex + 1) * q > b.tokensPaid then (b.weekIndex + 1) * q - b.tokensPaid else 0
  let pay := clampedPay b.deposit (valueOf p due) (fee (valueOf p due))
  let f := clampedFee b.deposit (valueOf p due) (fee (valueOf p due))
  { deposit := b.deposit - (pay + f)
    finalizedOwed := b.finalizedOwed + pay
    feeAccrued := b.feeAccrued + f
    tokensPaid := (b.weekIndex + 1) * q
    weekIndex := b.weekIndex + 1
    weekBaseTokens := n }

theorem booksOf_chargeWeek (h : s.tokensFinal ≤ s.tokensPend) :
    booksOf (chargeWeek s) =
      (booksOf s).charge s.pricePerTick s.tokensPerWeek s.tokensPend := by
  have hmark : (if s.tokensFinal > s.tokensPend then s.tokensFinal else s.tokensPend) =
      s.tokensPend := if_neg (by omega)
  rw [← hmark]
  rfl

theorem booksOf_chargeWeeks (h : s.tokensFinal ≤ s.tokensPend) (k : ℕ) :
    booksOf (chargeWeek^[k] s) =
      (Books.charge s.pricePerTick s.tokensPerWeek s.tokensPend)^[k] (booksOf s) := by
  have hframe : ∀ k, (chargeWeek^[k] s).pricePerTick = s.pricePerTick ∧
      (chargeWeek^[k] s).tokensPerWeek = s.tokensPerWeek ∧
      (chargeWeek^[k] s).tokensFinal = s.tokensFinal ∧
      (chargeWeek^[k] s).tokensPend = s.tokensPend := by
    intro k
    induction k with
    | zero => exact ⟨rfl, rfl, rfl, rfl⟩
    | succ k ih =>
      rw [Function.iterate_succ_apply']
      exact ih
  induction k with
  | zero => rfl
  | succ k ih =>
    obtain ⟨h1, h2, h3, h4⟩ := hframe k
    rw [Function.iterate_succ_apply', Function.iterate_succ_apply', booksOf_chargeWeek (by omega),
      ih, h1, h2, h4]

/-! ## Ahead by some weeks -/

/-- The eager record `e` is the lazy record `z` with `k` more boundaries booked. -/
structure Ahead (z e : Deal) : Prop where
  accepted : z.probeAccepted = true
  sub : z.subWeeks ≠ 0
  same : e = { z with
    clamped := e.clamped, deposit := e.deposit, finalizedOwed := e.finalizedOwed
    feeAccrued := e.feeAccrued, tokensPaid := e.tokensPaid, weekIndex := e.weekIndex
    weekBaseTokens := e.weekBaseTokens, ticksFinalized := e.ticksFinalized
    now := e.now, fault := e.fault, out := e.out }
  books : ∃ k, z.weekIndex + k = e.weekIndex ∧
    booksOf e = (Books.charge z.pricePerTick z.tokensPerWeek z.tokensPend)^[k] (booksOf z)
  quiet : Quiet z e

def Agree (a b : Deal) : Prop :=
  b = { a with clamped := b.clamped, ticksFinalized := b.ticksFinalized, out := b.out }

/-- Both records brought to the same week agree. -/
theorem agree_of_books {T : ℕ} (hbz : Backed z) (hwz : Weekly z) (hbe : Backed e) (hwe : Weekly e)
    (hle : z.tokensFinal ≤ z.tokensPend) (h : Ahead z e) (hnow : e.now = z.now)
    (hfault : e.fault = z.fault) (hlo : e.weekIndex ≤ T) (hhi : T ≤ z.subWeeks) :
    Agree (chargeWeek^[T - z.weekIndex] z) (chargeWeek^[T - e.weekIndex] e) := by
  have hsame := h.same
  have hfields : e.pricePerTick = z.pricePerTick ∧ e.tokensPerWeek = z.tokensPerWeek ∧
      e.tokensPend = z.tokensPend ∧ e.tokensFinal = z.tokensFinal ∧ e.subWeeks = z.subWeeks := by
    rw [hsame]
    exact ⟨rfl, rfl, rfl, rfl, rfl⟩
  obtain ⟨h1, h2, h3, h4, h5⟩ := hfields
  obtain ⟨k, hk, hbooks⟩ := h.books
  obtain ⟨c, d, o, f, p, b, hz, -⟩ := chargeWeeks_spec hbz hwz (T - z.weekIndex) (by omega)
  obtain ⟨c', d', o', f', p', b', he, -⟩ := chargeWeeks_spec hbe hwe (T - e.weekIndex) (by omega)
  have hlz := booksOf_chargeWeeks (s := z) hle (T - z.weekIndex)
  have hlev := booksOf_chargeWeeks (s := e) (by omega) (T - e.weekIndex)
  have hsum : T - z.weekIndex = T - e.weekIndex + k := by omega
  rw [h1, h2, h3, hbooks, ← Function.iterate_add_apply, ← hsum, ← hlz, hz, he] at hlev
  simp only [booksOf, Books.mk.injEq] at hlev
  obtain ⟨g1, g2, g3, g4, g5, g6⟩ := hlev
  unfold Agree
  rw [hz, he, hsame]
  dsimp only
  rw [g1, g2, g3, g4, g5, g6, hnow, hfault]

theorem Ahead.refl (ha : z.probeAccepted = true) (hsub : z.subWeeks ≠ 0) : Ahead z z :=
  ⟨ha, hsub, rfl, ⟨0, rfl, rfl⟩, .refl z⟩

theorem Ahead.enter (h : Ahead z e) (m : Msg) : Ahead (enter m z) (enter m e) :=
  ⟨h.accepted, h.sub, congrArg (TokenContractCalls.enter m) h.same, h.books, { h.quiet with }⟩

theorem Ahead.later (h : Ahead z e) (m : Msg) : Ahead z (TokenContractCalls.enter m e) :=
  ⟨h.accepted, h.sub, congrArg (TokenContractCalls.enter m) h.same, h.books, { h.quiet with }⟩

theorem Ahead.trusting (h : Ahead z e) (x : ℕ) :
    Ahead (TokenContractExits.trusting x z) (TokenContractExits.trusting x e) :=
  ⟨h.accepted, h.sub, congrArg (TokenContractExits.trusting x) h.same, h.books, { h.quiet with }⟩

/-- One more round of `settleWeek` puts the eager record further ahead. -/
theorem Ahead.booked (h : Ahead z e) (hi : Invariant e) (hb : Booked (settledBooks e) t) :
    Ahead z t := by
  have hs : Streaming e := by
    apply hi.streaming
    rw [h.same]
    exact h.accepted
  obtain ⟨c, d, o, f, p, b, hbooks, -⟩ := settledBooks_spec hi.base hs
  obtain ⟨k, hk, hkb⟩ := h.books
  have hrun := booksOf_chargeWeeks hs.final_le_pend (weeksElapsed e - e.weekIndex)
  have hfields : e.pricePerTick = z.pricePerTick ∧ e.tokensPerWeek = z.tokensPerWeek ∧
      e.tokensPend = z.tokensPend := by
    rw [h.same]
    exact ⟨rfl, rfl, rfl⟩
  obtain ⟨h1, h2, h3⟩ := hfields
  have heq := hb.eq
  refine ⟨h.accepted, h.sub, ?_, ⟨k + (weeksElapsed e - e.weekIndex), ?_, ?_⟩, ?_⟩
  · rw [heq, hbooks, h.same]
  · rw [heq, hbooks]
    dsimp only
    omega
  · have ht : booksOf t = booksOf (settledBooks e) := by
      rw [heq]
      rfl
    rw [ht, Nat.add_comm k, Function.iterate_add_apply, ← hkb, ← h1, ← h2, ← h3]
    exact hrun
  · have hquiet : Quiet e (settledBooks e) := by
      rw [hbooks]
      exact { Quiet.refl e with }
    exact (h.quiet.trans hquiet).trans hb.toQuiet

theorem Books.charge_sum (p q n : ℕ) (b : Books) :
    (b.charge p q n).deposit + (b.charge p q n).finalizedOwed + (b.charge p q n).feeAccrued =
      b.deposit + b.finalizedOwed + b.feeAccrued := by
  simp only [Books.charge]
  generalize (if (b.weekIndex + 1) * q > b.tokensPaid then
    (b.weekIndex + 1) * q - b.tokensPaid else 0) = due
  have hsum := clamped_sum b.deposit (valueOf p due) (fee (valueOf p due))
  have hle := min_le_right (valueOf p due + fee (valueOf p due)) b.deposit
  omega

theorem Ahead.earmarks (h : Ahead z e) : e.balance = z.balance ∧ e.earmarks = z.earmarks := by
  obtain ⟨k, -, hk⟩ := h.books
  have hsum : ∀ (k : ℕ) (b : Books),
      let b' := (Books.charge z.pricePerTick z.tokensPerWeek z.tokensPend)^[k] b
      b'.deposit + b'.finalizedOwed + b'.feeAccrued =
        b.deposit + b.finalizedOwed + b.feeAccrued := by
    intro k
    induction k with
    | zero => exact fun b => rfl
    | succ k ih =>
      intro b
      rw [Function.iterate_succ_apply]
      exact (ih _).trans (Books.charge_sum _ _ _ b)
  have htotal := hsum k (booksOf z)
  rw [← hk] at htotal
  simp only [booksOf] at htotal
  have hsame : e.balance = z.balance ∧ e.probeTick = z.probeTick ∧
      e.buyerBond = z.buyerBond ∧ e.sellerBond = z.sellerBond := by
    rw [h.same]
    exact ⟨rfl, rfl, rfl, rfl⟩
  refine ⟨hsame.1, ?_⟩
  unfold Deal.earmarks
  omega

/-! ## Both sides of a call -/

def Commits (E : Env) (m : Msg) (s : Deal) (c : Call) (t : Deal) : Prop :=
  dispatch E m s c = .ok t ∧ t.fault = false

def Kept (z e : Deal) : Prop :=
  z = e ∨ Ahead z e ∨ z.destroyed = true ∧ e.destroyed = true ∧ Quiet z e

def Matched (E : Env) (m : Msg) (z e : Deal) (c : Call) : Prop :=
  (∃ y f, Commits E m z c y ∧ Commits E m e c f ∧ Kept y f) ∨
    (∀ t, ¬ Commits E m z c t) ∧ ∀ t, ¬ Commits E m e c t

theorem matched_of_guard {G : Prop} {y f : Deal} (hz : ∀ t, Commits E m z c t ↔ G ∧ t = y)
    (he : ∀ t, Commits E m e c t ↔ G ∧ t = f) (h : G → Kept y f) : Matched E m z e c := by
  by_cases hg : G
  · exact .inl ⟨y, f, (hz y).mpr ⟨hg, rfl⟩, (he f).mpr ⟨hg, rfl⟩, h hg⟩
  · exact .inr ⟨fun t ht => hg ((hz t).mp ht).1, fun t ht => hg ((he t).mp ht).1⟩

theorem commits_exit (h : Invariant s) (hf : s.fault = false) (hc : IsExit c)
    (hne : c ≠ .cleanupUnopened) : Commits E m s c t ↔ dispatch E m s c = .ok t := by
  refine ⟨fun hok => hok.1, fun hok => ⟨hok, ?_⟩⟩
  rw [exit_fault h hf hc hok]
  exact fun heq => absurd heq hne

theorem kept_of_moved {y f : Deal} {a b r d : ℕ} (hq : Quiet z e) (hz : Moved z y a b r d)
    (he : Moved e f a b r d) (hy : y.destroyed = true) (hf : f.destroyed = true) : Kept y f := by
  refine .inr (.inr ⟨hy, hf, ?_, ?_, ?_, ?_, ?_⟩)
  · rw [he.buyer, hz.buyer, hq.buyer]
  · rw [he.seller, hz.seller, hq.seller]
  · rw [he.residual, hz.residual, hq.residual]
  · rw [he.burned, hz.burned, hq.burned]
  · rw [he.withdrawn, hz.withdrawn, hq.withdrawn]

theorem Agree.figures {a b : Deal} (h : Agree a b) :
    b.deposit = a.deposit ∧ b.finalizedOwed = a.finalizedOwed ∧ b.feeAccrued = a.feeAccrued ∧
      cleanRebate b = cleanRebate a := by
  rw [h]
  exact ⟨rfl, rfl, rfl, rfl⟩

structure Pair (z e : Deal) : Prop extends Ahead z e where
  lazy : Invariant z
  eager : Invariant e
  now : e.now = z.now
  clean : z.fault = false
  clean' : e.fault = false

theorem Pair.lazyStreaming (h : Pair z e) : Streaming z := h.lazy.streaming h.accepted

theorem Pair.eagerStreaming (h : Pair z e) : Streaming e := by
  apply h.eager.streaming
  rw [h.same]
  exact h.accepted

theorem Pair.slack (h : Pair z e) : e.balance - e.earmarks = z.balance - z.earmarks := by
  obtain ⟨h1, h2⟩ := h.toAhead.earmarks
  rw [h1, h2]

/-- Both records closed at week `T` with the mark `x`. -/
theorem Pair.close {x T : ℕ} (h : Pair z e) (hx : x ≤ z.tokensPend) (hlo : e.weekIndex ≤ T)
    (hhi : T ≤ z.subWeeks) :
    Kept (payFinalAndClose E (chargeWeek^[T - z.weekIndex] (TokenContractExits.trusting x z)))
      (payFinalAndClose E (chargeWeek^[T - e.weekIndex] (TokenContractExits.trusting x e))) := by
  have hsz := h.lazyStreaming
  have hse := h.eagerStreaming
  have hfields : e.tokensPend = z.tokensPend ∧ e.subWeeks = z.subWeeks ∧
      e.buyerBond = z.buyerBond ∧ e.sellerBond = z.sellerBond := by
    rw [h.same]
    exact ⟨rfl, rfl, rfl, rfl⟩
  obtain ⟨hpend, hweeks, hbuyer, hseller⟩ := hfields
  obtain ⟨k, hk, -⟩ := h.books
  have hagree := agree_of_books (T := T) (z := TokenContractExits.trusting x z)
    (e := TokenContractExits.trusting x e) { h.lazy.base.toBacked with }
    { Invariant.weekly h.lazy.base hsz with } { h.eager.base.toBacked with }
    { Invariant.weekly h.eager.base hse with } hx (h.toAhead.trusting x) h.now
    (h.clean'.trans h.clean.symm) hlo hhi
  obtain ⟨f1, f2, f3, f4⟩ := hagree.figures
  have hz := weeks_close_moved (E := E) (x := x) (k := T - z.weekIndex) h.lazy.base hsz h.sub
    hx (by omega)
  have he := weeks_close_moved (E := E) (x := x) (k := T - e.weekIndex) h.eager.base hse
    (by rw [hweeks]; exact h.sub) (by omega) (by omega)
  refine kept_of_moved h.quiet hz (he.of_eq ?_ ?_ h.slack ?_) rfl rfl
  · exact congrArg₂ (· + ·) f1 hbuyer
  · exact congrArg₂ (· + ·) (congrArg₂ (· + ·) f2 hseller) f4
  · exact congrArg₂ (· - ·) f3 f4

/-! ## The calls -/

theorem Pair.stop (h : Pair z e) : Matched E m z e .stop := by
  have hsame : (e.opened = true ∧ m.sender = e.buyer ∧ e.disputed = false ↔
      z.opened = true ∧ m.sender = z.buyer ∧ z.disputed = false) ∧
      weeksStarted e = weeksStarted z ∧ matured e = matured z ∧ e.subWeeks ≠ 0 := by
    have hnow := h.now
    unfold weeksStarted matured
    rw [hnow, h.same]
    exact ⟨Iff.rfl, rfl, rfl, h.sub⟩
  obtain ⟨hguard, hweeks, hmark, hsub⟩ := hsame
  have hform : ∀ {s : Deal}, Invariant s → s.fault = false → ∀ t, Commits E m s .stop t ↔
      (s.opened = true ∧ m.sender = s.buyer ∧ s.disputed = false) ∧ t = stopBody E s := by
    intro s hi hf t
    rw [commits_exit (c := .stop) hi hf trivial (by simp)]
    simp only [dispatch, TokenContractCalls.stop, require_bind_ok, pure_ok, Except.ok.injEq,
      and_assoc, eq_comm (a := t)]
  have hz := hform h.lazy h.clean
  have he := hform h.eager h.clean'
  rw [hguard] at he
  refine matched_of_guard hz he (fun _ => ?_)
  rw [stopBody_subscription h.lazy.base h.lazyStreaming h.sub,
    stopBody_subscription h.eager.base h.eagerStreaming hsub, hmark, hweeks]
  apply h.close (matured_le h.lazyStreaming)
  · rw [← hweeks]
    exact weeksStarted_ge h.eagerStreaming
  · exact weeksStartedAt_le _ _

theorem Pair.sellerStop (h : Pair z e) : Matched E m z e .sellerStop := by
  have hsame : (m.pubkey = e.sellerPubkey ∧ e.opened = true ∧ e.disputed = false ↔
      m.pubkey = z.sellerPubkey ∧ z.opened = true ∧ z.disputed = false) ∧
      weeksElapsed e = weeksElapsed z ∧ matured e = matured z ∧ e.subWeeks ≠ 0 := by
    have hnow := h.now
    unfold weeksElapsed matured
    rw [hnow, h.same]
    exact ⟨Iff.rfl, rfl, rfl, h.sub⟩
  obtain ⟨hguard, hweeks, hmark, hsub⟩ := hsame
  have hform : ∀ {s : Deal}, Invariant s → s.fault = false → ∀ t, Commits E m s .sellerStop t ↔
      (m.pubkey = s.sellerPubkey ∧ s.opened = true ∧ s.disputed = false) ∧
        t = sellerStopBody E s := by
    intro s hi hf t
    rw [commits_exit (c := .sellerStop) hi hf trivial (by simp)]
    simp only [dispatch, TokenContractCalls.sellerStop, require_bind_ok, pure_ok, Except.ok.injEq,
      and_assoc, eq_comm (a := t)]
  have hz := hform h.lazy h.clean
  have he := hform h.eager h.clean'
  rw [hguard] at he
  refine matched_of_guard hz he (fun _ => ?_)
  rw [sellerStopBody_subscription h.lazy.base h.lazyStreaming h.sub,
    sellerStopBody_subscription h.eager.base h.eagerStreaming hsub, hmark, hweeks]
  apply h.close (matured_le h.lazyStreaming)
  · rw [← hweeks]
    exact weeksElapsed_ge h.eagerStreaming
  · exact weeksElapsedAt_le _ _

theorem Pair.dispute (h : Pair z e) : Matched E m z e .dispute := by
  have hform : ∀ s : Deal, s.fault = false → ∀ t, Commits E m s .dispute t ↔
      (s.opened = true ∧ m.sender = s.buyer ∧ s.disputed = false) ∧
        t = { s with disputed := true, everDisputed := true, disputeTime := s.now }.send
          (.streamDisputed s.buyer s.now) := by
    intro s hf t
    unfold Commits
    simp only [dispatch, TokenContractCalls.dispute, require_bind_ok, pure_ok, Except.ok.injEq]
    constructor
    · rintro ⟨⟨h1, h2, h3, rfl⟩, -⟩
      exact ⟨⟨h1, h2, h3⟩, rfl⟩
    · rintro ⟨⟨h1, h2, h3⟩, rfl⟩
      exact ⟨⟨h1, h2, h3, rfl⟩, hf⟩
  have hguard : (e.opened = true ∧ m.sender = e.buyer ∧ e.disputed = false ↔
      z.opened = true ∧ m.sender = z.buyer ∧ z.disputed = false) := by
    rw [h.same]
  have he := hform e h.clean'
  rw [hguard] at he
  refine matched_of_guard (hform z h.clean) he (fun _ => .inr (.inl ?_))
  have hq := h.quiet
  refine ⟨h.accepted, h.sub, ?_, h.books, ⟨?_, ?_, ?_, ?_, ?_⟩⟩
  · have hnow := h.now
    simp only [Deal.send]
    rw [hnow]
    have hsame := h.same
    rw [hsame]
  · simpa [Deal.send, Deal.credited, creditOf] using hq.buyer
  · simpa [Deal.send, Deal.credited, creditOf] using hq.seller
  · simpa [Deal.send, Deal.credited, creditOf] using hq.residual
  · simpa [Deal.send, Deal.burned, writeOffOf] using hq.burned
  · simpa [Deal.send, Deal.withdrawn, withdrawalOf] using hq.withdrawn

theorem Pair.finalize (h : Pair z e) : Matched E m z e .finalize := by
  have hform : ∀ {s : Deal}, Invariant s → s.fault = false → s.subWeeks ≠ 0 → ∀ t,
      Commits E m s .finalize t ↔
      ((s.opened = true ∧ s.disputed = false) ∧
        s.tokensPend > s.tokensFinal ∧ s.now ≥ s.lastClaimTime + claimPromoteWindow) ∧
        t = TokenContractExits.trusting s.tokensPend s := by
    intro s hi hf hsub t
    rw [commits_exit (c := .finalize) hi hf trivial (by simp)]
    simp only [dispatch, TokenContractCalls.finalize, require_bind_ok, and_assoc]
    constructor
    · rintro ⟨ho, hd, hp, hw, hok⟩
      have hpro : promoteDue s = { s with tokensFinal := s.tokensPend } := by
        rw [promoteDue_eq hi.base.promote_lt, if_pos hw, max_eq_right hp.le]
      rw [hpro, if_neg (by simp [isSubscription, hsub])] at hok
      simp only [pure_ok, Except.ok.injEq] at hok
      exact ⟨ho, hd, hp, hw, hok.symm⟩
    · rintro ⟨ho, hd, hp, hw, rfl⟩
      refine ⟨ho, hd, hp, hw, ?_⟩
      have hpro : promoteDue s = { s with tokensFinal := s.tokensPend } := by
        rw [promoteDue_eq hi.base.promote_lt, if_pos hw, max_eq_right hp.le]
      rw [hpro, if_neg (by simp [isSubscription, hsub])]
      rfl
  have hsame : ((e.opened = true ∧ e.disputed = false) ∧
      e.tokensPend > e.tokensFinal ∧ e.now ≥ e.lastClaimTime + claimPromoteWindow ↔
      (z.opened = true ∧ z.disputed = false) ∧
      z.tokensPend > z.tokensFinal ∧ z.now ≥ z.lastClaimTime + claimPromoteWindow) ∧
      e.tokensPend = z.tokensPend ∧ e.subWeeks ≠ 0 := by
    have hnow := h.now
    rw [hnow, h.same]
    exact ⟨Iff.rfl, rfl, h.sub⟩
  obtain ⟨hguard, hpend, hsub⟩ := hsame
  have he := hform h.eager h.clean' hsub
  rw [hguard, hpend] at he
  refine matched_of_guard (hform h.lazy h.clean h.sub) he (fun _ => .inr (.inl ?_))
  exact h.toAhead.trusting z.tokensPend

/-- The books at the dispute agree. -/
theorem Pair.disputeBooks (h : Pair z e) (hd : z.disputed = true) :
    Agree (TokenContractExits.disputeBooks z) (TokenContractExits.disputeBooks e) := by
  have hse := h.eagerStreaming
  have hfields : e.disputed = z.disputed ∧ e.disputeTime = z.disputeTime ∧
      e.periodStart = z.periodStart ∧ e.subWeeks = z.subWeeks ∧
      weeksElapsedAt e.disputeTime e = weeksElapsedAt z.disputeTime z := by
    rw [h.same]
    exact ⟨rfl, rfl, rfl, rfl, rfl⟩
  obtain ⟨hde, htime, hstart, hweeks, helapsed⟩ := hfields
  unfold TokenContractExits.disputeBooks
  rw [helapsed]
  apply agree_of_books h.lazy.base.toBacked (Invariant.weekly h.lazy.base h.lazyStreaming)
    h.eager.base.toBacked (Invariant.weekly h.eager.base hse) h.lazyStreaming.final_le_pend
    h.toAhead h.now (h.clean'.trans h.clean.symm)
  · have hweek := hse.week_le (hde.trans hd)
    have hcap := hse.weeks
    rw [← helapsed]
    exact le_min ((Nat.le_div_iff_mul_le (by decide)).mpr hweek) hcap
  · exact weeksElapsedAt_le _ _

/-- Both records settled from books that agree, at the same stakes. -/
theorem Pair.resolve {B S : ℕ} (h : Pair z e) (hd : z.disputed = true) :
    Kept
      (settleTrustedAndClose E B S (voided (standing (TokenContractExits.disputeBooks z))
        (TokenContractExits.disputeBooks z)))
      (settleTrustedAndClose E B S (voided (standing (TokenContractExits.disputeBooks e))
        (TokenContractExits.disputeBooks e))) := by
  have hde : e.disputed = true := by
    rw [h.same]
    exact hd
  have hsz := h.lazyStreaming
  have hse := h.eagerStreaming
  obtain ⟨hbz, hbsz⟩ := disputeBooks_invariant h.lazy.base hsz hd
  obtain ⟨hbe, hbse⟩ := disputeBooks_invariant h.eager.base hse hde
  obtain ⟨hmz, hlz⟩ := disputeBooks_regroups h.lazy.base hsz
  obtain ⟨hme, hle⟩ := disputeBooks_regroups h.eager.base hse
  have hpz := voided_payable hbz hbsz (disputeBooks_closed h.lazy.base hsz)
    (disputeBooks_clock h.lazy.base hsz hd) (standing_le hbsz)
  have hpe := voided_payable hbe hbse (disputeBooks_closed h.eager.base hse)
    (disputeBooks_clock h.eager.base hse hde) (standing_le hbse)
  have hcz := settleTrustedAndClose_moved (E := E) (B := B) (S := S) hpz.1 hpz.2
  have hce := settleTrustedAndClose_moved (E := E) (B := B) (S := S) hpe.1 hpe.2
  have hagree := h.disputeBooks hd
  have hslack := h.slack
  rw [← hlz, ← hle] at hslack
  generalize TokenContractExits.disputeBooks z = bz at *
  generalize TokenContractExits.disputeBooks e = be at *
  have hvz : Moved bz (voided (standing bz) bz) 0 0 0 0 := .regroup rfl rfl
  have hve : Moved be (voided (standing be) be) 0 0 0 0 := .regroup rfl rfl
  refine kept_of_moved h.quiet ((hmz.trans hvz).trans hcz)
    (((hme.trans hve).trans hce).of_eq ?_ ?_ ?_ ?_) rfl rfl
  · rw [hagree]
    rfl
  · rw [hagree]
    rfl
  · exact congrArg (0 + 0 + ·) hslack
  · rw [hagree]
    rfl

theorem Pair.releaseDispute (h : Pair z e) : Matched E m z e .releaseDispute := by
  have hform : ∀ {s : Deal}, Invariant s → s.fault = false → ∀ t,
      Commits E m s .releaseDispute t ↔
      (m.pubkey = s.sellerPubkey ∧ s.disputed = true) ∧ t = releaseDisputeBody E s := by
    intro s hi hf t
    rw [commits_exit (c := .releaseDispute) hi hf trivial (by simp)]
    simp only [dispatch, TokenContractCalls.releaseDispute, require_bind_ok, pure_ok,
      Except.ok.injEq, and_assoc, eq_comm (a := t)]
  have hguard : (m.pubkey = e.sellerPubkey ∧ e.disputed = true ↔
      m.pubkey = z.sellerPubkey ∧ z.disputed = true) := by
    rw [h.same]
  have he := hform h.eager h.clean'
  rw [hguard] at he
  refine matched_of_guard (hform h.lazy h.clean) he (fun hg => ?_)
  have hstakes : releaseStakes (voided (standing (TokenContractExits.disputeBooks e))
      (TokenContractExits.disputeBooks e)) =
      releaseStakes (voided (standing (TokenContractExits.disputeBooks z))
        (TokenContractExits.disputeBooks z)) := by
    rw [h.disputeBooks hg.2]
    rfl
  rw [releaseDisputeBody_streaming h.lazy.base h.lazyStreaming hg.2,
    releaseDisputeBody_streaming h.eager.base h.eagerStreaming (hguard.mpr hg).2, hstakes]
  exact h.resolve hg.2

theorem Pair.resolveDisputeTimeout (h : Pair z e) :
    Matched E m z e .resolveDisputeTimeout := by
  have hform : ∀ {s : Deal}, Invariant s → s.fault = false → ∀ t,
      Commits E m s .resolveDisputeTimeout t ↔
      (s.disputed = true ∧ s.now ≥ s.disputeTime + disputeWindow) ∧
        t = resolveDisputeTimeoutBody E s := by
    intro s hi hf t
    rw [commits_exit (c := .resolveDisputeTimeout) hi hf trivial (by simp)]
    simp only [dispatch, TokenContractCalls.resolveDisputeTimeout, require_bind_ok, pure_ok,
      Except.ok.injEq, and_assoc]
    constructor
    · rintro ⟨hd, hw, rfl⟩
      rw [Deal.check_pass (disputeTime_lt hi hd)]
      exact ⟨hd, hw, rfl⟩
    · rintro ⟨hd, hw, rfl⟩
      rw [Deal.check_pass (disputeTime_lt hi hd)]
      exact ⟨hd, hw, rfl⟩
  have hsame : (e.disputed = true ∧ e.now ≥ e.disputeTime + disputeWindow ↔
      z.disputed = true ∧ z.now ≥ z.disputeTime + disputeWindow) ∧ e.subWeeks ≠ 0 := by
    rw [h.now, h.same]
    exact ⟨Iff.rfl, h.sub⟩
  obtain ⟨hguard, hsub⟩ := hsame
  have he := hform h.eager h.clean'
  rw [hguard] at he
  refine matched_of_guard (hform h.lazy h.clean) he (fun hg => ?_)
  have hstake : disputeStake (TokenContractExits.disputeBooks e) =
      disputeStake (TokenContractExits.disputeBooks z) := by
    rw [h.disputeBooks hg.1]
    rfl
  rw [resolveDisputeTimeoutBody_subscription h.lazy.base h.lazyStreaming hg.1 h.sub,
    resolveDisputeTimeoutBody_subscription h.eager.base h.eagerStreaming (hguard.mpr hg).1 hsub,
    hstake]
  exact h.resolve hg.1

theorem Pair.settledBooks (h : Pair z e) :
    Agree (TokenContractSteps.settledBooks z) (TokenContractSteps.settledBooks e) := by
  have helapsed : weeksElapsed e = weeksElapsed z := by
    unfold weeksElapsed
    rw [h.now, h.same]
    rfl
  unfold TokenContractSteps.settledBooks
  rw [helapsed]
  apply agree_of_books h.lazy.base.toBacked (Invariant.weekly h.lazy.base h.lazyStreaming)
    h.eager.base.toBacked (Invariant.weekly h.eager.base h.eagerStreaming)
    h.lazyStreaming.final_le_pend h.toAhead h.now (h.clean'.trans h.clean.symm)
  · rw [← helapsed]
    exact weeksElapsed_ge h.eagerStreaming
  · exact weeksElapsedAt_le _ _

theorem Agree.booked {a b : Deal} (h : Agree a b) (ha : Booked a u) (hb : Booked b v) :
    Agree u v := by
  unfold Agree
  rw [hb.eq, ha.eq, h]

/-- A `settleWeek` that closes the eager deal closes the lazy one. -/
theorem Pair.settleWeek (h : Pair z e) (hok : Commits E m e .settleWeek t)
    (hdead : t.destroyed = true) (hlive : e.destroyed = false) :
    Matched E m z e .settleWeek := by
  have hsz := h.lazyStreaming
  obtain ⟨-, hse, hd, hg, u, hu, hbu, hsu, hcase⟩ := settleWeek_inv h.eager hok.1
  obtain ⟨hmove, hslack, hdu⟩ := booked_regroups h.eager.base hse hu
  obtain ⟨hterm, hripe, rfl⟩ : u.subWeeks ≤ u.weekIndex ∧
      u.lastClaimTime + claimPromoteWindow ≤ u.now ∧
      t = payFinalAndClose E { u with tokensFinal := u.tokensPend } := by
    rcases hcase with ⟨rfl, -⟩ | hclose
    · rw [hdu, hlive] at hdead
      cases hdead
    · exact hclose
  have hsame : e.disputed = z.disputed ∧ e.opened = z.opened ∧ e.subWeeks = z.subWeeks ∧
      weeksElapsed e = weeksElapsed z := by
    unfold weeksElapsed
    rw [h.now, h.same]
    exact ⟨rfl, rfl, rfl, rfl⟩
  obtain ⟨hdz, hoz, hwz, helapsed⟩ := hsame
  -- the last boundary has passed for both
  have hdue : z.subWeeks ≤ weeksElapsed z := by
    obtain ⟨c, d, o, f, p, b, heq, -⟩ := booked_fields h.eager.base hse hu
    have hge := weeksElapsed_ge hse
    rw [heq] at hterm
    dsimp only at hterm
    omega
  obtain ⟨y, hy⟩ : ∃ y, settleWeek E z = .ok y := by
    simp only [TokenContractCalls.settleWeek, require_bind_ok]
    have hguard : weeksElapsed z > z.weekIndex ∨ z.weekIndex ≥ z.subWeeks := by omega
    have hkind : isSubscription z = true := by simp [isSubscription, h.sub]
    split
    · exact ⟨_, hkind, ⟨hsz.opened, hdz.symm.trans hd⟩, h.accepted, hguard, rfl⟩
    · exact ⟨_, hkind, ⟨hsz.opened, hdz.symm.trans hd⟩, h.accepted, hguard, rfl⟩
  obtain ⟨-, -, -, -, w, hw, hbw, hsw, hcase⟩ := settleWeek_inv h.lazy hy
  obtain ⟨hmz, hlz, -⟩ := booked_regroups h.lazy.base hsz hw
  have hagree : Agree w u := h.settledBooks.booked hw hu
  have hends : w.subWeeks ≤ w.weekIndex ∧ w.lastClaimTime + claimPromoteWindow ≤ w.now := by
    rw [hagree] at hterm hripe
    exact ⟨hterm, hripe⟩
  obtain rfl : y = payFinalAndClose E { w with tokensFinal := w.tokensPend } := by
    rcases hcase with ⟨-, hnot⟩ | hclose
    · exact absurd hends hnot
    · exact hclose.2.2
  have hyok : Commits E m z .settleWeek
      (payFinalAndClose E { w with tokensFinal := w.tokensPend }) :=
    (commits_exit (c := .settleWeek) h.lazy h.clean trivial (by simp)).mpr hy
  have hfields : u.buyerBond = w.buyerBond ∧ u.sellerBond = w.sellerBond ∧
      u.subWeeks = w.subWeeks ∧ u.deposit = w.deposit ∧ u.finalizedOwed = w.finalizedOwed ∧
      u.feeAccrued = w.feeAccrued ∧
      cleanRebate (TokenContractExits.trusting u.tokensPend u) =
        cleanRebate (TokenContractExits.trusting w.tokensPend w) := by
    rw [hagree]
    exact ⟨rfl, rfl, rfl, rfl, rfl, rfl, rfl⟩
  obtain ⟨f1, f2, f3, f4, f5, f6, f7⟩ := hfields
  have hsub : w.subWeeks ≠ 0 := by
    obtain ⟨c, d, o, f, p, b, heq, -⟩ := booked_fields h.lazy.base hsz hw
    rw [heq]
    exact h.sub
  have hcz := weeks_close_moved (E := E) (x := w.tokensPend) (k := 0) hbw hsw hsub le_rfl
    hsw.weeks
  have hce := weeks_close_moved (E := E) (x := u.tokensPend) (k := 0) hbu hsu
    (by rw [f3]; exact hsub) le_rfl hsu.weeks
  refine .inl ⟨_, _, hyok, hok, kept_of_moved h.quiet (hmz.trans hcz)
    ((hmove.trans hce).of_eq ?_ ?_ ?_ ?_) rfl rfl⟩
  · exact congrArg (0 + ·) (congrArg₂ (· + ·) f4 f1)
  · exact congrArg (0 + ·) (congrArg₂ (· + ·) (congrArg₂ (· + ·) f5 f2) f7)
  · rw [hslack, hlz, h.slack]
  · exact congrArg (0 + ·) (congrArg₂ (· - ·) f6 f7)

theorem Agree.claimed {n : ℕ} {a b y f : Deal} (h : Agree a b)
    (hy : y = { a with
      tokensFinal := a.tokensPend, tokensPend := n, lastClaimTime := a.now, out := y.out })
    (hf : f = { b with
      tokensFinal := b.tokensPend, tokensPend := n, lastClaimTime := b.now, out := f.out })
    (ha : a.probeAccepted = true) (hsub : a.subWeeks ≠ 0) (hq : Quiet y f) : Ahead y f := by
  have hagree : Agree y f := by
    unfold Agree
    rw [hf, hy, h]
  refine ⟨?_, ?_, ?_, ⟨0, ?_, ?_⟩, hq⟩
  · rw [hy]
    exact ha
  · rw [hy]
    exact hsub
  · unfold Agree at hagree
    rw [hagree]
  · rw [hagree]
    rfl
  · rw [hagree]
    rfl

/-- What a claim of `n` above the record demands of the deal and of its books `b` at the clock. -/
def Grants (n : ℕ) (m : Msg) (s b : Deal) : Prop :=
  (m.pubkey = s.sellerPubkey ∧ s.opened = true ∧ s.disputed = false ∧ s.tokensPend < n) ∧
    b.weekBaseTokens + b.tokensPerWeek < u128 ∧ n ≤ claimCap b ∧
    minClaimInterval ≤ b.now - b.lastClaimTime ∧ n - b.tokensPend ≤ maxClaimDelta ∧
    (n - b.tokensPend) * minSecondsPerTick ≤ (b.now - b.lastClaimTime) * tickSize

theorem grants_of_claimed {n : ℕ} (hi : Invariant s) (hf : t.fault = false)
    (hok : claimTokens E n m s = .ok t) (hn : s.tokensPend < n) :
    Grants n m s (TokenContractSteps.settledBooks s) ∧ ∃ u, Claimed n s u t := by
  obtain ⟨hk, ho, hd, ha, ⟨heq, -⟩ | ⟨-, u, hu⟩⟩ := claimTokens_ok hok hf hi.base.start_le_now
  · omega
  have hbooks := hu.booked.eq
  have hfits := hu.fits
  have hcap := hu.below_cap
  have hint := hu.interval
  have hdelta := hu.delta
  have hrate := hu.rate
  rw [hbooks] at hfits hcap hint hdelta hrate
  exact ⟨⟨⟨hk, ho, hd, hn⟩, hfits, hcap, hint, hdelta, hrate⟩, u, hu⟩

theorem claimed_of_grants {n : ℕ} (hi : Invariant s) (hs : Streaming s) (hf : s.fault = false)
    (h : Grants n m s (TokenContractSteps.settledBooks s)) :
    ∃ t, Commits E m s (.claimTokens n) t := by
  obtain ⟨⟨hk, ho, hd, hn⟩, hfits, hcap, hint, hdelta, hrate⟩ := h
  obtain ⟨c, d, o, f, p, b, heq, -⟩ := settledBooks_spec hi.base hs
  have hb := hi.base
  have hclean : (TokenContractSteps.settledBooks s).fault = false := by
    rw [heq]
    exact hf
  have hmarks : (TokenContractSteps.settledBooks s).tokensFinal ≤
      (TokenContractSteps.settledBooks s).tokensPend := by
    rw [heq]
    exact hs.final_le_pend
  have hclock : (TokenContractSteps.settledBooks s).lastClaimTime ≤
        (TokenContractSteps.settledBooks s).now ∧
      (TokenContractSteps.settledBooks s).lastClaimTime + claimPromoteWindow < u64 := by
    rw [heq]
    exact ⟨hb.claim_le, hb.promote_lt⟩
  exact claimTokens_of_books hk ho hd hs.accepted hn hb.start_le_now hclean hmarks hclock.1
    hclock.2 hfits hcap hint hdelta hrate

theorem Pair.claimTokens {n : ℕ} (h : Pair z e) : Matched E m z e (.claimTokens n) := by
  have hfields : e.tokensPend = z.tokensPend ∧ e.probeAccepted = z.probeAccepted ∧
      (m.pubkey = e.sellerPubkey ∧ e.opened = true ∧ e.disputed = false ↔
        m.pubkey = z.sellerPubkey ∧ z.opened = true ∧ z.disputed = false) := by
    rw [h.same]
    exact ⟨rfl, rfl, Iff.rfl⟩
  obtain ⟨hpend, hacc, hguard⟩ := hfields
  rcases Nat.lt_trichotomy n z.tokensPend with hlt | heq | hgt
  · -- below the record: refused
    right
    constructor
    · rintro t ⟨hok, hf⟩
      obtain ⟨-, -, -, -, ⟨heq, -⟩ | ⟨hn, -⟩⟩ := claimTokens_ok hok hf h.lazy.base.start_le_now
      · omega
      · omega
    · rintro t ⟨hok, hf⟩
      obtain ⟨-, -, -, -, ⟨heq, -⟩ | ⟨hn, -⟩⟩ := claimTokens_ok hok hf h.eager.base.start_le_now
      · omega
      · omega
  · -- the record itself: accepted without effect
    have hform : ∀ s : Deal, s.fault = false → n = s.tokensPend → s.probeAccepted = true → ∀ t,
        Commits E m s (.claimTokens n) t ↔
        (m.pubkey = s.sellerPubkey ∧ s.opened = true ∧ s.disputed = false) ∧ t = s := by
      intro s hf hn ha t
      subst hn
      unfold Commits
      simp only [dispatch, TokenContractCalls.claimTokens, require_bind_ok, if_true, pure_ok,
        Except.ok.injEq]
      constructor
      · rintro ⟨⟨hk, ho, hd, -, -, rfl⟩, -⟩
        exact ⟨⟨hk, ho, hd⟩, rfl⟩
      · rintro ⟨⟨hk, ho, hd⟩, rfl⟩
        exact ⟨⟨hk, ho, hd, ha, le_rfl, rfl⟩, hf⟩
    have he := hform e h.clean' (heq.trans hpend.symm) (hacc.trans h.accepted)
    rw [hguard] at he
    exact matched_of_guard (hform z h.clean heq h.accepted) he (fun _ => .inr (.inl h.toAhead))
  · have hsame : Grants n m e (TokenContractSteps.settledBooks e) ↔
        Grants n m z (TokenContractSteps.settledBooks z) := by
      rw [h.settledBooks, h.same]
      rfl
    by_cases hg : Grants n m z (TokenContractSteps.settledBooks z)
    · obtain ⟨y, hy⟩ := claimed_of_grants (E := E) h.lazy h.lazyStreaming h.clean hg
      obtain ⟨f, hf⟩ := claimed_of_grants (E := E) h.eager h.eagerStreaming h.clean'
        (hsame.mpr hg)
      obtain ⟨-, w, hw⟩ := grants_of_claimed h.lazy hy.2 hy.1 hgt
      obtain ⟨-, u, hu⟩ := grants_of_claimed h.eager hf.2 hf.1 (by omega)
      have hagree : Agree w u := h.settledBooks.booked hw.booked hu.booked
      obtain ⟨c, d, o, q, p, b, heq, -⟩ := booked_fields h.lazy.base h.lazyStreaming hw.booked
      have hqz : Quiet z w := by
        obtain ⟨hm, -, -⟩ := booked_regroups h.lazy.base h.lazyStreaming hw.booked
        exact ⟨hm.buyer, hm.seller, hm.residual, hm.burned, hm.withdrawn⟩
      have hqe : Quiet e u := by
        obtain ⟨hm, -, -⟩ := booked_regroups h.eager.base h.eagerStreaming hu.booked
        exact ⟨hm.buyer, hm.seller, hm.residual, hm.burned, hm.withdrawn⟩
      have hq : Quiet y f := by
        have hyw := hqz.trans hw.quiet
        have hfu := (h.quiet.trans hqe).trans hu.quiet
        exact ⟨hfu.buyer.trans hyw.buyer.symm, hfu.seller.trans hyw.seller.symm,
          hfu.residual.trans hyw.residual.symm, hfu.burned.trans hyw.burned.symm,
          hfu.withdrawn.trans hyw.withdrawn.symm⟩
      refine .inl ⟨y, f, hy, hf, .inr (.inl (hagree.claimed hw.eq hu.eq ?_ ?_ hq))⟩
      · rw [heq]
        exact h.accepted
      · rw [heq]
        exact h.sub
    · right
      refine ⟨fun t ht => hg ?_, fun t ht => hg (hsame.mp ?_)⟩
      · exact (grants_of_claimed h.lazy ht.2 ht.1 hgt).1
      · exact (grants_of_claimed h.eager ht.2 ht.1 (by omega)).1

def Early : Call → Prop
  | .close | .fundDeal _ _ | .fundBuyerBond _ | .openDeal _ | .acceptProbe | .cleanupUnopened
  | .destroy => True
  | _ => False

theorem early_refused (hs : Streaming s) (hc : Early c) : ¬ Commits E m s c t := by
  rintro ⟨hok, hf⟩
  have hopen : s.opened ≠ false := by simp [hs.opened]
  cases c with
  | close =>
    simp only [dispatch, close, require_bind_ok] at hok
    have hfu := hok.2.1
    rw [hs.funded] at hfu
    cases hfu
  | fundDeal a c => exact hopen (fundDeal_ok hok hf).1
  | fundBuyerBond a => exact hopen (fundBuyerBond_ok hok hf).2.1
  | openDeal c => exact hopen (openDeal_ok hok).2.1
  | acceptProbe =>
    have ha := (acceptProbe_ok hok hf).2.2.1
    rw [hs.accepted] at ha
    cases ha
  | cleanupUnopened => exact hopen (cleanupUnopened_ok hok).2.1
  | destroy =>
    simp only [dispatch, destroy, require_bind_ok] at hok
    exact hopen hok.2.1
  | _ => exact hc

/-- The listing calls reach both records alike. -/
theorem Ahead.relisted {y f : Deal} (h : Ahead z e) (hz : Relisted z y) (he : Relisted e f)
    (hlist : f.iobHash = y.iobHash ∧ f.iobDepth = y.iobDepth ∧
      f.noteAuthorized = y.noteAuthorized ∧ f.offerPosted = y.offerPosted) : Ahead y f := by
  obtain ⟨h1, h2, h3, h4⟩ := hlist
  have hquiet : Quiet y f := by
    have hq := h.quiet.trans he.toQuiet
    exact ⟨hq.buyer.trans hz.buyer.symm, hq.seller.trans hz.seller.symm,
      hq.residual.trans hz.residual.symm, hq.burned.trans hz.burned.symm,
      hq.withdrawn.trans hz.withdrawn.symm⟩
  have hy := hz.eq
  have hf := he.eq
  rw [h1, h2, h3, h4] at hf
  have hbooks : booksOf f = booksOf e ∧ booksOf y = booksOf z ∧ f.weekIndex = e.weekIndex ∧
      y.weekIndex = z.weekIndex ∧ y.pricePerTick = z.pricePerTick ∧
      y.tokensPerWeek = z.tokensPerWeek ∧ y.tokensPend = z.tokensPend ∧
      y.probeAccepted = z.probeAccepted ∧ y.subWeeks = z.subWeeks := by
    rw [hf, hy]
    exact ⟨rfl, rfl, rfl, rfl, rfl, rfl, rfl, rfl, rfl⟩
  obtain ⟨b1, b2, b3, b4, b5, b6, b7, b8, b9⟩ := hbooks
  refine ⟨b8.trans h.accepted, by rw [b9]; exact h.sub, ?_, ?_, hquiet⟩
  · rw [hf, hy, h.same]
  · rw [b1, b2, b3, b4, b5, b6, b7]
    exact h.books

theorem Pair.postFromNote {a b i k d : ℕ} (h : Pair z e) :
    Matched E m z e (.postFromNote a b i k d) := by
  have hform : ∀ s : Deal, s.fault = false → s.funded = true → ∀ t,
      Commits E m s (.postFromNote a b i k d) t ↔
      (m.sender = s.sellerNote ∧ s.sellerNote = E.noteAddress i) ∧
        t = { s with noteAuthorized := true, iobHash := a, iobDepth := b } := by
    intro s hf hfu t
    unfold Commits
    simp only [dispatch, TokenContractCalls.postFromNote, require_bind_ok, hfu, or_true, if_true,
      pure_ok, Except.ok.injEq]
    constructor
    · rintro ⟨⟨h1, h2, rfl⟩, -⟩
      exact ⟨⟨h1, h2⟩, rfl⟩
    · rintro ⟨⟨h1, h2⟩, rfl⟩
      exact ⟨⟨h1, h2, rfl⟩, hf⟩
  have hguard : (m.sender = e.sellerNote ∧ e.sellerNote = E.noteAddress i ↔
      m.sender = z.sellerNote ∧ z.sellerNote = E.noteAddress i) ∧
      e.offerPosted = z.offerPosted := by
    rw [h.same]
    exact ⟨Iff.rfl, rfl⟩
  have he := hform e h.clean' h.eagerStreaming.funded
  rw [hguard.1] at he
  refine matched_of_guard (hform z h.clean h.lazyStreaming.funded) he (fun _ => .inr (.inl ?_))
  exact h.toAhead.relisted ⟨{ Quiet.refl z with }, rfl⟩ ⟨{ Quiet.refl e with }, rfl⟩
    ⟨rfl, rfl, rfl, hguard.2⟩

theorem Pair.onSellClosed (h : Pair z e) : Matched E m z e .onSellClosed := by
  have hform : ∀ s : Deal, s.fault = false → s.funded = true → ∀ t,
      Commits E m s .onSellClosed t ↔ True ∧ t = s := by
    intro s hf hfu t
    unfold Commits
    simp only [dispatch, TokenContractCalls.onSellClosed, hfu, if_true, ite_self, pure_ok,
      Except.ok.injEq]
    constructor
    · rintro ⟨rfl, -⟩
      exact ⟨trivial, rfl⟩
    · rintro ⟨-, rfl⟩
      exact ⟨rfl, hf⟩
  exact matched_of_guard (hform z h.clean h.lazyStreaming.funded)
    (hform e h.clean' h.eagerStreaming.funded) (fun _ => .inr (.inl h.toAhead))

theorem Pair.touchDeal (h : Pair z e) : Matched E m z e .touchDeal := by
  have hform : ∀ s : Deal, s.fault = false → ∀ t, Commits E m s .touchDeal t ↔
      (m.sender = s.buyer ∨ m.sender = s.sellerNote) ∧ t = s := by
    intro s hf t
    unfold Commits
    simp only [dispatch, TokenContractCalls.touchDeal, require_bind_ok, pure_ok, Except.ok.injEq]
    constructor
    · rintro ⟨⟨h1, rfl⟩, -⟩
      exact ⟨h1, rfl⟩
    · rintro ⟨h1, rfl⟩
      exact ⟨⟨h1, rfl⟩, hf⟩
  have hguard : (m.sender = e.buyer ∨ m.sender = e.sellerNote ↔
      m.sender = z.buyer ∨ m.sender = z.sellerNote) := by
    rw [h.same]
  have he := hform e h.clean'
  rw [hguard] at he
  exact matched_of_guard (hform z h.clean) he (fun _ => .inr (.inl h.toAhead))

/-- A fill that meets a matched deal is sent back. -/
theorem Pair.fundFromOrderBook {p k f : ℕ} {b : Address} (h : Pair z e) :
    Matched E m z e (.fundFromOrderBook p b k f) := by
  have hform : ∀ s : Deal, s.fault = false → s.funded = true → ∀ t,
      Commits E m s (.fundFromOrderBook p b k f) t ↔
      (p = 0 ∨ s.iobHash ≠ 0 ∧ (m.sender ≠ orderBook E s ∨ s.balance + p < u128 ∧
        fillBond f s.pricePerTick < u128 ∧ 2 * unit s.pricePerTick < u128)) ∧
      t = if p = 0 ∨ m.sender ≠ orderBook E s then s
        else payShell .fillBuyer b p (acceptHandover p f m s) := by
    intro s hf hfu t
    unfold Commits
    by_cases hp : p = 0
    · simp only [dispatch, TokenContractCalls.fundFromOrderBook, hp, if_true, true_or, pure_ok,
        Except.ok.injEq, true_and]
      exact ⟨fun ht => ht.1.symm, fun ht => ⟨ht.symm, by rw [ht]; exact hf⟩⟩
    · by_cases hm : m.sender = orderBook E s
      · simp only [dispatch, TokenContractCalls.fundFromOrderBook, hp, if_false, require_bind_ok,
          hm, ne_eq, not_true, hfu, true_or, if_true, pure_ok, Except.ok.injEq, false_or, or_self]
        constructor
        · rintro ⟨⟨hh, rfl⟩, hfault⟩
          simp only [acceptHandover, payShell, Deal.check, Deal.send, Deal.sendIf, hf,
            Bool.false_or, Bool.or_eq_false_iff, Bool.not_eq_false', decide_eq_true_eq] at hfault
          exact ⟨⟨hh, hfault.1.1, hfault.1.2⟩, rfl⟩
        · rintro ⟨⟨hh, h1, h2⟩, rfl⟩
          refine ⟨⟨hh, rfl⟩, ?_⟩
          simp [acceptHandover, payShell, Deal.check, Deal.send, Deal.sendIf, hf, h1, h2]
      · simp only [dispatch, TokenContractCalls.fundFromOrderBook, hp, if_false, require_bind_ok,
          hm, ne_eq, not_false_eq_true, if_true, pure_ok, Except.ok.injEq, false_or, true_or,
          and_true]
        constructor
        · rintro ⟨⟨hh, rfl⟩, -⟩
          exact ⟨hh, rfl⟩
        · rintro ⟨hh, rfl⟩
          exact ⟨⟨hh, rfl⟩, hf⟩
  have hrelist : ∀ s t : Deal, s.funded = true → Commits E m s (.fundFromOrderBook p b k f) t →
      Relisted s t := by
    rintro s t hfu ⟨hok, hfault⟩
    rcases fundFromOrderBook_ok hok hfault with hr | ⟨-, hfill⟩
    · exact hr
    · have hun := hfill.unfunded
      rw [hfu] at hun
      cases hun
  have hlist : ∀ (s : Deal) (q : Prop) [Decidable q],
      let t := if q then s else payShell .fillBuyer b p (acceptHandover p f m s)
      t.iobHash = s.iobHash ∧ t.iobDepth = s.iobDepth ∧
        t.noteAuthorized = s.noteAuthorized ∧ t.offerPosted = s.offerPosted := by
    intro s q _ t
    by_cases hq : q
    · simp only [t, if_pos hq, and_self]
    · simp only [t, if_neg hq]
      exact ⟨rfl, rfl, rfl, rfl⟩
  have hfields : e.iobHash = z.iobHash ∧ e.iobDepth = z.iobDepth ∧
      e.noteAuthorized = z.noteAuthorized ∧ e.offerPosted = z.offerPosted ∧
      orderBook E e = orderBook E z ∧ e.balance = z.balance ∧
      e.pricePerTick = z.pricePerTick := by
    rw [h.same]
    exact ⟨rfl, rfl, rfl, rfl, rfl, rfl, rfl⟩
  obtain ⟨h1, h2, h3, h4, h5, h6, h7⟩ := hfields
  have hz := hform z h.clean h.lazyStreaming.funded
  have he := hform e h.clean' h.eagerStreaming.funded
  rw [h1, h5, h6, h7] at he
  refine matched_of_guard hz he (fun hg => .inr (.inl ?_))
  obtain ⟨y1, y2, y3, y4⟩ := hlist z (p = 0 ∨ m.sender ≠ orderBook E z)
  obtain ⟨f1, f2, f3, f4⟩ := hlist e (p = 0 ∨ m.sender ≠ orderBook E z)
  exact h.toAhead.relisted (hrelist z _ h.lazyStreaming.funded ((hz _).mpr ⟨hg, rfl⟩))
    (hrelist e _ h.eagerStreaming.funded ((he _).mpr ⟨hg, rfl⟩))
    ⟨(f1.trans h1).trans y1.symm, (f2.trans h2).trans y2.symm, (f3.trans h3).trans y3.symm,
      (f4.trans h4).trans y4.symm⟩

/-! ## Whole schedules -/

/-- `settleWeek` that leaves the deal as alive as it was: what an extra keeper call is. -/
def idle (E : Env) (s : Deal) (tx : Tx) : Bool :=
  tx.call = .settleWeek && (s.destroyed || !(TransactionSystem.attempt (exec E) s tx).destroyed)

def Timely (now : ℕ) : List Tx → Prop
  | [] => True
  | tx :: l => now ≤ tx.msg.now ∧ tx.msg.now < 2 ^ 63 ∧ Timely tx.msg.now l

def Undrawn (l : List Tx) : Prop := ∀ tx ∈ l, ∀ a, tx.call ≠ .withdrawShell a

theorem Timely.mono {a b : ℕ} {l : List Tx} (h : Timely b l) (hab : a ≤ b) : Timely a l := by
  cases l with
  | nil => trivial
  | cons tx l => exact ⟨hab.trans h.1, h.2⟩

structure Sim (l : List Tx) (z e : Deal) : Prop where
  kept : Kept z e
  undrawn : Undrawn l
  live : z.destroyed = false → e.destroyed = false →
    Invariant z ∧ Invariant e ∧ Timely z.now l ∧ Timely e.now l

theorem exec_iff (hlive : s.destroyed = false) {tx : Tx} :
    exec E tx s = .ok t ↔ Commits E tx.msg (enter tx.msg s) tx.call t := by
  constructor
  · intro h
    exact (exec_ok h).2
  · rintro ⟨hok, hf⟩
    exact exec_of_dispatch hlive hok hf

theorem exec_destroyed (hdead : s.destroyed = true) (tx : Tx) : ∀ t, exec E tx s ≠ .ok t := by
  intro t h
  have hlive := (exec_ok h).1
  rw [hdead] at hlive
  cases hlive

theorem Kept.destroyed (h : Kept z e) : e.destroyed = z.destroyed := by
  rcases h with rfl | ha | ⟨hz, he, -⟩
  · rfl
  · rw [ha.same]
  · rw [hz, he]

/-- One transaction on both records. -/
theorem pair_matched {tx : Tx} (h : Ahead z e) (hz : Invariant z) (he : Invariant e)
    (hlz : z.now ≤ tx.msg.now) (hle : e.now ≤ tx.msg.now) (hclock : tx.msg.now < 2 ^ 63)
    (hlive : e.destroyed = false) (hdraw : ∀ a, tx.call ≠ .withdrawShell a)
    (hidle : idle E e tx = false) :
    Matched E tx.msg (enter tx.msg z) (enter tx.msg e) tx.call := by
  have hp : Pair (enter tx.msg z) (enter tx.msg e) :=
    ⟨h.enter tx.msg, hz.enter hlz hclock, he.enter hle hclock, rfl, rfl, rfl⟩
  have hearly : Early tx.call → Matched E tx.msg (enter tx.msg z) (enter tx.msg e) tx.call :=
    fun hc => .inr ⟨fun _ => early_refused hp.lazyStreaming hc,
      fun _ => early_refused hp.eagerStreaming hc⟩
  obtain ⟨m, c⟩ := tx
  cases c with
  | fundFromOrderBook p b k f => exact hp.fundFromOrderBook
  | postFromNote a b i k d => exact hp.postFromNote
  | onSellClosed => exact hp.onSellClosed
  | close => exact hearly trivial
  | fundDeal a c => exact hearly trivial
  | fundBuyerBond a => exact hearly trivial
  | openDeal c => exact hearly trivial
  | acceptProbe => exact hearly trivial
  | claimTokens n => exact hp.claimTokens
  | finalize => exact hp.finalize
  | settleWeek =>
    -- not idle, so it was committed and closed the deal
    simp only [idle, decide_true, Bool.true_and, hlive, Bool.false_or, Bool.not_eq_false'] at hidle
    cases hok : exec E ⟨m, .settleWeek⟩ e with
    | error err =>
      rw [TransactionSystem.attempt_refused (by rw [hok]; simp), hlive] at hidle
      cases hidle
    | ok t =>
      rw [TransactionSystem.attempt_ok hok] at hidle
      exact hp.settleWeek ((exec_iff hlive).mp hok) hidle hlive
  | stop => exact hp.stop
  | sellerStop => exact hp.sellerStop
  | dispute => exact hp.dispute
  | releaseDispute => exact hp.releaseDispute
  | resolveDisputeTimeout => exact hp.resolveDisputeTimeout
  | cleanupUnopened => exact hearly trivial
  | withdrawShell a => exact absurd rfl (hdraw a)
  | destroy => exact hearly trivial
  | touchDeal => exact hp.touchDeal

theorem committed_live {tx : Tx} (hi : Invariant s) (hle : s.now ≤ tx.msg.now)
    (hclock : tx.msg.now < 2 ^ 63) (hok : exec E tx s = .ok t) (hlive : t.destroyed = false) :
    Invariant t ∧ t.now = tx.msg.now := by
  obtain ⟨-, hd, hf⟩ := exec_ok hok
  have hent : Invariant (enter tx.msg s) := hi.enter hle hclock
  exact ⟨dispatch_invariant hent hd hf hlive, dispatch_now hent hd hf hlive⟩

theorem Sim.skip {tx : Tx} {l : List Tx} (h : Sim (tx :: l) z e) (hidle : idle E e tx = true) :
    Sim l z (TransactionSystem.attempt (exec E) e tx) := by
  simp only [idle, Bool.and_eq_true, decide_eq_true_eq] at hidle
  obtain ⟨hcall, hdead⟩ := hidle
  have hstay : Sim l z e := by
    refine ⟨h.kept, fun tx htx => h.undrawn tx (List.mem_cons_of_mem _ htx), fun hz he => ?_⟩
    obtain ⟨i1, i2, t1, t2⟩ := h.live hz he
    exact ⟨i1, i2, t1.2.2.mono t1.1, t2.2.2.mono t2.1⟩
  cases hok : exec E tx e with
  | error err =>
    rw [TransactionSystem.attempt_refused (by rw [hok]; simp)]
    exact hstay
  | ok t =>
    obtain ⟨hlive, hd, hf⟩ := exec_ok hok
    rw [TransactionSystem.attempt_ok hok] at hdead ⊢
    have hlt : t.destroyed = false := by simpa [hlive] using hdead
    have hlz : z.destroyed = false := h.kept.destroyed.symm.trans hlive
    obtain ⟨i1, i2, t1, t2⟩ := h.live hlz hlive
    obtain ⟨it, hnow⟩ := committed_live i2 t2.1 t2.2.1 hok hlt
    have hent : Invariant (enter tx.msg e) := i2.enter t2.1 t2.2.1
    rw [hcall] at hd
    obtain ⟨hsub, hs, -, -, u, hu, -, -, hcase⟩ := settleWeek_inv hent hd
    obtain rfl : t = u := by
      rcases hcase with ⟨rfl, -⟩ | ⟨-, -, rfl⟩
      · rfl
      · rw [payFinalAndClose_destroyed] at hlt
        cases hlt
    have hahead : Ahead z (enter tx.msg e) := by
      rcases h.kept with rfl | ha | ⟨hz, -⟩
      · exact (Ahead.refl hs.accepted hsub : Ahead z z).later tx.msg
      · exact ha.later tx.msg
      · rw [hz] at hlz
        cases hlz
    refine ⟨.inr (.inl (hahead.booked hent hu)), hstay.undrawn,
      fun _ _ => ⟨i1, it, t1.2.2.mono t1.1, ?_⟩⟩
    rw [hnow]
    exact t2.2.2

theorem Sim.keep {tx : Tx} {l : List Tx} (h : Sim (tx :: l) z e) (hidle : idle E e tx = false) :
    TransactionSystem.accepts (exec E) z tx = TransactionSystem.accepts (exec E) e tx ∧
      Sim l (TransactionSystem.attempt (exec E) z tx)
        (TransactionSystem.attempt (exec E) e tx) := by
  have hstay : Sim l z e := by
    refine ⟨h.kept, fun tx htx => h.undrawn tx (List.mem_cons_of_mem _ htx), fun hz he => ?_⟩
    obtain ⟨i1, i2, t1, t2⟩ := h.live hz he
    exact ⟨i1, i2, t1.2.2.mono t1.1, t2.2.2.mono t2.1⟩
  have hrefused : (∀ t, exec E tx z ≠ .ok t) → (∀ t, exec E tx e ≠ .ok t) →
      TransactionSystem.accepts (exec E) z tx = TransactionSystem.accepts (exec E) e tx ∧
      Sim l (TransactionSystem.attempt (exec E) z tx)
        (TransactionSystem.attempt (exec E) e tx) := by
    intro hz he
    rw [TransactionSystem.accepts_refused hz, TransactionSystem.accepts_refused he,
      TransactionSystem.attempt_refused hz, TransactionSystem.attempt_refused he]
    exact ⟨rfl, hstay⟩
  cases hdead : z.destroyed with
  | true =>
    have hde : e.destroyed = true := h.kept.destroyed.trans hdead
    exact hrefused (exec_destroyed hdead tx) (exec_destroyed hde tx)
  | false =>
    have hde : e.destroyed = false := h.kept.destroyed.trans hdead
    obtain ⟨i1, i2, t1, t2⟩ := h.live hdead hde
    have hcommit : ∀ {y f : Deal}, exec E tx z = .ok y → exec E tx e = .ok f → Kept y f →
        TransactionSystem.accepts (exec E) z tx = TransactionSystem.accepts (exec E) e tx ∧
        Sim l (TransactionSystem.attempt (exec E) z tx)
          (TransactionSystem.attempt (exec E) e tx) := by
      intro y f hy hf hkept
      rw [TransactionSystem.accepts_ok hy, TransactionSystem.accepts_ok hf,
        TransactionSystem.attempt_ok hy, TransactionSystem.attempt_ok hf]
      refine ⟨rfl, hkept, hstay.undrawn, fun hly hlf => ?_⟩
      obtain ⟨iy, hny⟩ := committed_live i1 t1.1 t1.2.1 hy hly
      obtain ⟨jf, hnf⟩ := committed_live i2 t2.1 t2.2.1 hf hlf
      rw [hny, hnf]
      exact ⟨iy, jf, t1.2.2, t2.2.2⟩
    rcases h.kept with rfl | ha | ⟨hz, -⟩
    · cases hok : exec E tx z with
      | error err => exact hrefused (by rw [hok]; simp) (by rw [hok]; simp)
      | ok t => exact hcommit hok hok (.inl rfl)
    · rcases pair_matched ha i1 i2 t1.1 t2.1 t1.2.1 hde
        (h.undrawn tx List.mem_cons_self) hidle with ⟨y, f, hy, hf, hkept⟩ | ⟨hz, he⟩
      · exact hcommit ((exec_iff hdead).mpr hy) ((exec_iff hde).mpr hf) hkept
      · exact hrefused (fun t ht => hz t ((exec_iff hdead).mp ht))
          (fun t ht => he t ((exec_iff hde).mp ht))
    · rw [hz] at hdead
      cases hdead

theorem Kept.quiet (h : Kept z e) : Quiet z e := by
  rcases h with rfl | ha | ⟨-, -, hq⟩
  · exact .refl z
  · exact ha.quiet
  · exact hq

/-- Every transaction that is no idle `settleWeek`, with whether it was accepted. -/
def fate (E : Env) (l : List Tx) (s : Deal) : List (Tx × Bool) :=
  TransactionSystem.outcomes (exec E) (idle E) l s

/-- Keepers decide nothing. Two schedules on the same deal that differ in `settleWeek` calls that
do not close it fare alike: every other call is accepted in both or in neither, both close the deal
or neither does, and the totals credited and written off are the same. -/
theorem keeper_independence (s : Deal) (l l' : List Tx) (h : Reachable E AnyTx s)
    (hlive : s.destroyed = false) (ht : Timely s.now l) (ht' : Timely s.now l')
    (hd : Undrawn l) (hd' : Undrawn l')
    (hcalls : (fate E l s).map Prod.fst = (fate E l' s).map Prod.fst) :
    fate E l s = fate E l' s ∧
      (TransactionSystem.after (exec E) l s).destroyed =
        (TransactionSystem.after (exec E) l' s).destroyed ∧
      Quiet (TransactionSystem.after (exec E) l s)
        (TransactionSystem.after (exec E) l' s) := by
  have hi := reachable_invariant h hlive
  have hsim : ∀ l, Timely s.now l → Undrawn l →
      fate E l s = TransactionSystem.verdicts (exec E) ((fate E l s).map Prod.fst) s ∧
      Sim [] (TransactionSystem.after (exec E) ((fate E l s).map Prod.fst) s)
        (TransactionSystem.after (exec E) l s) := by
    intro l ht hd
    exact TransactionSystem.outcomes_of_simulation
      (fun a l z e hs hk => hs.skip hk) (fun a l z e hs hk => hs.keep hk) l
      ⟨.inl rfl, hd, fun _ _ => ⟨hi, hi, ht, ht⟩⟩
  obtain ⟨hout, hend⟩ := hsim l ht hd
  obtain ⟨hout', hend'⟩ := hsim l' ht' hd'
  rw [hcalls] at hout hend
  have hq := hend.kept.quiet
  have hq' := hend'.kept.quiet
  refine ⟨hout.trans hout'.symm, hend.kept.destroyed.trans hend'.kept.destroyed.symm, ?_⟩
  exact ⟨hq'.buyer.trans hq.buyer.symm, hq'.seller.trans hq.seller.symm,
    hq'.residual.trans hq.residual.symm, hq'.burned.trans hq.burned.symm,
    hq'.withdrawn.trans hq.withdrawn.symm⟩

def unattended : List Tx := [sellerTx 700100 (.claimTokens 1500000), buyerTx 1400000 .stop]

def attended : List Tx :=
  [strangerTx 700000 .settleWeek, sellerTx 700100 (.claimTokens 1500000),
    strangerTx 1300000 .settleWeek, buyerTx 1400000 .stop]

theorem keeper_independence_stop :
    ∃ s, Reachable sampleEnv AnyTx s ∧
      (TransactionSystem.after (exec sampleEnv) attended s).destroyed = true ∧
      fate sampleEnv attended s = fate sampleEnv unattended s ∧
      Quiet (TransactionSystem.after (exec sampleEnv) attended s)
        (TransactionSystem.after (exec sampleEnv) unattended s) := by
  have hplay : (played AnyTx subscribedSchedule).any (fun s =>
      !s.destroyed && decide (s.now = 300) &&
      idle sampleEnv s (strangerTx 700000 .settleWeek) &&
      idle sampleEnv (TransactionSystem.attempt (exec sampleEnv)
        (TransactionSystem.attempt (exec sampleEnv) s (strangerTx 700000 .settleWeek))
        (sellerTx 700100 (.claimTokens 1500000))) (strangerTx 1300000 .settleWeek) &&
      (TransactionSystem.after (exec sampleEnv) attended s).destroyed) = true := by
    decide
  obtain ⟨s, hs, hp⟩ := played_reachable hplay
  simp only [Bool.and_eq_true, Bool.not_eq_true', decide_eq_true_eq] at hp
  obtain ⟨⟨⟨⟨hlive, hnow⟩, hidle⟩, hidle'⟩, hdead⟩ := hp
  have hother : ∀ (s : Deal) (tx : Tx), tx.call ≠ .settleWeek → idle sampleEnv s tx = false := by
    intro s tx hc
    simp [idle, hc]
  have hcalls : (fate sampleEnv attended s).map Prod.fst =
      (fate sampleEnv unattended s).map Prod.fst := by
    simp only [fate, attended, unattended, TransactionSystem.outcomes, hidle, hidle', if_true]
    rw [hother _ (sellerTx _ _) (by simp [sellerTx]), hother _ (sellerTx _ _) (by simp [sellerTx]),
      hother _ (buyerTx _ _) (by simp [buyerTx]), hother _ (buyerTx _ _) (by simp [buyerTx])]
    rfl
  have htime : Timely s.now attended ∧ Timely s.now unattended := by
    rw [hnow]
    simp [Timely, attended, unattended, sellerTx, buyerTx, strangerTx]
  have hdraw : Undrawn attended ∧ Undrawn unattended := by
    simp [Undrawn, attended, unattended, sellerTx, buyerTx, strangerTx]
  obtain ⟨hfate, -, hquiet⟩ := keeper_independence s attended unattended hs hlive htime.1 htime.2
    hdraw.1 hdraw.2 hcalls
  exact ⟨s, hs, hdead, hfate, hquiet⟩

end TokenContractKeepers
