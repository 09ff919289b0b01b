import Dexdo.StreamMachine
import Dexdo.TokenContractKeepers

/-! # The stream machine beside the contract

The client's mock settles deals with `StreamMachine`, a second implementation of the rules of a
TokenContract. -/
namespace TokenContractProjection

open TokenContractState TokenContractCalls TokenContractCharges TokenContractPayouts
open TokenContractSteps TokenContractInvariant TokenContractExits TokenContractStreaming
open TokenContractDisputes TokenContractSplit StreamMachine

/-! ## The two side by side -/

inductive Transition where
  | acceptProbe
  | claimTokens (ticks : ℕ)
  | finalize
  | dispute

namespace Transition

def call : Transition → Call
  | acceptProbe => .acceptProbe
  | claimTokens ticks => .claimTokens (ticks * tickSize)
  | finalize => .finalize
  | dispute => .dispute

def apply (k : Machine) : Transition → Except InvariantError Machine
  | acceptProbe => k.onProbeAccepted
  | claimTokens ticks => k.onClaim ticks
  | finalize => k.onPromote
  | dispute => .ok k.buyerDispute

def Authorised (m : Msg) (s : Deal) : Transition → Prop
  | acceptProbe | claimTokens _ => m.pubkey = s.sellerPubkey
  | finalize => True
  | dispute => m.sender = s.buyer

def Timely (m : Msg) (s : Deal) : Transition → Prop
  | acceptProbe => s.probeTime + probeWindow ≤ m.now
  | claimTokens _ | finalize => s.lastClaimTime + claimPromoteWindow ≤ m.now
  | dispute => True

end Transition

inductive Exit where
  | stop | sellerStop | releaseDispute | resolveDisputeTimeout
  deriving DecidableEq

namespace Exit

def call : Exit → Call
  | stop => .stop
  | sellerStop => .sellerStop
  | releaseDispute => .releaseDispute
  | resolveDisputeTimeout => .resolveDisputeTimeout

def apply (k : Machine) : Exit → Option (Settlement × Machine)
  | stop => k.buyerStop
  | sellerStop => k.sellerStop
  | releaseDispute => k.releaseDispute
  | resolveDisputeTimeout => some k.resolveDisputeTimeout

end Exit

def Beside (c : Call) : Prop :=
  c ≠ .acceptProbe ∧ c ≠ .finalize ∧ c ≠ .dispute ∧ ∀ n, c ≠ .claimTokens n

/-- An ordinary deal and its machine, from the opening on. -/
inductive Joint (env : Env) (Φ : Deal → Transition → Prop) : Deal → Machine → Prop where
  | opened {s t m c} : Reachable env AnyTx s → s.subWeeks = 0 → s.pricePerTick ≤ shellMax →
      Admissible s ⟨m, .openDeal c⟩ → exec env ⟨m, .openDeal c⟩ s = .ok t →
      Joint env Φ t (.openStream t.pricePerTick)
  | moved {s t k k' m} (tr) : Joint env Φ s k → Admissible s ⟨m, Transition.call tr⟩ → Φ s tr →
      exec env ⟨m, tr.call⟩ s = .ok t → tr.apply k = .ok k' → Joint env Φ t k'
  | aside {s t k m c} : Joint env Φ s k → Admissible s ⟨m, c⟩ → Beside c →
      exec env ⟨m, c⟩ s = .ok t → t.destroyed = false → Joint env Φ t k

/-- The fees in what a closing call writes off: on the trial tick and on the tokens paid since,
less the rebate of a clean close. -/
def netFees (ex : Exit) (s t : Deal) : ℕ :=
  if s.probeAccepted then
    let f := fee s.pricePerTick + fee (valueOf s.pricePerTick (t.tokensPaid - tickSize))
    if ex = .stop ∨ ex = .sellerStop then f - min (rebate s.pricePerTick t.ticksFinalized) f else f
  else 0

/-- The machine projects the contract here: the marks agree, the next non-terminal step is taken
by both or by neither, and an exit pays and burns what the settlement says. -/
structure Projects (env : Env) (Φ : Deal → Transition → Prop) (Ψ : Deal → Exit → Prop) (s : Deal)
    (k : Machine) : Prop where
  trusted : k.trustedTicks = s.tokensFinal / tickSize
  pending : k.pendingTicks = s.tokensPend / tickSize
  accepts : ∀ (tr : Transition) (m : Msg), Admissible s ⟨m, tr.call⟩ → tr.Authorised m s →
    tr.Timely m s → Φ s tr →
      ((∃ k', tr.apply k = .ok k') ↔ ∃ t, exec env ⟨m, tr.call⟩ s = .ok t)
  settles : ∀ (ex : Exit) (m : Msg) (t : Deal), Admissible s ⟨m, ex.call⟩ → Ψ s ex →
    exec env ⟨m, ex.call⟩ s = .ok t → ∃ settlement k', ex.apply k = some (settlement, k') ∧
      settlement.sellerTicks = t.tokensPaid / tickSize ∧
      t.burned = s.burned + settlement.burned + netFees ex s t

/-! ## Where they agree -/

/-- Past the trial and undisputed, a claim states at most one tick more, inside the volume, and
restates a claim only when nothing is contested; a promotion has a claim to promote and leaves
volume to claim. A dispute is raised once. -/
def Sound (s : Deal) : Transition → Prop
  | .acceptProbe => True
  | .claimTokens ticks => s.probeAccepted = true → s.disputed = false →
      ticks * tickSize ≤ s.tokensPend + tickSize ∧ ticks * tickSize ≤ s.fundedTokens ∧
        (ticks * tickSize = s.tokensPend → s.tokensFinal = s.tokensPend)
  | .finalize => s.probeAccepted = true → s.disputed = false →
      s.tokensFinal < s.tokensPend ∧ s.tokensPend < s.fundedTokens
  | .dispute => s.disputed = false

/-- The deal ends on the trial: the buyer walks away, or a dispute with both bonds in full runs
out. -/
def SoundExit (s : Deal) : Exit → Prop
  | .stop => s.probeAccepted = false
  | .resolveDisputeTimeout => s.probeAccepted = false ∧ s.buyerBond = bondAmount s.pricePerTick ∧
      bondAmount s.pricePerTick ≤ shellMax
  | .sellerStop | .releaseDispute => False

/-- The state of the machine that stands for a deal. -/
inductive Shows (s : Deal) : StreamState → Prop where
  | probe : s.probeAccepted = false → s.disputed = false → Shows s (.probe ⟨0, s.pricePerTick⟩)
  | streaming (a b) : s.probeAccepted = true → s.disputed = false →
      s.tokensFinal = a * tickSize → s.tokensPend = b * tickSize → Shows s (.streaming a b)
  | disputed (a c) : s.disputed = true → s.tokensFinal = a * tickSize →
      s.tokensPend = (a + c) * tickSize → Shows s (.disputed a c)

structure Mirrors (s : Deal) (k : Machine) : Prop where
  live : s.destroyed = false
  inv : Invariant s
  opened : s.opened = true
  ordinary : s.subWeeks = 0
  shell : s.pricePerTick ≤ shellMax
  price : k.price = s.pricePerTick
  bond : k.sellerBond = s.pricePerTick * 2
  shows : Shows s k.state

variable {env : Env} {m : Msg} {s t : Deal} {k k' : Machine} {c : Call}

theorem tickSize_pos : 0 < tickSize := by decide

theorem Mirrors.final_le (h : Mirrors s k) : s.tokensFinal ≤ s.tokensPend := by
  rcases h.inv.stage with hi | ht | hs
  · rw [hi.tokensFinal]
    exact Nat.zero_le _
  · rw [ht.tokensFinal]
    exact Nat.zero_le _
  · exact hs.final_le_pend

theorem Mirrors.trial (h : Mirrors s k) (ha : s.probeAccepted = false) : Trial s :=
  h.inv.trial h.opened ha

theorem Mirrors.marks (h : Mirrors s k) :
    k.trustedTicks = s.tokensFinal / tickSize ∧ k.pendingTicks = s.tokensPend / tickSize := by
  have hshows := h.shows
  generalize hst : k.state = st at hshows
  cases hshows with
  | probe ha hd =>
    have ht := h.trial ha
    simp [Machine.trustedTicks, Machine.pendingTicks, hst, ht.tokensFinal, ht.tokensPend]
  | streaming a b ha hd hfinal hpend =>
    simp [Machine.trustedTicks, Machine.pendingTicks, hst, hfinal, hpend,
      Nat.mul_div_cancel _ tickSize_pos]
  | disputed a c hd hfinal hpend =>
    simp [Machine.trustedTicks, Machine.pendingTicks, hst, hfinal, hpend,
      Nat.mul_div_cancel _ tickSize_pos]

theorem Shows.congr {st : StreamState} (h : Shows s st) (hp : t.pricePerTick = s.pricePerTick)
    (ha : t.probeAccepted = s.probeAccepted) (hd : t.disputed = s.disputed)
    (hf : t.tokensFinal = s.tokensFinal) (hn : t.tokensPend = s.tokensPend) : Shows t st := by
  cases h with
  | probe h1 h2 =>
    rw [← hp]
    exact .probe (ha.trans h1) (hd.trans h2)
  | streaming a b h1 h2 h3 h4 =>
    exact .streaming a b (ha.trans h1) (hd.trans h2) (hf.trans h3) (hn.trans h4)
  | disputed a c h1 h2 h3 => exact .disputed a c (hd.trans h1) (hf.trans h2) (hn.trans h3)

theorem Mirrors.enter (h : Mirrors s k) (ha : Admissible s ⟨m, c⟩) : Mirrors (enter m s) k where
  live := h.live
  inv := h.inv.enter ha.later ha.clock
  opened := h.opened
  ordinary := h.ordinary
  shell := h.shell
  price := h.price
  bond := h.bond
  shows := h.shows.congr rfl rfl rfl rfl rfl

theorem ordinary_books (hz : s.subWeeks = 0) : settledBooks s = s := by
  have hle : weeksElapsed s ≤ s.subWeeks := weeksElapsedAt_le _ _
  have hzero : weeksElapsed s - s.weekIndex = 0 := by omega
  unfold settledBooks
  rw [hzero]
  rfl

/-! ## One step of both -/

theorem mirrors_opened (hs : Reachable env AnyTx s) (hz : s.subWeeks = 0)
    (hshell : s.pricePerTick ≤ shellMax) {b : Bytes} (ha : Admissible s ⟨m, .openDeal b⟩)
    (hok : exec env ⟨m, .openDeal b⟩ s = .ok t) : Mirrors t (.openStream t.pricePerTick) := by
  obtain ⟨hlive, hd, hf⟩ := exec_ok hok
  have hi := (reachable_invariant hs hlive).enter ha.later ha.clock
  obtain ⟨hfu, ho, -, -, -, -, heq⟩ := openDeal_ok hd
  have hquiet := (hi.idle ho).undisputed
  have hfields : t.destroyed = false ∧ t.opened = true ∧ t.subWeeks = 0 ∧
      t.pricePerTick = s.pricePerTick ∧ t.probeAccepted = false ∧ t.disputed = s.disputed := by
    rw [heq]
    exact ⟨hlive, rfl, hz, rfl, rfl, rfl⟩
  obtain ⟨h1, h2, h3, h4, h5, h6⟩ := hfields
  exact ⟨h1, dispatch_invariant hi hd hf h1, h2, h3, h4 ▸ hshell, rfl, rfl,
    .probe h5 (h6.trans hquiet)⟩

theorem accept_mirrors (h : Mirrors s k) (hok : acceptProbe m s = .ok t) (hf : t.fault = false)
    (hk : k.onProbeAccepted = .ok k') : Mirrors t k' := by
  obtain ⟨ho, hd, ha, -, -, heq⟩ := acceptProbe_ok hok hf
  have hi := acceptProbe_invariant h.inv hok hf
  have hfields : t.destroyed = s.destroyed ∧ t.opened = s.opened ∧ t.subWeeks = s.subWeeks ∧
      t.pricePerTick = s.pricePerTick ∧ t.probeAccepted = true ∧ t.disputed = s.disputed ∧
      t.tokensFinal = tickSize ∧ t.tokensPend = tickSize := by
    rw [heq]
    exact ⟨rfl, rfl, rfl, rfl, rfl, rfl, rfl, rfl⟩
  obtain ⟨h1, h2, h3, h4, h5, h6, h7, h8⟩ := hfields
  have hstate : k' = { k with state := .streaming 1 1 } := by
    unfold Machine.onProbeAccepted at hk
    split at hk
    · cases hk
      rfl
    · cases hk
  rw [hstate]
  exact ⟨h1.trans h.live, hi, h2.trans h.opened, h3.trans h.ordinary, h4 ▸ h.shell,
    h.price.trans h4.symm, by rw [h4]; exact h.bond,
    .streaming 1 1 h5 (h6.trans hd) (by rw [h7, Nat.one_mul]) (by rw [h8, Nat.one_mul])⟩

theorem Mirrors.streams (h : Mirrors s k) (ha : s.probeAccepted = true)
    (hd : s.disputed = false) : ∃ a b, k.state = .streaming a b ∧
      s.tokensFinal = a * tickSize ∧ s.tokensPend = b * tickSize := by
  have hshows := h.shows
  generalize hst : k.state = st at hshows
  cases hshows with
  | probe ha' _ =>
    rw [ha] at ha'
    cases ha'
  | streaming a b _ _ hfinal hpend => exact ⟨a, b, rfl, hfinal, hpend⟩
  | disputed a c hd' _ _ =>
    rw [hd] at hd'
    cases hd'

theorem claim_mirrors {n : ℕ} (h : Mirrors s k)
    (hok : claimTokens env (n * tickSize) m s = .ok t) (hf : t.fault = false)
    (hsound : Sound s (.claimTokens n)) (hk : k.onClaim n = .ok k') : Mirrors t k' := by
  have hi := claimTokens_invariant h.inv hok hf
  obtain ⟨-, -, hd, ha, hcase⟩ := claimTokens_ok hok hf h.inv.base.start_le_now
  obtain ⟨a, b, hst, hfinal, hpend⟩ := h.streams ha hd
  rw [Machine.onClaim_streaming hst] at hk
  split at hk
  · cases hk
  cases hk
  rcases hcase with ⟨hsame, rfl⟩ | ⟨hlt, u, hclaim⟩
  · -- a claim restated: nothing moves on the contract, and there was nothing to promote
    have hn : n = b := Nat.eq_of_mul_eq_mul_right tickSize_pos (hsame.trans hpend)
    have hsettled := (hsound ha hd).2.2 hsame
    rw [hn]
    exact ⟨h.live, hi, h.opened, h.ordinary, h.shell, h.price, h.bond,
      .streaming b b ha hd (hsettled.trans hpend) hpend⟩
  · have hs := h.inv.streaming ha
    obtain ⟨_, _, _, _, _, _, hu, -⟩ := booked_fields h.inv.base hs hclaim.booked
    have hfields : t.destroyed = s.destroyed ∧ t.opened = s.opened ∧ t.subWeeks = s.subWeeks ∧
        t.pricePerTick = s.pricePerTick ∧ t.probeAccepted = s.probeAccepted ∧
        t.disputed = s.disputed ∧ t.tokensFinal = s.tokensPend ∧
        t.tokensPend = n * tickSize := by
      rw [hclaim.eq, hu]
      exact ⟨rfl, rfl, rfl, rfl, rfl, rfl, rfl, rfl⟩
    obtain ⟨h1, h2, h3, h4, h5, h6, h7, h8⟩ := hfields
    exact ⟨h1.trans h.live, hi, h2.trans h.opened, h3.trans h.ordinary, h4 ▸ h.shell,
      h.price.trans h4.symm, by rw [h4]; exact h.bond,
      .streaming b n (h5.trans ha) (h6.trans hd) (h7.trans hpend) h8⟩

theorem finalize_mirrors (h : Mirrors s k) (hok : finalize env s = .ok t)
    (hsound : Sound s .finalize) (hk : k.onPromote = .ok k') : Mirrors t k' := by
  obtain ⟨-, hd, hlt, -, hcase⟩ := finalize_ok hok h.inv.base.promote_lt
  have ha : s.probeAccepted = true := by
    cases ha : s.probeAccepted with
    | true => rfl
    | false =>
      have ht := h.trial ha
      rw [ht.tokensPend] at hlt
      omega
  obtain ⟨a, b, hst, hfinal, hpend⟩ := h.streams ha hd
  rw [Machine.onPromote_streaming hst] at hk
  cases hk
  have hroom := (hsound ha hd).2
  rcases hcase with rfl | ⟨-, hfull, -⟩
  · have hi := finalize_invariant h.inv hok h.live
    exact ⟨h.live, hi, h.opened, h.ordinary, h.shell, h.price, h.bond,
      .streaming b b ha hd hpend hpend⟩
  · omega

theorem dispute_mirrors (h : Mirrors s k) (hok : dispute m s = .ok t) :
    Mirrors t k.buyerDispute := by
  have hi := dispute_invariant h.inv hok
  have hle := h.final_le
  obtain ⟨-, -, hd, -, heq⟩ := dispute_ok hok
  have hfields : t.destroyed = s.destroyed ∧ t.opened = s.opened ∧ t.subWeeks = s.subWeeks ∧
      t.pricePerTick = s.pricePerTick ∧ t.disputed = true ∧ t.tokensFinal = s.tokensFinal ∧
      t.tokensPend = s.tokensPend := by
    rw [heq]
    exact ⟨rfl, rfl, rfl, rfl, rfl, rfl, rfl⟩
  obtain ⟨h1, h2, h3, h4, h5, h6, h7⟩ := hfields
  have hframe : k.buyerDispute.price = k.price ∧ k.buyerDispute.sellerBond = k.sellerBond := by
    unfold Machine.buyerDispute
    split <;> exact ⟨rfl, rfl⟩
  refine ⟨h1.trans h.live, hi, h2.trans h.opened, h3.trans h.ordinary, h4 ▸ h.shell,
    hframe.1.trans (h.price.trans h4.symm), by rw [hframe.2, h4]; exact h.bond, ?_⟩
  have hshows := h.shows
  generalize hst : k.state = st at hshows
  cases hshows with
  | probe ha _ =>
    have ht := h.trial ha
    have hstate : k.buyerDispute.state = .disputed 0 0 := by
      simp [Machine.buyerDispute, hst]
    rw [hstate]
    exact .disputed 0 0 h5 (by rw [h6, ht.tokensFinal, Nat.zero_mul])
      (by rw [h7, ht.tokensPend, Nat.zero_mul])
  | streaming a b _ _ hfinal hpend =>
    have hstate : k.buyerDispute.state = .disputed a (b - a) := by
      simp [Machine.buyerDispute, hst]
    have hab : a ≤ b := by
      rw [hfinal, hpend] at hle
      exact Nat.le_of_mul_le_mul_right hle tickSize_pos
    rw [hstate]
    exact .disputed a (b - a) h5 (h6.trans hfinal)
      (by rw [h7, hpend, Nat.add_sub_cancel' hab])
  | disputed a c hd' _ _ =>
    rw [hd] at hd'
    cases hd'

theorem aside_mirrors (h : Mirrors s k) (hc : Beside c) (hok : dispatch env m s c = .ok t)
    (hf : t.fault = false) (hlive : t.destroyed = false) : Mirrors t k := by
  have hi := dispatch_invariant h.inv hok hf hlive
  have hopen : s.opened = false → False := by
    intro ho
    rw [h.opened] at ho
    cases ho
  have hfields : t.opened = s.opened ∧ t.subWeeks = s.subWeeks ∧
      t.pricePerTick = s.pricePerTick ∧ t.probeAccepted = s.probeAccepted ∧
      t.disputed = s.disputed ∧ t.tokensFinal = s.tokensFinal ∧ t.tokensPend = s.tokensPend := by
    obtain ⟨hc1, hc2, hc3, hc4⟩ := hc
    cases ha : s.probeAccepted with
    | true =>
      have hstep := stream_step h.inv (h.inv.streaming ha) hok hf hlive
      cases hstep with
      | relisted _ _ _ hr =>
        rw [hr.eq]
        exact ⟨rfl, rfl, rfl, ha, rfl, rfl, rfl⟩
      | unchanged n _ => exact absurd rfl (hc4 n)
      | claimed n u _ _ _ _ _ => exact absurd rfl (hc4 n)
      | promoted _ _ _ => exact absurd rfl hc2
      | settled _ hsub _ _ => exact absurd h.ordinary hsub
      | disputed _ _ _ => exact absurd rfl hc3
      | drew a _ hbal =>
        rw [drawn_eq hbal]
        exact ⟨rfl, rfl, rfl, ha, rfl, rfl, rfl⟩
    | false =>
      have ht := h.trial ha
      have hstep := fresh_step h.inv ha hok hf hlive
      cases hstep with
      | relisted _ _ _ hr =>
        rw [hr.eq]
        exact ⟨rfl, rfl, rfl, ha, rfl, rfl, rfl⟩
      | filled p b k f _ hfill =>
        have hfu := hfill.unfunded
        rw [ht.funded] at hfu
        cases hfu
      | sellerBonded a c ho _ _ _ => exact (hopen ho).elim
      | buyerBonded a ho _ _ _ => exact (hopen ho).elim
      | opened c _ ho _ _ _ => exact (hopen ho).elim
      | accepted _ _ _ _ => exact absurd rfl hc1
      | disputed _ _ _ => exact absurd rfl hc3
      | cleaned ho _ => exact (hopen ho).elim
  obtain ⟨h2, h3, h4, h5, h6, h7, h8⟩ := hfields
  exact ⟨hlive, hi, h2.trans h.opened, h3.trans h.ordinary, h4 ▸ h.shell, h.price.trans h4.symm,
    by rw [h4]; exact h.bond, h.shows.congr h4 h5 h6 h7 h8⟩

theorem Sound.enter {tr : Transition} (h : Sound s tr) (m : Msg) : Sound (enter m s) tr := by
  cases tr <;> exact h

theorem joint_mirrors (h : Joint env Sound s k) : Mirrors s k := by
  induction h with
  | opened hs hz hshell ha hok => exact mirrors_opened hs hz hshell ha hok
  | moved tr _ ha hsound hok hk ih =>
    obtain ⟨-, hd, hf⟩ := exec_ok hok
    have hin := ih.enter ha
    cases tr with
    | acceptProbe => exact accept_mirrors hin hd hf hk
    | claimTokens n => exact claim_mirrors hin hd hf (hsound.enter _) hk
    | finalize => exact finalize_mirrors hin hd (hsound.enter _) hk
    | dispute =>
      cases hk
      exact dispute_mirrors hin hd
  | aside _ ha hc hok hlive ih =>
    obtain ⟨-, hd, hf⟩ := exec_ok hok
    exact aside_mirrors (ih.enter ha) hc hd hf hlive

/-! ## Acceptance -/

theorem Mirrors.onProbeAccepted_iff (h : Mirrors s k) :
    (∃ k', k.onProbeAccepted = .ok k') ↔ s.probeAccepted = false ∧ s.disputed = false := by
  have hshows := h.shows
  generalize hst : k.state = st at hshows
  cases hshows with
  | probe ha hd => simp [Machine.onProbeAccepted, hst, ha, hd]
  | streaming a b ha hd _ _ => simp [Machine.onProbeAccepted, hst, ha]
  | disputed a c hd _ _ => simp [Machine.onProbeAccepted, hst, hd]

theorem Mirrors.onClaim_iff (h : Mirrors s k) (n : ℕ) : (∃ k', k.onClaim n = .ok k') ↔
    s.probeAccepted = true ∧ s.disputed = false ∧ s.tokensPend ≤ n * tickSize := by
  have hshows := h.shows
  generalize hst : k.state = st at hshows
  cases hshows with
  | probe ha hd => simp [Machine.onClaim, hst, ha]
  | streaming a b ha hd _ hpend =>
    rw [Machine.onClaim_streaming hst, hpend, Nat.mul_le_mul_right_iff tickSize_pos]
    by_cases hlt : n < b
    · simp [hlt]
    · simp [hlt, ha, hd, Nat.le_of_not_lt hlt]
  | disputed a c hd _ _ => simp [Machine.onClaim, hst, hd]

theorem Mirrors.onPromote_iff (h : Mirrors s k) :
    (∃ k', k.onPromote = .ok k') ↔ s.probeAccepted = true ∧ s.disputed = false := by
  have hshows := h.shows
  generalize hst : k.state = st at hshows
  cases hshows with
  | probe ha hd => simp [Machine.onPromote, hst, ha]
  | streaming a b ha hd _ _ => simp [Machine.onPromote_streaming hst, ha, hd]
  | disputed a c hd _ _ => simp [Machine.onPromote, hst, hd]

theorem takeProbe_fault (hb : Backed s) (hwin : s.probeTime + probeWindow < u64) :
    (takeProbe s).fault = s.fault := by
  have hcov := hb.covered
  have hlt := hb.balance_lt
  unfold Deal.earmarks at hcov
  have hcut : (if fee s.pricePerTick > s.deposit then s.deposit
      else fee s.pricePerTick) ≤ s.deposit := by
    split <;> omega
  have hfits : s.finalizedOwed + s.probeTick < u128 ∧
      s.feeAccrued + (if fee s.pricePerTick > s.deposit then s.deposit
        else fee s.pricePerTick) < u128 := by omega
  simp only [takeProbe, Deal.check_pass hwin, Deal.check_pass hfits]
  rfl

theorem accept_accepts (h : Mirrors s k) (ha : Admissible s ⟨m, .acceptProbe⟩)
    (hkey : m.pubkey = s.sellerPubkey) (htime : s.probeTime + probeWindow ≤ m.now) :
    (∃ k', k.onProbeAccepted = .ok k') ↔ ∃ t, exec env ⟨m, .acceptProbe⟩ s = .ok t := by
  rw [h.onProbeAccepted_iff]
  constructor
  · rintro ⟨hpa, hd⟩
    refine ⟨takeProbe (TokenContractCalls.enter m s), exec_of_dispatch h.live ?_ ?_⟩
    · simp only [dispatch, acceptProbe, require_bind_ok]
      exact ⟨hkey, h.opened, hd, hpa, htime, rfl⟩
    · have hclock : m.now < 2 ^ 63 := ha.clock
      have hwin : s.probeTime + probeWindow < u64 := by
        unfold u64
        omega
      exact takeProbe_fault (h.enter ha).inv.base.toBacked hwin
  · rintro ⟨t, hok⟩
    obtain ⟨-, hd, hf⟩ := exec_ok hok
    obtain ⟨-, hq, hpa, -, -, -⟩ := acceptProbe_ok hd hf
    exact ⟨hpa, hq⟩

theorem claim_accepts {n : ℕ} (h : Mirrors s k) (ha : Admissible s ⟨m, .claimTokens (n * tickSize)⟩)
    (hkey : m.pubkey = s.sellerPubkey) (htime : s.lastClaimTime + claimPromoteWindow ≤ m.now)
    (hsound : Sound s (.claimTokens n)) :
    (∃ k', k.onClaim n = .ok k') ↔
      ∃ t, exec env ⟨m, .claimTokens (n * tickSize)⟩ s = .ok t := by
  rw [h.onClaim_iff]
  have hin := h.enter ha
  constructor
  · rintro ⟨hpa, hd, hle⟩
    obtain ⟨hslot, hroom, -⟩ := hsound hpa hd
    rcases hle.eq_or_lt with heq | hlt
    · refine ⟨TokenContractCalls.enter m s, exec_of_dispatch h.live ?_ rfl⟩
      simp only [dispatch, claimTokens, require_bind_ok]
      exact ⟨hkey, h.opened, hd, hpa, hle, if_pos heq.symm⟩
    · have hs := hin.inv.streaming hpa
      obtain ⟨ticks, hshape⟩ := hs.shape
      have hpw : s.tokensPerWeek = s.fundedTokens := by
        rcases hshape.kind with hk | hk
        · exact hk.2
        · exact absurd (h.ordinary.symm.trans hk.1) (by decide)
      have hbase : s.weekBaseTokens = 0 := by
        apply hs.base_zero
        have hw := hs.weeks
        have hz := hin.ordinary
        omega
      have hfit : s.fundedTokens < u128 := hshape.fits
      have hwait : claimPromoteWindow ≤ m.now - s.lastClaimTime := by omega
      have hgrants : TokenContractKeepers.Grants (n * tickSize) m (TokenContractCalls.enter m s)
          (settledBooks (TokenContractCalls.enter m s)) := by
        rw [ordinary_books hin.ordinary]
        refine ⟨⟨hkey, h.opened, hd, hlt⟩, ?_, ?_, hwait, ?_, ?_⟩
        · change s.weekBaseTokens + s.tokensPerWeek < u128
          omega
        · simpa [claimCap, isSubscription, TokenContractCalls.enter, h.ordinary] using hroom
        · change n * tickSize - s.tokensPend ≤ tickSize
          omega
        · change (n * tickSize - s.tokensPend) * claimPromoteWindow ≤
            (m.now - s.lastClaimTime) * tickSize
          have hdelta : n * tickSize - s.tokensPend ≤ tickSize := by omega
          calc (n * tickSize - s.tokensPend) * claimPromoteWindow
              ≤ tickSize * (m.now - s.lastClaimTime) := Nat.mul_le_mul hdelta hwait
            _ = (m.now - s.lastClaimTime) * tickSize := Nat.mul_comm _ _
      obtain ⟨t, hcommit⟩ := TokenContractKeepers.claimed_of_grants (E := env) hin.inv hs rfl hgrants
      exact ⟨t, exec_of_dispatch h.live hcommit.1 hcommit.2⟩
  · rintro ⟨t, hok⟩
    obtain ⟨-, hd, hf⟩ := exec_ok hok
    obtain ⟨-, -, hq, hpa, hcase⟩ := claimTokens_ok hd hf hin.inv.base.start_le_now
    refine ⟨hpa, hq, ?_⟩
    rcases hcase with ⟨heq, -⟩ | ⟨hlt, -⟩
    · exact heq.ge
    · exact hlt.le

theorem finalize_accepts (h : Mirrors s k) (ha : Admissible s ⟨m, .finalize⟩)
    (htime : s.lastClaimTime + claimPromoteWindow ≤ m.now) (hsound : Sound s .finalize) :
    (∃ k', k.onPromote = .ok k') ↔ ∃ t, exec env ⟨m, .finalize⟩ s = .ok t := by
  rw [h.onPromote_iff]
  have hin := h.enter ha
  have hwin := hin.inv.base.promote_lt
  constructor
  · rintro ⟨hpa, hd⟩
    obtain ⟨hlt, hroom⟩ := hsound hpa hd
    have hpro : promoteDue (TokenContractCalls.enter m s) =
        { TokenContractCalls.enter m s with tokensFinal := s.tokensPend } := by
      have hdue : (TokenContractCalls.enter m s).lastClaimTime + claimPromoteWindow ≤
          (TokenContractCalls.enter m s).now := htime
      rw [promoteDue_eq hwin, if_pos hdue, max_eq_right]
      · rfl
      · exact hlt.le
    refine ⟨{ TokenContractCalls.enter m s with tokensFinal := s.tokensPend },
      exec_of_dispatch h.live ?_ rfl⟩
    simp only [dispatch, finalize, require_bind_ok]
    refine ⟨⟨h.opened, hd⟩, ⟨hlt, htime⟩, ?_⟩
    rw [hpro, if_neg]
    · rfl
    · simp [isSubscription, TokenContractCalls.enter, hroom]
  · rintro ⟨t, hok⟩
    obtain ⟨-, hd, hf⟩ := exec_ok hok
    obtain ⟨-, hq, hlt, -, -⟩ := finalize_ok hd hwin
    refine ⟨?_, hq⟩
    by_contra hpa
    have ht := h.trial (by simpa using hpa)
    have hpend : (TokenContractCalls.enter m s).tokensPend = 0 := ht.tokensPend
    rw [hpend] at hlt
    exact absurd hlt (Nat.not_lt_zero _)

theorem dispute_accepts (h : Mirrors s k) (hbuyer : m.sender = s.buyer)
    (hsound : s.disputed = false) : ∃ t, exec env ⟨m, .dispute⟩ s = .ok t := by
  refine ⟨_, exec_of_dispatch h.live (t := { TokenContractCalls.enter m s with
    disputed := true, everDisputed := true, disputeTime := m.now }.send
      (.streamDisputed s.buyer m.now)) ?_ rfl⟩
  simp only [dispatch, dispute, require_bind_ok]
  exact ⟨h.opened, hbuyer, hsound, rfl⟩

/-! ## Settlement of a trial -/

theorem Mirrors.bond_eq (h : Mirrors s k) (ha : s.probeAccepted = false) :
    s.sellerBond = 2 * s.pricePerTick ∧ s.probeTick = s.pricePerTick ∧ s.tokensPaid = 0 ∧
      s.feeAccrued = 0 := by
  have ht := h.trial ha
  refine ⟨?_, ht.probeTick, ht.tokensPaid, ht.feeAccrued⟩
  rw [h.inv.base.sellerBond, ht.bonded]
  rfl

/-- The buyer walks out of the trial: the frozen tick burns and as much of the seller's bond. -/
theorem stop_settles (h : Mirrors s k) (ha : Admissible s ⟨m, .stop⟩)
    (hpa : s.probeAccepted = false) (hok : exec env ⟨m, .stop⟩ s = .ok t) :
    ∃ settlement k', k.buyerStop = some (settlement, k') ∧
      settlement.sellerTicks = t.tokensPaid / tickSize ∧
      t.burned = s.burned + settlement.burned + netFees .stop s t := by
  obtain ⟨-, hd, -⟩ := exec_ok hok
  have hin := h.enter ha
  obtain ⟨hbond, hprobe, hpaid, -⟩ := h.bond_eq hpa
  simp only [dispatch, stop, require_bind_ok, pure_ok, Except.ok.injEq] at hd
  obtain ⟨-, -, hq, rfl⟩ := hd
  have hbody : stopBody env (TokenContractCalls.enter m s) =
      stopOnProbe (TokenContractCalls.enter m s) := by
    have hacc : (TokenContractCalls.enter m s).probeAccepted = false := hpa
    simp [stopBody, hacc]
  rw [hbody]
  have hmoved := (stopOnProbe_moved hin.inv.base.toBacked).burned
  have hforfeit : probeForfeit (TokenContractCalls.enter m s) = s.pricePerTick := by
    change (if s.probeTick ≤ s.sellerBond then s.probeTick else s.sellerBond) = _
    rw [if_pos (by omega), hprobe]
  have hticks : (stopOnProbe (TokenContractCalls.enter m s)).tokensPaid = 0 := hpaid
  have hfees : netFees .stop s (stopOnProbe (TokenContractCalls.enter m s)) = 0 := by
    simp [netFees, hpa]
  have hburned : (stopOnProbe (TokenContractCalls.enter m s)).burned =
      s.burned + (s.pricePerTick + s.pricePerTick) := by
    rw [hmoved, hforfeit]
    change s.burned + (s.probeTick + s.pricePerTick) = _
    rw [hprobe]
  have hshell := h.shell
  have hcap : min s.pricePerTick k.bondShell = s.pricePerTick := by
    unfold Machine.bondShell
    rw [h.bond]
    omega
  have hshows := h.shows
  generalize hst : k.state = st at hshows
  cases hshows with
  | probe _ _ =>
    refine ⟨.burnBoth (probeBurn s.pricePerTick k.bondShell), { k with state := .stopping },
      ?_, ?_, ?_⟩
    · simp [Machine.buyerStop, hst]
    · rw [hticks]
      rfl
    · rw [hfees, hburned]
      simp only [Settlement.burned, ContestedBurn.total, probeBurn, hcap, Nat.add_zero]
  | streaming a b hpa' _ _ _ => exact absurd (hpa'.symm.trans hpa) (by decide)
  | disputed a c hd' _ _ => exact absurd (hd'.symm.trans hq) (by decide)

theorem settleTrustedAndClose_tokensPaid {E : Env} {B S : ℕ} (h : Payable s) :
    (settleTrustedAndClose E B S s).tokensPaid = max s.tokensFinal s.tokensPaid := by
  have hpaid : (payTrusted s).tokensPaid = max s.tokensFinal s.tokensPaid := by
    rw [payTrusted_eq h]
    rfl
  have hunearned : ∀ r : Deal, (burnUnearned r).1.tokensPaid = r.tokensPaid := by
    intro r
    unfold burnUnearned
    split
    · dsimp only
      split
      · rfl
      · rfl
    · rfl
  unfold settleTrustedAndClose closeDisputed
  generalize payTrusted s = r at hpaid ⊢
  have hu := hunearned (burnStakes B S r)
  generalize burnUnearned (burnStakes B S r) = v at hu ⊢
  exact hu.trans hpaid

/-- A dispute over the trial burns the two stakes and nothing of the escrow. -/
theorem trial_burned {E : Env} (hb : Base s) (ht : Trial s) (hd : s.disputed = true) {B S : ℕ} :
    (settleTrustedAndClose E B S (voided s.tokensFinal s)).burned =
      s.burned + (cut B s.buyerBond + cut S s.sellerBond) := by
  obtain ⟨hpay, hweek⟩ := trial_payable hb ht hd
  have hburned := (settleTrustedAndClose_moved (E := E) (B := B) (S := S) hpay hweek).burned
  have hzero : trustedOwed (voided s.tokensFinal s) = 0 := by
    simp [trustedOwed, voided, ht.tokensFinal]
  rw [hzero] at hburned
  have hwhole : ∀ n : ℕ, disputeRefund (paidUp 0 n (unfrozen (voided s.tokensFinal s))) =
      (paidUp 0 n (unfrozen (voided s.tokensFinal s))).deposit := by
    intro n
    have hacc : (paidUp 0 n (unfrozen (voided s.tokensFinal s))).probeAccepted = false :=
      ht.unaccepted
    simp [disputeRefund, hacc]
  have hfee : ∀ n : ℕ, (paidUp 0 n (unfrozen (voided s.tokensFinal s))).feeAccrued = 0 := by
    intro n
    change s.feeAccrued + feePart 0 (unfrozen (voided s.tokensFinal s)) = 0
    rw [feePart_zero, ht.feeAccrued]
  rw [hwhole, hfee, Nat.sub_self] at hburned
  exact hburned

/-- A dispute over the trial that nobody withdraws: both bonds burn. -/
theorem timeout_settles (h : Mirrors s k) (ha : Admissible s ⟨m, .resolveDisputeTimeout⟩)
    (hpa : s.probeAccepted = false) (hfull : s.buyerBond = bondAmount s.pricePerTick)
    (hcap : bondAmount s.pricePerTick ≤ shellMax)
    (hok : exec env ⟨m, .resolveDisputeTimeout⟩ s = .ok t) :
    ∃ settlement k', some k.resolveDisputeTimeout = some (settlement, k') ∧
      settlement.sellerTicks = t.tokensPaid / tickSize ∧
      t.burned = s.burned + settlement.burned + netFees .resolveDisputeTimeout s t := by
  obtain ⟨-, hd, -⟩ := exec_ok hok
  have hin := h.enter ha
  obtain ⟨hbond, hprobe, hpaid, hfee⟩ := h.bond_eq hpa
  simp only [dispatch, resolveDisputeTimeout, require_bind_ok, pure_ok, Except.ok.injEq] at hd
  obtain ⟨hq, -, rfl⟩ := hd
  have htrial : Trial (TokenContractCalls.enter m s) := hin.trial hpa
  have hb := hin.inv.base
  rw [Deal.check_pass (disputeTime_lt hin.inv hq), resolveDisputeTimeoutBody_trial hb htrial hq]
  have hstake : timeoutStake (TokenContractCalls.enter m s) = bondAmount s.pricePerTick := by
    unfold timeoutStake
    rw [if_neg]
    · rfl
    · simp [isSubscription, TokenContractCalls.enter, h.ordinary]
  rw [hstake]
  have hticks : (settleTrustedAndClose env (bondAmount s.pricePerTick) (bondAmount s.pricePerTick)
      (voided (TokenContractCalls.enter m s).tokensFinal (TokenContractCalls.enter m s))).tokensPaid
        = 0 := by
    rw [settleTrustedAndClose_tokensPaid (trial_payable hb htrial hq).1]
    change max s.tokensFinal s.tokensPaid = 0
    rw [hpaid, (h.trial hpa).tokensFinal]
    rfl
  have hburned := trial_burned (E := env) (B := bondAmount s.pricePerTick)
    (S := bondAmount s.pricePerTick) hb htrial hq
  have hb1 : cut (bondAmount s.pricePerTick) (TokenContractCalls.enter m s).buyerBond =
      bondAmount s.pricePerTick := (cut_bond hb).trans hfull
  have hb2 : cut (bondAmount s.pricePerTick) (TokenContractCalls.enter m s).sellerBond =
      bondAmount s.pricePerTick := (cut_sellerBond hb htrial.bonded).trans hbond
  rw [hb1, hb2] at hburned
  generalize settleTrustedAndClose env _ _ _ = u at hburned hticks ⊢
  have hshell : k.bondShell = bondAmount s.pricePerTick := by
    unfold Machine.bondShell
    rw [h.bond]
    unfold bondAmount at hcap ⊢
    omega
  refine ⟨.burnBoth (contestedBurn k.bondShell k.bondShell), { k with state := .closed }, rfl, ?_,
    ?_⟩
  · rw [hticks]
    rfl
  · have hfees : netFees .resolveDisputeTimeout s u = 0 := by simp [netFees, hpa]
    rw [hfees, hburned, hshell]
    simp only [Settlement.burned, ContestedBurn.total, contestedBurn, min_self, Nat.add_zero]
    rfl

/-! ## The projection -/

/-- In a joint run on sound steps the machine projects the contract at every state reached. -/
theorem joint_projects (env : Env) (s : Deal) (k : Machine) (h : Joint env Sound s k) :
    Projects env Sound SoundExit s k := by
  have hm := joint_mirrors h
  obtain ⟨htrusted, hpending⟩ := hm.marks
  refine ⟨htrusted, hpending, ?_, ?_⟩
  · intro tr m ha hkey htime hsound
    cases tr with
    | acceptProbe => exact accept_accepts hm ha hkey htime
    | claimTokens n => exact claim_accepts hm ha hkey htime hsound
    | finalize => exact finalize_accepts hm ha htime hsound
    | dispute => exact iff_of_true ⟨_, rfl⟩ (dispute_accepts hm hkey hsound)
  · intro ex m t ha hsound hok
    cases ex with
    | stop => exact stop_settles hm ha hsound hok
    | sellerStop => exact hsound.elim
    | releaseDispute => exact hsound.elim
    | resolveDisputeTimeout =>
      exact timeout_settles hm ha hsound.1 hsound.2.1 hsound.2.2 hok

/-- A deal opened, past its trial and with one claim made, beside its machine. -/
theorem claimed_deal_projects : ∃ s k, Joint sampleEnv Sound s k ∧ s.tokensPend = 2 * tickSize ∧
    Projects sampleEnv Sound SoundExit s k := by
  have hplay : (played AnyTx (openedSchedule.take 4)).any (fun r =>
      decide (r.subWeeks = 0 ∧ r.pricePerTick ≤ shellMax) &&
      decide (Admissible r (sellerTx 40 (.openDeal [1]))) &&
      (exec sampleEnv (sellerTx 40 (.openDeal [1])) r).toOption.any (fun o =>
        decide (Admissible o (sellerTx 300 .acceptProbe)) &&
        (exec sampleEnv (sellerTx 300 .acceptProbe) o).toOption.any (fun a =>
          decide (Admissible a (sellerTx 400 (.claimTokens (2 * tickSize)))) &&
          decide (2 * tickSize ≤ a.tokensPend + tickSize ∧ 2 * tickSize ≤ a.fundedTokens ∧
            2 * tickSize ≠ a.tokensPend) &&
          (exec sampleEnv (sellerTx 400 (.claimTokens (2 * tickSize))) a).toOption.any (fun s =>
            decide (s.tokensPend = 2 * tickSize))))) = true := by
    decide
  obtain ⟨r, hr, hp⟩ := played_reachable hplay
  simp only [Bool.and_eq_true, decide_eq_true_eq] at hp
  obtain ⟨⟨⟨hz, hshell⟩, hao⟩, hp⟩ := hp
  obtain ⟨o, ho, hp⟩ := exec_of_any hp
  simp only [Bool.and_eq_true, decide_eq_true_eq] at hp
  obtain ⟨haa, hp⟩ := hp
  obtain ⟨a, ha, hp⟩ := exec_of_any hp
  simp only [Bool.and_eq_true, decide_eq_true_eq] at hp
  obtain ⟨⟨hac, hslot, hroom, hne⟩, hp⟩ := hp
  obtain ⟨s, hs, hpend⟩ := exec_of_any hp
  have hopen : Joint sampleEnv Sound o (.openStream o.pricePerTick) := .opened hr hz hshell hao ho
  have haccept := hopen.moved .acceptProbe haa trivial ha rfl
  have hclaim := haccept.moved (.claimTokens 2) hac (fun _ _ => ⟨hslot, hroom, fun h => absurd h hne⟩)
    hs rfl
  exact ⟨s, _, hclaim, of_decide_eq_true hpend, joint_projects _ _ _ hclaim⟩

/-- The buyer stops an accepted deal: the contract takes one tick of his bond, the machine splits
amicably and burns nothing. -/
theorem stopped_deal_diverges : ∃ s k, Joint sampleEnv (fun _ _ => True) s k ∧
    ¬ Projects sampleEnv (fun _ _ => True) (fun _ _ => True) s k := by
  have hplay : (played AnyTx (openedSchedule.take 4)).any (fun r =>
      decide (r.subWeeks = 0 ∧ r.pricePerTick ≤ shellMax) &&
      decide (Admissible r (sellerTx 40 (.openDeal [1]))) &&
      (exec sampleEnv (sellerTx 40 (.openDeal [1])) r).toOption.any (fun o =>
        decide (Admissible o (sellerTx 300 .acceptProbe)) &&
        (exec sampleEnv (sellerTx 300 .acceptProbe) o).toOption.any (fun s =>
          decide (Admissible s (buyerTx 400 .stop)) &&
          (exec sampleEnv (buyerTx 400 .stop) s).toOption.any (fun t =>
            decide (t.burned ≠ s.burned + netFees .stop s t))))) = true := by
    decide
  obtain ⟨r, hr, hp⟩ := played_reachable hplay
  simp only [Bool.and_eq_true, decide_eq_true_eq] at hp
  obtain ⟨⟨⟨hz, hshell⟩, hao⟩, hp⟩ := hp
  obtain ⟨o, ho, hp⟩ := exec_of_any hp
  simp only [Bool.and_eq_true, decide_eq_true_eq] at hp
  obtain ⟨haa, hp⟩ := hp
  obtain ⟨s, hs, hp⟩ := exec_of_any hp
  simp only [Bool.and_eq_true, decide_eq_true_eq] at hp
  obtain ⟨hstop, hp⟩ := hp
  obtain ⟨t, ht, hne⟩ := exec_of_any hp
  have hopen : Joint sampleEnv (fun _ _ => True) o (.openStream o.pricePerTick) :=
    .opened hr hz hshell hao ho
  refine ⟨s, _, hopen.moved .acceptProbe haa trivial hs rfl, ?_⟩
  intro hproj
  obtain ⟨settlement, k', hk, -, hburned⟩ := hproj.settles .stop _ t hstop trivial ht
  cases hk
  exact of_decide_eq_true hne hburned

end TokenContractProjection
