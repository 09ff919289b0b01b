import Dexdo.TokenContractStreaming

/-! # The claim pipeline of a TokenContract

A run is kept with its history, so that a token can be traced from the claim that named it
to the moment it became trusted. -/
namespace TokenContractClaims

open TokenContractState TokenContractCalls TokenContractCharges TokenContractPayouts
open TokenContractSteps TokenContractInvariant TokenContractExits TokenContractStreaming

variable {env : Env} {s₀ s t : Deal}

abbrev History := List (TransactionSystem.Record Deal Tx)

/-- A run from `s₀` with its history, every transaction meeting `Φ`. -/
def DealRun (env : Env) (Φ : Deal → Tx → Prop) (s₀ : Deal) (l : History) (s : Deal) : Prop :=
  TransactionSystem.Run (exec env) (fun s tx => Admissible s tx ∧ Φ s tx) s₀ l s

/-- What the history of a live deal says about its record. -/
structure Chronicle (l : History) (s : Deal) : Prop where
  accepted : ∀ r ∈ l, r.act.call = .acceptProbe →
    s.probeAccepted = true ∧ s.periodStart = r.act.msg.now
  disputed : ∀ r ∈ l, r.act.call = .dispute →
    s.disputed = true ∧ s.disputeTime = r.act.msg.now
  waiting : ∀ n, s.tokensFinal < n → n ≤ s.tokensPend →
    ∃ q ∈ l, ∃ k, q.act.call = .claimTokens k ∧ q.pre.tokensPend < n ∧
      n ≤ q.post.tokensPend ∧ q.act.msg.now = s.lastClaimTime

/-! ## One more transaction -/

/-- Where the pending slot of a streaming deal stands after one more call. -/
inductive Slot (s t : Deal) (c : Call) : Prop where
  | kept : t.tokensFinal = s.tokensFinal → t.tokensPend = s.tokensPend →
      t.lastClaimTime = s.lastClaimTime → Slot s t c
  | trusted : t.tokensFinal = s.tokensPend → t.tokensPend = s.tokensPend → Slot s t c
  | claimed (n : ℕ) : c = .claimTokens n → s.tokensPend < n → t.tokensFinal = s.tokensPend →
      t.tokensPend = n → t.lastClaimTime = s.now → Slot s t c

theorem stream_slot {c : Call} (hb : Base s) (hs : Streaming s) (h : StreamStep s c t) :
    Slot s t c := by
  cases h with
  | relisted _ _ _ hr =>
    rw [hr.eq]
    exact .kept rfl rfl rfl
  | unchanged n hn => exact .kept rfl rfl rfl
  | claimed n u _ hn _ _ hclaim =>
    obtain ⟨_, _, _, _, _, _, hu, -⟩ := booked_fields hb hs hclaim.booked
    have hsame : u.tokensPend = s.tokensPend ∧ u.now = s.now := by
      rw [hu]
      exact ⟨rfl, rfl⟩
    rw [hclaim.eq]
    exact .claimed n rfl hn hsame.1 rfl hsame.2
  | promoted _ _ _ => exact .trusted rfl rfl
  | settled _ _ hu _ =>
    obtain ⟨_, _, _, _, _, _, hu, -⟩ := booked_fields hb hs hu
    rw [hu]
    exact .kept rfl rfl rfl
  | disputed _ _ heq =>
    rw [heq]
    exact .kept rfl rfl rfl
  | drew a _ hbal =>
    rw [drawn_eq hbal]
    exact .kept rfl rfl rfl

/-- A dispute is raised once and its time does not move. -/
theorem stream_dispute {c : Call} (hb : Base s) (hs : Streaming s) (h : StreamStep s c t) :
    c ≠ .acceptProbe ∧
    (s.disputed = true → c ≠ .dispute ∧ t.disputed = true ∧ t.disputeTime = s.disputeTime) ∧
    (c = .dispute → t.disputed = true ∧ t.disputeTime = s.now) := by
  cases h with
  | relisted _ ha hd hr =>
    refine ⟨ha, fun h => ⟨hd, ?_⟩, fun h => absurd h hd⟩
    rw [hr.eq]
    exact ⟨h, rfl⟩
  | unchanged n _ => exact ⟨by simp, fun h => ⟨by simp, h, rfl⟩, by simp⟩
  | claimed n u hd _ _ _ _ =>
    refine ⟨by simp, fun h => ?_, by simp⟩
    rw [hd] at h
    cases h
  | promoted hd _ _ =>
    refine ⟨by simp, fun h => ?_, by simp⟩
    rw [hd] at h
    cases h
  | settled hd _ _ _ =>
    refine ⟨by simp, fun h => ?_, by simp⟩
    rw [hd] at h
    cases h
  | disputed hd _ heq =>
    refine ⟨by simp, fun h => ?_, fun _ => ?_⟩
    · rw [hd] at h
      cases h
    · rw [heq]
      exact ⟨rfl, rfl⟩
  | drew a _ hbal =>
    refine ⟨by simp, fun h => ⟨by simp, ?_⟩, by simp⟩
    rw [drawn_eq hbal]
    exact ⟨h, rfl⟩

/-- Before the trial tick is accepted there is nothing to trace. -/
theorem fresh_chronicle {m : Msg} {c : Call} (hi : Invariant s) (ha : s.probeAccepted = false)
    (hok : dispatch env m s c = .ok t) (hf : t.fault = false) (hlive : t.destroyed = false) :
    t.tokensPend = t.tokensFinal ∧
    (c = .acceptProbe → t.probeAccepted = true ∧ t.periodStart = s.now) ∧
    (s.disputed = true → c ≠ .dispute ∧ t.disputed = true ∧ t.disputeTime = s.disputeTime) ∧
    (c = .dispute → t.disputed = true ∧ t.disputeTime = s.now) := by
  have hfresh := Invariant.fresh hi ha
  have hzero : s.tokensPend = s.tokensFinal := hfresh.tokensPend.trans hfresh.tokensFinal.symm
  have keep : c ≠ .acceptProbe → c ≠ .dispute →
      t.tokensPend = s.tokensPend ∧ t.tokensFinal = s.tokensFinal ∧
        t.disputed = s.disputed ∧ t.disputeTime = s.disputeTime →
      t.tokensPend = t.tokensFinal ∧
      (c = .acceptProbe → t.probeAccepted = true ∧ t.periodStart = s.now) ∧
      (s.disputed = true → c ≠ .dispute ∧ t.disputed = true ∧ t.disputeTime = s.disputeTime) ∧
      (c = .dispute → t.disputed = true ∧ t.disputeTime = s.now) := by
    rintro hca hcd ⟨h1, h2, h3, h4⟩
    exact ⟨by omega, fun h => absurd h hca, fun hd => ⟨hcd, h3.trans hd, h4⟩,
      fun h => absurd h hcd⟩
  cases fresh_step hi ha hok hf hlive with
  | relisted _ hca hcd hr =>
    apply keep hca hcd
    rw [hr.eq]
    exact ⟨rfl, rfl, rfl, rfl⟩
  | filled p b k f _ hfill =>
    apply keep (by simp) (by simp)
    rw [hfill.eq]
    exact ⟨rfl, rfl, rfl, rfl⟩
  | sellerBonded a c _ _ _ heq =>
    apply keep (by simp) (by simp)
    rw [heq]
    exact ⟨rfl, rfl, rfl, rfl⟩
  | buyerBonded a _ _ _ heq =>
    apply keep (by simp) (by simp)
    rw [heq]
    exact ⟨rfl, rfl, rfl, rfl⟩
  | opened c _ _ _ _ heq =>
    apply keep (by simp) (by simp)
    rw [heq]
    exact ⟨rfl, rfl, rfl, rfl⟩
  | accepted _ hd _ heq =>
    refine ⟨?_, fun _ => ?_, fun h => ?_, by simp⟩
    · rw [heq]
    · rw [heq]
      exact ⟨rfl, rfl⟩
    · rw [hd] at h
      cases h
  | disputed hd _ heq =>
    refine ⟨?_, by simp, fun h => ?_, fun _ => ?_⟩
    · rw [heq]
      exact hzero
    · rw [hd] at h
      cases h
    · rw [heq]
      exact ⟨rfl, rfl⟩
  | cleaned _ heq =>
    apply keep (by simp) (by simp)
    rw [heq]
    exact ⟨rfl, rfl, rfl, rfl⟩

theorem exec_chronicle {l : History} {tx : Tx} (hi : Invariant s) (hc : Chronicle l s)
    (ha : Admissible s tx) (hok : exec env tx s = .ok t) (hlive : t.destroyed = false) :
    Chronicle (l ++ [⟨s, tx, t⟩]) t := by
  obtain ⟨-, hd, hf⟩ := exec_ok hok
  have hin := hi.enter ha.later ha.clock
  cases hacc : s.probeAccepted with
  | true =>
    have hs := hin.streaming hacc
    have hstep := stream_step hin hs hd hf hlive
    have hterm := hstep.sameTerm hin.base hs
    obtain ⟨hna, hkeep, hraise⟩ := stream_dispute hin.base hs hstep
    refine ⟨?_, ?_, ?_⟩
    · intro r hr hcall
      rcases List.mem_append.mp hr with hr | hr
      · obtain ⟨h1, h2⟩ := hc.accepted r hr hcall
        exact ⟨hterm.accepted.trans h1, hterm.periodStart.trans h2⟩
      · rw [List.mem_singleton.mp hr] at hcall
        exact absurd hcall hna
    · intro r hr hcall
      rcases List.mem_append.mp hr with hr | hr
      · obtain ⟨h1, h2⟩ := hc.disputed r hr hcall
        obtain ⟨-, h3, h4⟩ := hkeep h1
        exact ⟨h3, h4.trans h2⟩
      · rw [List.mem_singleton.mp hr] at hcall ⊢
        exact hraise hcall
    · intro n hlo hhi
      cases stream_slot hin.base hs hstep with
      | kept hfin hpend hlast =>
        rw [hfin] at hlo
        rw [hpend] at hhi
        obtain ⟨q, hq, k, h1, h2, h3, h4⟩ := hc.waiting n hlo hhi
        exact ⟨q, List.mem_append_left _ hq, k, h1, h2, h3, h4.trans hlast.symm⟩
      | trusted hfin hpend => omega
      | claimed k hcall hn hfin hpend hlast =>
        refine ⟨⟨s, tx, t⟩, by simp, k, hcall, ?_, hhi, hlast.symm⟩
        rw [hfin] at hlo
        exact hlo
  | false =>
    obtain ⟨hsettled, haccept, hkeep, hraise⟩ := fresh_chronicle hin hacc hd hf hlive
    refine ⟨?_, ?_, fun n hlo hhi => by omega⟩
    · intro r hr hcall
      rcases List.mem_append.mp hr with hr | hr
      · have hold := (hc.accepted r hr hcall).1
        rw [hacc] at hold
        cases hold
      · rw [List.mem_singleton.mp hr] at hcall ⊢
        exact haccept hcall
    · intro r hr hcall
      rcases List.mem_append.mp hr with hr | hr
      · obtain ⟨h1, h2⟩ := hc.disputed r hr hcall
        obtain ⟨-, h3, h4⟩ := hkeep h1
        exact ⟨h3, h4.trans h2⟩
      · rw [List.mem_singleton.mp hr] at hcall ⊢
        exact hraise hcall

/-! ## Whole runs -/

theorem run_chronicle {Φ : Deal → Tx → Prop} {l : History} (h0 : Constructed env s₀)
    (h : DealRun env Φ s₀ l s) (hlive : s.destroyed = false) : Invariant s ∧ Chronicle l s := by
  revert hlive
  refine TransactionSystem.Run.invariant
    (I := fun l s => s.destroyed = false → Invariant s ∧ Chronicle l s) ?_ ?_ h
  · intro _
    have hi := constructed_invariant h0
    refine ⟨hi, by simp, by simp, ?_⟩
    intro n hlo hhi
    rcases hi.stage with hidle | ht | hs
    · rw [hidle.tokensPend] at hhi
      omega
    · rw [ht.tokensPend] at hhi
      omega
    · obtain ⟨m, a, -, hc⟩ := h0
      simp only [construct, require_bind_ok, pure_ok, Except.ok.injEq] at hc
      obtain ⟨-, -, -, -, -, -, -, -, rfl⟩ := hc
      exact absurd hs.opened (by simp [Deal.send])
  · intro l s a t ih hΦ hok hlive
    obtain ⟨hi, hc⟩ := ih (exec_ok hok).1
    exact ⟨exec_invariant hi hΦ.1 hok hlive, exec_chronicle hi hc hΦ.1 hok hlive⟩

theorem marks_monotone {tx : Tx} (hi : Invariant s) (ha : Admissible s tx)
    (hok : exec env tx s = .ok t) (hlive : t.destroyed = false) :
    s.tokensFinal ≤ t.tokensFinal ∧ s.tokensPend ≤ t.tokensPend := by
  obtain ⟨-, hd, hf⟩ := exec_ok hok
  have hin := hi.enter ha.later ha.clock
  cases hacc : s.probeAccepted with
  | true =>
    have hs := hin.streaming hacc
    have hle : s.tokensFinal ≤ s.tokensPend := hs.final_le_pend
    cases stream_slot hin.base hs (stream_step hin hs hd hf hlive) with
    | kept hfin hpend _ => exact ⟨hfin.ge, hpend.ge⟩
    | trusted hfin hpend => exact ⟨hle.trans hfin.ge, hpend.ge⟩
    | claimed n _ hn hfin hpend _ => exact ⟨hle.trans hfin.ge, hn.le.trans hpend.ge⟩
  | false =>
    have hfresh := Invariant.fresh hi hacc
    rw [hfresh.tokensFinal, hfresh.tokensPend]
    exact ⟨Nat.zero_le _, Nat.zero_le _⟩

/-- A token that becomes trusted after the trial was named by an earlier claim, and that claim had
waited out its window before anyone disputed; the buyer's own `stop` of an ordinary deal is the
only exception. -/
theorem promotion_traced {Φ : Deal → Tx → Prop} {l : History} {tx : Tx} (h0 : Constructed env s₀)
    (hrun : DealRun env Φ s₀ l s) (ha : Admissible s tx) (hok : exec env tx s = .ok t)
    (hcall : tx.call ≠ .acceptProbe) {n : ℕ} (hlo : s.tokensFinal < n) (hhi : n ≤ t.tokensFinal) :
    tx.call = .stop ∧ s.subWeeks = 0 ∧ tx.msg.sender = s.buyer ∨
    ∃ q ∈ l, ∃ k, q.act.call = .claimTokens k ∧ q.pre.tokensPend < n ∧ n ≤ q.post.tokensPend ∧
      q.act.msg.now + claimPromoteWindow ≤ tx.msg.now ∧
      ∀ d ∈ l, d.act.call = .dispute → q.act.msg.now + claimPromoteWindow ≤ d.act.msg.now := by
  obtain ⟨hlive, hd, hf⟩ := exec_ok hok
  obtain ⟨hi, hc⟩ := run_chronicle h0 hrun hlive
  have hin := hi.enter ha.later ha.clock
  rcases dispatch_trust hin hd hf with hacc | hkept | ⟨hfin, hripe⟩
  · exact absurd hacc hcall
  · have hsame : t.tokensFinal = s.tokensFinal := hkept
    omega
  have hpend : t.tokensFinal = s.tokensPend := hfin
  obtain ⟨q, hq, k, h1, h2, h3, h4⟩ := hc.waiting n hlo (hhi.trans_eq hpend)
  rcases hripe with hstop | ⟨hund, hw⟩ | ⟨hdis, hw⟩
  · exact .inl hstop
  · have hwait : s.lastClaimTime + claimPromoteWindow ≤ tx.msg.now := hw
    refine .inr ⟨q, hq, k, h1, h2, h3, by omega, fun d hd hdc => ?_⟩
    have hdis := (hc.disputed d hd hdc).1
    rw [show s.disputed = false from hund] at hdis
    cases hdis
  · have hwait : s.lastClaimTime + claimPromoteWindow ≤ s.disputeTime := hw
    have hpast : s.disputeTime ≤ s.now := by
      rcases disputed_stage hi hdis with ht | hs
      · exact ht.now_le hdis
      · exact hs.now_le hdis
    have hlater := ha.later
    refine .inr ⟨q, hq, k, h1, h2, h3, by omega, fun d hd hdc => ?_⟩
    have htime := (hc.disputed d hd hdc).2
    omega

/-- The pipeline over every run of a deal. After the trial tick was accepted at `t_accept` the
marks are ordered, at most one tick waits, and the cumulative claim respects the physical rate;
the marks never go back while the deal lives; and no call of the seller or of a third party makes
a token trusted before its claim has waited out the window undisputed. -/
theorem claim_pipeline (env : Env) (s₀ s : Deal) (l : History) (h0 : Constructed env s₀)
    (hrun : DealRun env AnyTx s₀ l s) :
    (∀ r ∈ l, r.act.call = .acceptProbe → s.destroyed = false →
      tickSize ≤ s.tokensFinal ∧ s.tokensFinal ≤ s.tokensPend ∧
      s.tokensPend ≤ s.fundedTokens ∧ s.tokensPend - s.tokensFinal ≤ tickSize ∧
      (s.tokensPend - tickSize) * minSecondsPerTick ≤
        (s.lastClaimTime - r.act.msg.now) * tickSize) ∧
    ∀ l₁ r l₂, l = l₁ ++ r :: l₂ →
      (r.post.destroyed = false →
        r.pre.tokensFinal ≤ r.post.tokensFinal ∧ r.pre.tokensPend ≤ r.post.tokensPend) ∧
      (r.act.call ≠ .acceptProbe → ∀ n, r.pre.tokensFinal < n → n ≤ r.post.tokensFinal →
        r.act.call = .stop ∧ r.pre.subWeeks = 0 ∧ r.act.msg.sender = r.pre.buyer ∨
        ∃ q ∈ l₁, ∃ k, q.act.call = .claimTokens k ∧ q.pre.tokensPend < n ∧
          n ≤ q.post.tokensPend ∧ q.act.msg.now + claimPromoteWindow ≤ r.act.msg.now ∧
          ∀ d ∈ l₁, d.act.call = .dispute →
            q.act.msg.now + claimPromoteWindow ≤ d.act.msg.now) := by
  refine ⟨?_, ?_⟩
  · intro r hr hcall hlive
    obtain ⟨hi, hc⟩ := run_chronicle h0 hrun hlive
    obtain ⟨hacc, hstart⟩ := hc.accepted r hr hcall
    have hs := hi.streaming hacc
    have hslot := hs.slot
    have hrate := hs.rate
    rw [hstart] at hrate
    exact ⟨hs.tick_le_final, hs.final_le_pend, hs.pend_le_funded, by omega, hrate⟩
  · intro l₁ r l₂ hl
    obtain ⟨hpre, hΦ, hok⟩ := TransactionSystem.Run.split hrun hl
    refine ⟨fun hlive => ?_, fun hcall n hlo hhi => ?_⟩
    · have hi := (run_chronicle h0 hpre (exec_ok hok).1).1
      exact marks_monotone hi hΦ.1 hok hlive
    · exact promotion_traced h0 hpre hΦ.1 hok hcall hlo hhi

theorem played_run {Φ : Deal → Tx → Prop} [∀ s tx, Decidable (Φ s tx)] {l : List Tx}
    {p : Deal → Bool} (h : (played Φ l).any p = true) :
    ∃ k s, DealRun sampleEnv Φ sampleDeal k s ∧ k.map (·.act) = l ∧ p s = true := by
  obtain ⟨s, hs, hp⟩ := (Option.any_eq_true _ _).mp h
  obtain ⟨k, hrun, hacts⟩ := TransactionSystem.Run.play .nil hs
  exact ⟨k, s, hrun, hacts, hp⟩

/-- A claim of half a tick, trusted by `finalize` a minute later. -/
theorem claim_pipeline_finalized :
    ∃ l s, DealRun sampleEnv AnyTx sampleDeal l s ∧ s.tokensFinal = 1500000 ∧
      (∃ r ∈ l, r.act.call = .acceptProbe ∧ (s.tokensPend - tickSize) * minSecondsPerTick ≤
        (s.lastClaimTime - r.act.msg.now) * tickSize) := by
  have hplay : (played AnyTx (openedSchedule ++
      [sellerTx 400 (.claimTokens 1500000), strangerTx 460 .finalize])).any
        (fun s => !s.destroyed && decide (s.tokensFinal = 1500000)) = true := by
    decide
  obtain ⟨l, s, hrun, hacts, hp⟩ := played_run hplay
  simp only [Bool.and_eq_true, Bool.not_eq_true', decide_eq_true_eq] at hp
  have hmem : sellerTx 300 .acceptProbe ∈ l.map (·.act) := by
    rw [hacts]
    simp [openedSchedule]
  obtain ⟨r, hr, hact⟩ := List.mem_map.mp hmem
  have hcall : r.act.call = .acceptProbe := by rw [hact]; rfl
  have hpipe := (claim_pipeline sampleEnv sampleDeal s l sampleDeal_constructed hrun).1 r hr
    hcall hp.1
  exact ⟨l, s, hrun, hp.2, r, hr, hcall, hpipe.2.2.2.2⟩

end TokenContractClaims
