import Dexdo.SellerCapacity
import Mathlib.Algebra.BigOperators.Group.List.Basic

/-! # The coalesced split of delivered tokens

Tokens recorded but not yet written stay in the outstanding reservation, in one counter that all
requests of a deal share. -/
namespace SellerCapacitySplit

open TokenContractState DealGetters SellerCapacity

variable {s t s₀ : CapacityManager} {e : CapacityEntryState} {r : RequestReservation}
variable {a : Act} {i n c : ℕ}

/-! ## Figures -/

def openRemaining (s : CapacityManager) : ℕ :=
  (s.requests.map fun r => if r.finished then 0 else r.remaining).sum

def unpersisted (s : CapacityManager) : ℕ := (s.entry.map (·.unpersistedDelivered)).getD 0

def headroom (s : CapacityManager) : ℕ :=
  (s.entry.map fun e => e.record.authoritativeCap - e.record.committed).getD 0

def carried (s : CapacityManager) : ℕ :=
  (s.disk.map (·.outstandingReservation)).getD 0

theorem flushDelivered_ok (hv : validateRecord e.record = .ok ())
    (hle : e.unpersistedDelivered ≤ e.record.outstandingReservation)
    (hu : e.unpersistedDelivered < u64) :
    flushDelivered true e s = if e.unpersistedDelivered = 0 then (s, .ok 0)
      else (commit ⟨e.record.flushed e.unpersistedDelivered, 0⟩ s,
        .ok e.unpersistedDelivered) := by
  have hvalid := validate_flushed hle hv
  have hfits : e.record.localDeliveredAfterAnchor + e.unpersistedDelivered < u128 := by
    have h3 := (validateRecord_ok.mp hv).2.2.1
    unfold DurableCapacityRecord.committed at h3
    omega
  unfold flushDelivered
  dsimp only
  split
  · rfl
  · rw [if_neg (not_lt.mpr hle), if_neg (not_le.mpr hfits), hvalid]
    simp only [Bool.true_eq_false, and_false, if_false, hu, if_true]

/-! ## The invariant -/

def Undisturbed (a : Act) : Prop :=
  a.io = true ∧
    match a.call with
    | .reconcileDeal state _ => state.isStopped = false
    | .crash => False
    | _ => True

/-- No reservation is granted over a pending split, and no split outgrows a `u64`. -/
def SplitSafe (s : CapacityManager) (a : Act) : Prop :=
  match a.call with
  | .reserve n => unpersisted s = 0 ∨ n = 0 ∨ headroom s = 0
  | .recordDelivered _ n => unpersisted s + n < u64
  | _ => True

/-- The figures of an entry in use. `c` is what the file came with. -/
structure Accounted (c : ℕ) (e : CapacityEntryState) (s : CapacityManager) : Prop where
  valid : s.requests ≠ [] → validateRecord e.record = .ok ()
  outstanding : e.record.outstandingReservation =
    c + e.unpersistedDelivered + openRemaining s + s.ambiguous
  durable : s.returned + e.unpersistedDelivered = s.recorded
  pending : e.unpersistedDelivered ≠ 0 → ∃ r ∈ s.requests, r.finished = false
  interval : e.unpersistedDelivered < capacityPersistTokenInterval

structure Invariant (c : ℕ) (s : CapacityManager) : Prop where
  stored : s.stored = true
  alive : ∀ r ∈ s.requests, r.terminal = false
  idle : s.entry = none → s.requests = [] ∧ s.recorded = 0 ∧ s.ambiguous = 0 ∧ s.returned = 0 ∧
    carried s = c
  active : ∀ e, s.entry = some e → Accounted c e s

theorem started_invariant (h : Started s) (hs : s.stored = true) : Invariant (carried s) s := by
  obtain ⟨h1, h2, h3, h4, h5⟩ := h
  refine ⟨hs, fun r hr => ?_, fun _ => ⟨h2, h3, h4, h5, rfl⟩, fun e he => ?_⟩
  · rw [h2] at hr
    exact absurd hr List.not_mem_nil
  · rw [h1] at he
    cases he

/-! ## One call -/

theorem flush_spec (he : s.entry = some e) (hv : validateRecord e.record = .ok ())
    (hle : e.unpersistedDelivered ≤ e.record.outstandingReservation)
    (hu : e.unpersistedDelivered < u64) :
    ∃ d, flushDelivered true e s = ({ s with
      disk := d, entry := some ⟨e.record.flushed e.unpersistedDelivered, 0⟩ },
      .ok e.unpersistedDelivered) := by
  rw [flushDelivered_ok hv hle hu]
  split
  · rename_i hzero
    refine ⟨s.disk, ?_⟩
    obtain ⟨record, n⟩ := e
    obtain rfl : n = 0 := hzero
    have hsame : record.flushed 0 = record := rfl
    rw [hsame, ← he]
  · exact ⟨_, rfl⟩

theorem interval_pos : 0 < capacityPersistTokenInterval := by decide

theorem reserve_invariant (h : Invariant c s)
    (hsafe : unpersisted s = 0 ∨ n = 0 ∨ headroom s = 0) : Invariant c (reserve true n s).1 := by
  unfold reserve
  split
  · exact h
  rename_i hn
  split
  · exact h
  rename_i e he
  have hacc := h.active e he
  split
  · exact h
  rename_i hv
  dsimp only
  split
  · exact h
  rename_i hamount
  split
  · exact h
  split
  · exact h
  rename_i hvalid
  rw [if_neg (by simp)]
  have hpending : e.unpersistedDelivered = 0 := by
    have hroom : headroom s = e.record.authoritativeCap - e.record.committed := by
      simp [headroom, he]
    have hun : unpersisted s = e.unpersistedDelivered := by simp [unpersisted, he]
    rw [hun, hroom] at hsafe
    omega
  generalize min (e.record.authoritativeCap - e.record.committed) n = amount at hvalid hamount ⊢
  refine ⟨h.stored, fun r hr => ?_, nofun, fun e' he' => ?_⟩
  · rcases List.mem_append.mp hr with hr | hr
    · exact h.alive r hr
    · rw [List.mem_singleton.mp hr]
  · cases he'
    refine ⟨fun _ => hvalid, ?_, ?_, fun hne => absurd rfl hne, interval_pos⟩
    · have hout := hacc.outstanding
      have hopen : openRemaining { commit ⟨e.record.reserved amount, 0⟩ s with
          requests := s.requests ++ [⟨amount, amount, false, false⟩] } =
          openRemaining s + amount := by
        simp [openRemaining]
      change e.record.outstandingReservation + amount = c + 0 + openRemaining _ + s.ambiguous
      change _ = c + 0 + openRemaining { commit ⟨e.record.reserved amount, 0⟩ s with
        requests := s.requests ++ [⟨amount, amount, false, false⟩] } + s.ambiguous
      rw [hopen]
      omega
    · have hdur := hacc.durable
      rw [hpending] at hdur
      exact hdur

def share (r : RequestReservation) : ℕ := if r.finished then 0 else r.remaining

/-- A call that leaves the reservation `i` as `r'` and the entry as `e'`. -/
theorem update_invariant (r' : RequestReservation) (e' : CapacityEntryState) (h : Invariant c s)
    (hr : s.requests[i]? = some r) (ht : t = { s with
      disk := t.disk, entry := some e', recorded := t.recorded, ambiguous := t.ambiguous
      returned := t.returned })
    (hlive : r'.terminal = false) (hv : validateRecord e'.record = .ok ())
    (hout : e'.record.outstandingReservation + share r =
      c + e'.unpersistedDelivered + (openRemaining s + share r') + t.ambiguous)
    (hdur : t.returned + e'.unpersistedDelivered = t.recorded)
    (hpend : e'.unpersistedDelivered ≠ 0 → r'.finished = false)
    (hint : e'.unpersistedDelivered < capacityPersistTokenInterval) :
    Invariant c (update i r' t) := by
  have hreq : t.requests = s.requests := by rw [ht]
  have hentry : t.entry = some e' := by rw [ht]
  have hopen : openRemaining (update i r' t) + share r = openRemaining s + share r' := by
    have hsum := sum_set (f := share) (y := r') hr
    rw [← hreq] at hsum
    rw [hreq] at hsum
    unfold openRemaining update
    rw [hreq]
    exact hsum
  refine ⟨?_, fun q hq => ?_, fun hnone => ?_, fun e'' he'' => ?_⟩
  · change t.stored = true
    rw [ht]
    exact h.stored
  · rcases List.mem_or_eq_of_mem_set hq with hq | rfl
    · rw [hreq] at hq
      exact h.alive q hq
    · exact hlive
  · have hcontra : t.entry = none := hnone
    rw [hentry] at hcontra
    cases hcontra
  · have hsame : t.entry = some e'' := he''
    rw [hentry] at hsame
    cases hsame
    refine ⟨fun _ => hv, ?_, hdur, fun hne => ?_, hint⟩
    · change e'.record.outstandingReservation =
        c + e'.unpersistedDelivered + openRemaining (update i r' t) + t.ambiguous
      omega
    · refine ⟨r', ?_, hpend hne⟩
      have hlt : i < t.requests.length := by
        rw [hreq]
        exact (List.getElem?_eq_some_iff.mp hr).1
      exact List.mem_set hlt r'

theorem record_invariant (h : Invariant c s) (hsafe : unpersisted s + n < u64) :
    Invariant c (recordDelivered true i n s).1 := by
  unfold recordDelivered
  split
  · exact h
  rename_i r hr
  split
  · exact h
  split
  · exact h
  rename_i hopen
  split
  · exact h
  rename_i hle
  split
  · exact h
  split
  · exact h
  rename_i e he
  have hacc := h.active e he
  have hmem : r ∈ s.requests := List.mem_of_getElem? hr
  have hv := hacc.valid (List.ne_nil_of_mem hmem)
  have hunfinished : r.finished = false := by simpa using hopen
  have hun : unpersisted s = e.unpersistedDelivered := by simp [unpersisted, he]
  rw [hun] at hsafe
  have hout := hacc.outstanding
  have hdur := hacc.durable
  have hshare : share r = r.remaining ∧
      share { r with remaining := r.remaining - n } = r.remaining - n := by
    simp [share, hunfinished]
  dsimp only
  split
  · exact h
  split
  · exact h
  rename_i hfits
  by_cases hflush : e.unpersistedDelivered + n ≥ capacityPersistTokenInterval
  · obtain ⟨d, heq⟩ := flush_spec (s := { s with
        entry := some { e with unpersistedDelivered := e.unpersistedDelivered + n } })
      (e := { e with unpersistedDelivered := e.unpersistedDelivered + n }) rfl hv
      (not_lt.mp hfits) hsafe
    rw [if_pos (.inl hflush), heq]
    refine update_invariant _ _ h hr rfl (h.alive r hmem)
      (validate_flushed (not_lt.mp hfits) hv) ?_ ?_ (fun hz => absurd rfl hz) interval_pos
    · rw [hshare.1, hshare.2]
      change e.record.outstandingReservation - (e.unpersistedDelivered + n) + r.remaining =
        c + 0 + (openRemaining s + (r.remaining - n)) + s.ambiguous
      omega
    · change s.returned + (e.unpersistedDelivered + n) + 0 = s.recorded + n
      omega
  · rw [if_neg (by simp [hflush, h.stored])]
    refine update_invariant _ { e with unpersistedDelivered := e.unpersistedDelivered + n }
      h hr rfl (h.alive r hmem) hv ?_ ?_ (fun _ => hunfinished) (not_le.mp hflush)
    · rw [hshare.1, hshare.2]
      change e.record.outstandingReservation + r.remaining =
        c + (e.unpersistedDelivered + n) + (openRemaining s + (r.remaining - n)) + s.ambiguous
      omega
    · change s.returned + 0 + (e.unpersistedDelivered + n) = s.recorded + n
      omega

theorem share_le (hr : s.requests[i]? = some r) : share r ≤ openRemaining s := by
  have hsum := sum_set (f := share) (y := ⟨0, 0, true, false⟩) hr
  have hzero : share ⟨0, 0, true, false⟩ = 0 := rfl
  change _ = openRemaining s + _ at hsum
  omega

theorem finishExact_invariant (h : Invariant c s) : Invariant c (finishExact true i s).1 := by
  unfold finishExact
  split
  · exact h
  rename_i r hr
  split
  · exact h
  rename_i hopen
  have hmem : r ∈ s.requests := List.mem_of_getElem? hr
  rw [if_neg (by simp [h.alive r hmem])]
  split
  · exact h
  rename_i e he
  have hacc := h.active e he
  have hv := hacc.valid (List.ne_nil_of_mem hmem)
  have hout := hacc.outstanding
  have hdur := hacc.durable
  have hlt : e.unpersistedDelivered < u64 := hacc.interval.trans (by decide)
  have hshare : share r = r.remaining := if_neg hopen
  have hle := share_le hr
  obtain ⟨d, heq⟩ := flush_spec he hv (by omega) hlt
  rw [heq]
  dsimp only
  have hrest : r.remaining ≤ (e.record.flushed e.unpersistedDelivered).outstandingReservation := by
    change _ ≤ e.record.outstandingReservation - e.unpersistedDelivered
    omega
  have hvf := validate_flushed (n := e.unpersistedDelivered) (by omega) hv
  rw [if_neg (not_lt.mpr hrest), validate_released hrest hvf]
  dsimp only
  rw [if_neg (by simp)]
  refine update_invariant _ _ h hr rfl (h.alive r hmem) (validate_released hrest hvf) ?_ ?_
    (fun hz => absurd rfl hz) interval_pos
  · change e.record.outstandingReservation - e.unpersistedDelivered - r.remaining + share r =
      c + 0 + (openRemaining s + 0) + s.ambiguous
    omega
  · change s.returned + e.unpersistedDelivered + 0 = s.recorded
    omega

theorem finishAmbiguous_invariant (h : Invariant c s) :
    Invariant c (finishAmbiguous true i s).1 := by
  unfold finishAmbiguous
  split
  · exact h
  rename_i r hr
  split
  · exact h
  rename_i hopen
  have hmem : r ∈ s.requests := List.mem_of_getElem? hr
  rw [if_neg (by simp [h.alive r hmem])]
  split
  · exact h
  rename_i e he
  have hacc := h.active e he
  have hv := hacc.valid (List.ne_nil_of_mem hmem)
  have hout := hacc.outstanding
  have hdur := hacc.durable
  have hlt : e.unpersistedDelivered < u64 := hacc.interval.trans (by decide)
  have hshare : share r = r.remaining := if_neg hopen
  obtain ⟨d, heq⟩ := flush_spec he hv (by omega) hlt
  rw [heq]
  refine update_invariant _ _ h hr rfl (h.alive r hmem)
    (validate_flushed (n := e.unpersistedDelivered) (by omega) hv) ?_ ?_
    (fun hz => absurd rfl hz) interval_pos
  · change e.record.outstandingReservation - e.unpersistedDelivered + share r =
      c + 0 + (openRemaining s + 0) + (s.ambiguous + r.remaining)
    omega
  · change s.returned + e.unpersistedDelivered + 0 = s.recorded
    omega

theorem registerEntry_invariant {state : DealChainState} {deal : DealSubscription} {cap : ℕ}
    (h : Invariant c s) (hreg : registerEntry state deal cap s = .ok (e, t)) :
    Invariant c t ∧ t.entry = some e := by
  unfold registerEntry at hreg
  split at hreg
  · rename_i e₀ he
    cases hreg
    exact ⟨h, he⟩
  rename_i hnone
  obtain ⟨hreq, hrec, hamb, hret, hcar⟩ := h.idle hnone
  rw [if_pos h.stored] at hreg
  have hopen : ∀ t : CapacityManager, t.requests = s.requests → openRemaining t = 0 := by
    intro t ht
    unfold openRemaining
    rw [ht, hreq]
    rfl
  split at hreg
  · rename_i record hdisk
    split at hreg
    · cases hreg
    rename_i hv
    split at hreg
    · cases hreg
    cases hreg
    refine ⟨⟨h.stored, h.alive, nofun, fun e he => ?_⟩, rfl⟩
    cases he
    have hsum := hopen { s with entry := some ⟨record, 0⟩ } rfl
    refine ⟨fun _ => hv, ?_, ?_, fun hz => absurd rfl hz, interval_pos⟩
    · have hout : record.outstandingReservation = c := by
        rw [← hcar]
        unfold carried
        rw [hdisk]
        rfl
      rw [hsum]
      change record.outstandingReservation = c + 0 + 0 + s.ambiguous
      omega
    · change s.returned + 0 = s.recorded
      omega
  · rename_i hdisk
    cases hreg
    refine ⟨⟨h.stored, h.alive, nofun, fun e he => ?_⟩, rfl⟩
    cases he
    have hzero : c = 0 := by
      rw [← hcar]
      unfold carried
      rw [hdisk]
      rfl
    refine ⟨fun hne => absurd hreq hne, ?_, ?_, fun hz => absurd rfl hz, interval_pos⟩
    · refine Eq.trans ?_ (congrArg (fun x => c + 0 + x + 0) (hopen _ rfl)).symm
      change 0 = c + 0 + 0 + 0
      omega
    · change s.returned + 0 = 0
      omega

theorem reconcile_invariant {state : DealChainState} {deal : DealSubscription}
    (h : Invariant c s) (hlive : state.isStopped = false) :
    Invariant c (reconcileDeal true state deal s).1 := by
  unfold reconcileDeal
  rw [if_neg (by simp [hlive])]
  split
  · exact h
  split
  · exact h
  rename_i e t hreg
  obtain ⟨ht, he⟩ := registerEntry_invariant h hreg
  split
  · exact ht
  rename_i new hnew
  split
  · exact ht
  rw [if_neg (by simp)]
  obtain ⟨hv, hout, -, -⟩ := reconciled_ok hnew
  have hacc := ht.active e he
  refine ⟨ht.stored, ht.alive, nofun, fun e' he' => ?_⟩
  cases he'
  exact ⟨fun _ => hv, hout.trans hacc.outstanding, hacc.durable, hacc.pending, hacc.interval⟩

theorem step_invariant (h : Invariant c s) (hu : Undisturbed a) (hs : SplitSafe s a) :
    Invariant c (step a s) := by
  obtain ⟨call, io⟩ := a
  obtain ⟨rfl, hu⟩ := hu
  cases call with
  | reconcileDeal state deal => exact reconcile_invariant h hu
  | reserve n => exact reserve_invariant h hs
  | recordDelivered i n => exact record_invariant h hs
  | finishExact i => exact finishExact_invariant h
  | finishAmbiguous i => exact finishAmbiguous_invariant h
  | crash => exact absurd hu not_false

/-! ## Runs -/

/-- The claim on a state: what is outstanding is the pending split, the open remainders and the
ambiguous ones; what was handed out is what was recorded but for the pending split; and once every
reservation is finished nothing is pending. -/
structure Kept (c : ℕ) (e : CapacityEntryState) (s : CapacityManager) : Prop where
  outstanding : e.record.outstandingReservation =
    c + e.unpersistedDelivered + openRemaining s + s.ambiguous
  durable : s.returned = s.recorded - e.unpersistedDelivered
  settled : (∀ r ∈ s.requests, r.finished = true) →
    s.returned = s.recorded ∧ e.record.outstandingReservation = c + s.ambiguous

theorem Accounted.kept (h : Accounted c e s) : Kept c e s := by
  have hdur := h.durable
  have hout := h.outstanding
  refine ⟨hout, by omega, fun hall => ?_⟩
  have hzero : e.unpersistedDelivered = 0 := by
    by_contra hne
    obtain ⟨r, hr, hf⟩ := h.pending hne
    rw [hall r hr] at hf
    cases hf
  have hopen : openRemaining s = 0 := by
    refine List.sum_eq_zero fun x hx => ?_
    obtain ⟨r, hr, rfl⟩ := List.mem_map.mp hx
    rw [if_pos (hall r hr)]
  omega

/-- In every run of a stored ledger whose reservations are granted over no pending split, no
delivered token is lost. -/
theorem no_delivered_token_lost (s₀ s : CapacityManager)
    (l : List (TransactionSystem.Record CapacityManager Act)) (h0 : Started s₀)
    (hst : s₀.stored = true)
    (hr : TransactionSystem.Run exec (fun s a => Undisturbed a ∧ SplitSafe s a) s₀ l s) :
    ∀ e, s.entry = some e → Kept (carried s₀) e s := by
  have hinv : Invariant (carried s₀) s := by
    refine hr.invariant (I := fun _ s => Invariant (carried s₀) s) (started_invariant h0 hst)
      fun _ s a t h hΦ he => ?_
    cases he
    exact step_invariant h hΦ.1 hΦ.2
  exact fun e he => (hinv.active e he).kept

/-! ## A deal in use -/

instance : DecidablePred Undisturbed := fun a =>
  match a with
  | ⟨.reconcileDeal state _, io⟩ =>
    inferInstanceAs (Decidable (io = true ∧ state.isStopped = false))
  | ⟨.crash, io⟩ => inferInstanceAs (Decidable (io = true ∧ False))
  | ⟨.reserve _, io⟩ => inferInstanceAs (Decidable (io = true ∧ True))
  | ⟨.recordDelivered _ _, io⟩ => inferInstanceAs (Decidable (io = true ∧ True))
  | ⟨.finishExact _, io⟩ => inferInstanceAs (Decidable (io = true ∧ True))
  | ⟨.finishAmbiguous _, io⟩ => inferInstanceAs (Decidable (io = true ∧ True))

instance (s : CapacityManager) : DecidablePred (SplitSafe s) := fun a =>
  match a with
  | ⟨.reserve n, _⟩ => inferInstanceAs (Decidable (unpersisted s = 0 ∨ n = 0 ∨ headroom s = 0))
  | ⟨.recordDelivered _ n, _⟩ => inferInstanceAs (Decidable (unpersisted s + n < u64))
  | ⟨.reconcileDeal _ _, _⟩ => inferInstanceAs (Decidable True)
  | ⟨.finishExact _, _⟩ => inferInstanceAs (Decidable True)
  | ⟨.finishAmbiguous _, _⟩ => inferInstanceAs (Decidable True)
  | ⟨.crash, _⟩ => inferInstanceAs (Decidable True)

/-- Two overlapping requests, the second granted after the first split was written. -/
theorem no_delivered_token_lost_overlapping : ∃ l s e,
    TransactionSystem.Run exec (fun s a => Undisturbed a ∧ SplitSafe s a) sampleManager l s ∧
    s.entry = some e ∧ s.recorded = 1210 ∧ e.unpersistedDelivered = 10 ∧
    openRemaining s = 3790 ∧ Kept 0 e s := by
  have hplay : (TransactionSystem.play exec (fun s a => Undisturbed a ∧ SplitSafe s a)
      [sampleRead, ⟨.reserve 3000, true⟩, ⟨.recordDelivered 0 1200, true⟩, ⟨.reserve 2000, true⟩,
        ⟨.recordDelivered 1 10, true⟩] sampleManager).any (fun s =>
        s.entry.any (fun e => decide (e.unpersistedDelivered = 10)) &&
        decide (s.recorded = 1210) && decide (openRemaining s = 3790)) = true := by
    decide
  obtain ⟨s, hs, hp⟩ := (Option.any_eq_true _ _).mp hplay
  simp only [Bool.and_eq_true, decide_eq_true_eq] at hp
  obtain ⟨⟨hentry, hrec⟩, hopen⟩ := hp
  obtain ⟨e, he, hun⟩ := (Option.any_eq_true _ _).mp hentry
  obtain ⟨l, hrun, -⟩ := TransactionSystem.Run.play .nil hs
  exact ⟨_, s, e, hrun, he, hrec, of_decide_eq_true hun, hopen,
    no_delivered_token_lost sampleManager s _ ⟨rfl, rfl, rfl, rfl, rfl⟩ rfl hrun e he⟩

/-- A second request granted while ten tokens of the first are pending: the ten stay reserved
after both are finished, and no call ever hands them out. -/
theorem reserve_drops_pending_split : ∃ l s e,
    TransactionSystem.Run exec (fun _ a => Undisturbed a) sampleManager l s ∧
    s.entry = some e ∧ (∀ r ∈ s.requests, r.finished = true) ∧ s.recorded = 10 ∧
    s.returned = 0 ∧ e.unpersistedDelivered = 0 ∧ s.ambiguous = 0 ∧
    e.record.outstandingReservation = 10 ∧
    e.record.outstandingReservation ≠ e.unpersistedDelivered + openRemaining s + s.ambiguous := by
  have hplay : (TransactionSystem.play exec (fun _ a => Undisturbed a)
      [sampleRead, ⟨.reserve 100, true⟩, ⟨.recordDelivered 0 10, true⟩, ⟨.reserve 5, true⟩,
        ⟨.finishExact 0, true⟩, ⟨.finishExact 1, true⟩] sampleManager).any (fun s =>
        s.entry.any (fun e => decide (e.unpersistedDelivered = 0) &&
          decide (e.record.outstandingReservation = 10)) &&
        s.requests.all (·.finished) && decide (s.recorded = 10) && decide (s.returned = 0) &&
        decide (s.ambiguous = 0) && decide (openRemaining s = 0)) = true := by
    decide
  obtain ⟨s, hs, hp⟩ := (Option.any_eq_true _ _).mp hplay
  simp only [Bool.and_eq_true, decide_eq_true_eq] at hp
  obtain ⟨⟨⟨⟨⟨hentry, hall⟩, hrec⟩, hret⟩, hamb⟩, hopen⟩ := hp
  obtain ⟨e, he, hun⟩ := (Option.any_eq_true _ _).mp hentry
  simp only [Bool.and_eq_true, decide_eq_true_eq] at hun
  obtain ⟨l, hrun, -⟩ := TransactionSystem.Run.play .nil hs
  refine ⟨_, s, e, hrun, he, List.all_eq_true.mp hall, hrec, hret, hun.1, hamb, hun.2, ?_⟩
  rw [hun.1, hun.2, hopen, hamb]
  decide

end SellerCapacitySplit
