import Dexdo.SellerCapacitySplit

/-! # Capacity calls whose writes fail

`finish_exact` writes the record twice, and `record_delivered` raises the split that all requests
of a deal share before it flushes it. -/
namespace SellerCapacityWrites

open TokenContractState DealGetters SellerCapacity SellerCapacitySplit

variable {s t s₀ : CapacityManager} {e : CapacityEntryState} {r : RequestReservation}
variable {i n d : ℕ} {b : Bool}

/-- Which writes of a call go through: the one `flush_delivered` makes, and the one the call makes
itself. -/
structure Writes where
  flush : Bool := true
  own : Bool := true
  deriving DecidableEq, Repr

/-- `finish_exact` with an outcome for each of its two writes. -/
def finishExactWith (w : Writes) (i : ℕ) (s : CapacityManager) :
    CapacityManager × Except Fault ℕ :=
  match s.requests[i]? with
  | none => (s, .error .noReservation)
  | some r =>
    if r.finished then (s, .error .finished)
    else if r.terminal then (update i { r with remaining := 0, finished := true } s, .ok 0)
    else
      match s.entry with
      | none => (s, .error .terminal)
      | some e =>
        match flushDelivered w.flush e s with
        | (s, .error f) => (s, .error f)
        | (s, .ok durable) =>
          match s.entry with
          | none => (s, .error .terminal)
          | some e =>
            let candidate := e.record.released r.remaining
            if r.remaining > e.record.outstandingReservation then (s, .error .aggregateUnderflow)
            else
              match validateRecord candidate with
              | .error f => (s, .error f)
              | .ok () =>
                -- what the flush made durable is lost to the caller here
                if s.stored ∧ w.own = false then (s, .error .io)
                else
                  let s := commit { e with record := candidate } s
                  (update i { r with remaining := 0, finished := true }
                    { s with returned := s.returned + durable }, .ok durable)

/-- What a call leaves and answers. -/
def reply (w : Writes) (c : SellerCapacity.Call) (s : CapacityManager) :
    CapacityManager × Except Fault ℕ :=
  match c with
  | .reconcileDeal state deal =>
    ((reconcileDeal w.own state deal s).1, (reconcileDeal w.own state deal s).2.map fun _ => 0)
  | .reserve n => reserve w.own n s
  | .recordDelivered i n => recordDelivered w.flush i n s
  | .finishExact i => finishExactWith w i s
  | .finishAmbiguous i => finishAmbiguous w.flush i s
  | .crash => (crash s, .ok 0)

/-! ## The calls that fail half way -/

/-- `flush_delivered` gets as far as its write. -/
def FlushPasses (e : CapacityEntryState) : Prop :=
  e.unpersistedDelivered ≤ e.record.outstandingReservation ∧
  e.record.localDeliveredAfterAnchor + e.unpersistedDelivered < u128 ∧
  validateRecord (e.record.flushed e.unpersistedDelivered) = .ok ()

/-- `record_delivered` of `n` tokens gets as far as a flush of the raised split. -/
def SplitRaised (n : ℕ) (r : RequestReservation) (e : CapacityEntryState) : Prop :=
  0 < n ∧ n ≤ r.remaining ∧ capacityPersistTokenInterval ≤ e.unpersistedDelivered + n ∧
  FlushPasses { e with unpersistedDelivered := e.unpersistedDelivered + n }

/-- `finish_exact` has a split to flush and gets as far as the write that releases the
remainder. -/
def ReleaseAfterFlush (r : RequestReservation) (e : CapacityEntryState) : Prop :=
  0 < e.unpersistedDelivered ∧ e.unpersistedDelivered < u64 ∧ FlushPasses e ∧
  r.remaining ≤ (e.record.flushed e.unpersistedDelivered).outstandingReservation ∧
  validateRecord ((e.record.flushed e.unpersistedDelivered).released r.remaining) = .ok ()

def OnOpen (P : RequestReservation → CapacityEntryState → Prop) (i : ℕ) (s : CapacityManager) :
    Prop :=
  ∃ r ∈ s.requests[i]?, (r.finished = false ∧ r.terminal = false) ∧ ∃ e ∈ s.entry, P r e

/-- The flush of a raised split fails, or the flush of a request's end goes through and the
release fails. -/
def LeavesHalf (w : Writes) (c : SellerCapacity.Call) (s : CapacityManager) : Prop :=
  s.stored = true ∧
    match c with
    | .recordDelivered i n => w.flush = false ∧ OnOpen (SplitRaised n) i s
    | .finishExact i => (w.flush = true ∧ w.own = false) ∧ OnOpen ReleaseAfterFlush i s
    | _ => False

instance : DecidablePred FlushPasses := fun _ =>
  inferInstanceAs (Decidable (_ ∧ _ ∧ _))

instance : DecidableRel (SplitRaised n) := fun _ _ =>
  inferInstanceAs (Decidable (_ ∧ _ ∧ _ ∧ _))

instance : DecidableRel ReleaseAfterFlush := fun _ _ =>
  inferInstanceAs (Decidable (_ ∧ _ ∧ _ ∧ _ ∧ _))

instance {P : RequestReservation → CapacityEntryState → Prop} [DecidableRel P] :
    Decidable (OnOpen P i s) :=
  inferInstanceAs (Decidable (∃ r ∈ s.requests[i]?, (r.finished = false ∧ r.terminal = false) ∧
    ∃ e ∈ s.entry, P r e))

instance : ∀ (w : Writes) (c : SellerCapacity.Call) (s : CapacityManager),
    Decidable (LeavesHalf w c s)
  | w, .recordDelivered i n, s =>
    inferInstanceAs (Decidable (s.stored = true ∧ w.flush = false ∧ OnOpen (SplitRaised n) i s))
  | w, .finishExact i, s =>
    inferInstanceAs (Decidable (s.stored = true ∧ (w.flush = true ∧ w.own = false) ∧
      OnOpen ReleaseAfterFlush i s))
  | _, .reconcileDeal _ _, s => inferInstanceAs (Decidable (s.stored = true ∧ False))
  | _, .reserve _, s => inferInstanceAs (Decidable (s.stored = true ∧ False))
  | _, .finishAmbiguous _, s => inferInstanceAs (Decidable (s.stored = true ∧ False))
  | _, .crash, s => inferInstanceAs (Decidable (s.stored = true ∧ False))

/-! ## A flush -/

theorem validateRecord_fault {record : DurableCapacityRecord} :
    validateRecord record ≠ .error .io := by
  unfold validateRecord
  split_ifs <;> simp

theorem flush_zero (h : e.unpersistedDelivered = 0) : flushDelivered b e s = (s, .ok 0) := by
  unfold flushDelivered
  exact if_pos h

theorem flush_due (hpos : 0 < e.unpersistedDelivered) (h : FlushPasses e) :
    flushDelivered b e s =
      if s.stored = true ∧ b = false then (s, .error .io)
      else (commit ⟨e.record.flushed e.unpersistedDelivered, 0⟩ s,
        if e.unpersistedDelivered < u64 then .ok e.unpersistedDelivered
        else .error .deltaOverflow) := by
  obtain ⟨hle, hfits, hv⟩ := h
  unfold flushDelivered
  dsimp only
  rw [if_neg (Nat.pos_iff_ne_zero.mp hpos), if_neg (not_lt.mpr hle), if_neg (not_le.mpr hfits),
    hv]

theorem flush_refused (hpos : 0 < e.unpersistedDelivered) (h : ¬ FlushPasses e) :
    ∃ f, f ≠ .io ∧ flushDelivered b e s = (s, .error f) := by
  unfold flushDelivered
  dsimp only
  rw [if_neg (Nat.pos_iff_ne_zero.mp hpos)]
  split
  · exact ⟨_, by decide, rfl⟩
  rename_i hle
  split
  · exact ⟨_, by decide, rfl⟩
  rename_i hfits
  split
  · rename_i f hv
    refine ⟨f, ?_, rfl⟩
    rintro rfl
    exact validateRecord_fault hv
  · rename_i hv
    exact absurd ⟨not_lt.mp hle, not_le.mp hfits, hv⟩ h

theorem flush_failed (h : (flushDelivered b e s).2 = .error .io) :
    (flushDelivered b e s).1 = s ∧ s.stored = true ∧ b = false ∧ 0 < e.unpersistedDelivered ∧
    FlushPasses e := by
  by_cases hpos : 0 < e.unpersistedDelivered
  · by_cases hpasses : FlushPasses e
    · rw [flush_due hpos hpasses] at h ⊢
      by_cases hw : s.stored = true ∧ b = false
      · rw [if_pos hw]
        exact ⟨rfl, hw.1, hw.2, hpos, hpasses⟩
      · rw [if_neg hw] at h
        dsimp only at h
        split at h <;> cases h
    · obtain ⟨f, hf, heq⟩ := flush_refused (b := b) (s := s) hpos hpasses
      rw [heq] at h
      cases h
      exact absurd rfl hf
  · rw [flush_zero (by omega)] at h
    cases h

theorem flush_answered (h : (flushDelivered b e s).2 = .ok d) :
    d = e.unpersistedDelivered ∧
    ((flushDelivered b e s).1 = s ∧ d = 0 ∨
      (flushDelivered b e s).1 = commit ⟨e.record.flushed d, 0⟩ s ∧ 0 < d ∧ d < u64 ∧
        FlushPasses e ∧ (s.stored = true → b = true)) := by
  by_cases hpos : 0 < e.unpersistedDelivered
  · by_cases hpasses : FlushPasses e
    · rw [flush_due hpos hpasses] at h ⊢
      by_cases hw : s.stored = true ∧ b = false
      · rw [if_pos hw] at h
        cases h
      · rw [if_neg hw] at h ⊢
        dsimp only at h
        split at h
        · rename_i hlt
          cases h
          exact ⟨rfl, .inr ⟨rfl, hpos, hlt, hpasses, by simpa using hw⟩⟩
        · cases h
    · obtain ⟨f, hf, heq⟩ := flush_refused (b := b) (s := s) hpos hpasses
      rw [heq] at h
      cases h
  · rw [flush_zero (by omega)] at h ⊢
    cases h
    exact ⟨by omega, .inl ⟨rfl, rfl⟩⟩

/-! ## Calls that change nothing when a write fails -/

theorem reserve_failed (h : (reserve b n s).2 = .error .io) : (reserve b n s).1 = s := by
  unfold reserve at h ⊢
  by_cases hn : n = 0
  · rw [if_pos hn]
  rw [if_neg hn] at h ⊢
  cases he : s.entry with
  | none => rfl
  | some e =>
    rw [he] at h
    dsimp only at h ⊢
    cases hv : validateRecord e.record with
    | error f => rfl
    | ok _ =>
      rw [hv] at h
      dsimp only at h ⊢
      split
      · rfl
      rename_i hamount
      rw [if_neg hamount] at h
      split
      · rfl
      rename_i hroom
      rw [if_neg hroom] at h
      split
      · rfl
      rename_i hvalid
      rw [hvalid] at h
      dsimp only at h
      split
      · rfl
      · rename_i hw
        rw [if_neg hw] at h
        cases h

theorem finishAmbiguous_failed (h : (finishAmbiguous b i s).2 = .error .io) :
    (finishAmbiguous b i s).1 = s := by
  unfold finishAmbiguous at h ⊢
  split
  · rfl
  rename_i r hr
  rw [hr] at h
  dsimp only at h
  split
  · rfl
  rename_i hopen
  rw [if_neg hopen] at h
  split
  · rename_i hterminal
    rw [if_pos hterminal] at h
    cases h
  rename_i hterminal
  rw [if_neg hterminal] at h
  split
  · rfl
  rename_i e he
  rw [he] at h
  dsimp only at h
  split
  · rename_i t f hflush
    rw [hflush] at h
    have hf : (flushDelivered b e s).2 = .error .io := by
      rw [hflush]
      exact h
    have hsame := (flush_failed hf).1
    rw [hflush] at hsame
    exact hsame
  · rename_i t d hflush
    rw [hflush] at h
    cases h

theorem reconcile_failed {state : DealChainState} {deal : DealSubscription}
    (he : s.entry = some e) (h : (reconcileDeal b state deal s).2 = .error .io) :
    (reconcileDeal b state deal s).1 = s := by
  have hreg : ∀ cap, registerEntry state deal cap s = .ok (e, s) := by
    intro cap
    unfold registerEntry
    rw [he]
  unfold reconcileDeal at h ⊢
  split
  · rename_i hstopped
    rw [if_pos hstopped] at h
    cases h
  rename_i hlive
  rw [if_neg hlive] at h
  split
  · rfl
  rename_i cap hshape
  rw [hshape] at h
  dsimp only at h
  rw [hreg cap] at h ⊢
  dsimp only at h ⊢
  split
  · rfl
  rename_i candidate hcand
  rw [hcand] at h
  dsimp only at h
  split
  · rfl
  rename_i hdiff
  rw [if_neg hdiff] at h
  split
  · rfl
  · rename_i hw
    rw [if_neg hw] at h
    cases h

/-! ## `record_delivered` and `finish_exact` -/

/-- A write of `record_delivered` fails only where it flushes the raised split. -/
theorem record_failed (h : (recordDelivered b i n s).2 = .error .io) :
    s.stored = true ∧ b = false ∧ OnOpen (SplitRaised n) i s := by
  unfold recordDelivered at h
  split at h
  · cases h
  rename_i r hr
  split at h
  · cases h
  rename_i hn
  split at h
  · cases h
  rename_i hopen
  split at h
  · cases h
  rename_i hle
  split at h
  · cases h
  rename_i hterminal
  split at h
  · cases h
  rename_i e he
  dsimp only at h
  split at h
  · cases h
  split at h
  · cases h
  generalize hflush : (if e.unpersistedDelivered + n ≥ capacityPersistTokenInterval ∨
    s.stored = false then _ else _ : CapacityManager × Except Fault ℕ) = out at h
  split at h
  · rename_i f hf
    cases h
    split at hflush
    · rename_i hdue
      rw [← hflush] at hf
      obtain ⟨-, hst, hio, hpos, hpasses⟩ := flush_failed hf
      refine ⟨hst, hio, r, hr, ⟨by simpa using hopen, by simpa using hterminal⟩, e, he, by omega,
        by omega, ?_, hpasses⟩
      rcases hdue with hdue | hdue
      · exact hdue
      · rw [show s.stored = true from hst] at hdue
        cases hdue
    · rw [← hflush] at hf
      cases hf
  · cases h

/-- There the raised split stays, and the request keeps its remainder. -/
theorem record_half (hst : s.stored = true) (h : OnOpen (SplitRaised n) i s) :
    (recordDelivered false i n s).2 = .error .io ∧ ∃ e, s.entry = some e ∧
      (recordDelivered false i n s).1 = { s with
        entry := some { e with unpersistedDelivered := e.unpersistedDelivered + n } } ∧ 0 < n := by
  obtain ⟨r, hr, ⟨hopen, hterminal⟩, e, he, hn, hle, hdue, hpasses⟩ := h
  have hfits : e.unpersistedDelivered + n ≤ e.record.outstandingReservation := hpasses.1
  have hsmall : e.record.localDeliveredAfterAnchor + (e.unpersistedDelivered + n) < u128 :=
    hpasses.2.1
  have heq : recordDelivered false i n s = ({ s with
      entry := some { e with unpersistedDelivered := e.unpersistedDelivered + n } },
      .error .io) := by
    unfold recordDelivered
    rw [hr, he]
    dsimp only
    rw [if_neg (by omega), if_neg (by simp [hopen]), if_neg (by omega), if_neg (by simp [hterminal]),
      if_neg (by omega), if_neg (by omega), if_pos (.inl hdue),
      flush_due (by dsimp only; omega) hpasses, if_pos ⟨hst, rfl⟩]
  rw [heq]
  exact ⟨rfl, e, he, rfl, hn⟩

/-- A write of `finish_exact` fails with nothing changed, or after the flush. -/
theorem finish_failed {w : Writes} (h : (finishExactWith w i s).2 = .error .io) :
    (finishExactWith w i s).1 = s ∨
      s.stored = true ∧ (w.flush = true ∧ w.own = false) ∧ OnOpen ReleaseAfterFlush i s := by
  unfold finishExactWith at h ⊢
  split
  · exact .inl rfl
  rename_i r hr
  rw [hr] at h
  dsimp only at h
  split
  · exact .inl rfl
  rename_i hopen
  rw [if_neg hopen] at h
  split
  · rename_i hterminal
    rw [if_pos hterminal] at h
    cases h
  rename_i hterminal
  rw [if_neg hterminal] at h
  split
  · exact .inl rfl
  rename_i e he
  rw [he] at h
  dsimp only at h
  split
  · rename_i t f hflush
    rw [hflush] at h
    have hf : (flushDelivered w.flush e s).2 = .error .io := by
      rw [hflush]
      exact h
    have hsame := (flush_failed hf).1
    rw [hflush] at hsame
    exact .inl hsame
  rename_i t d hflush
  rw [hflush] at h
  dsimp only at h
  have hok : (flushDelivered w.flush e s).2 = .ok d := by rw [hflush]
  obtain ⟨hd, hsame | ⟨hwrote, hpos, hlt, hpasses, hwrite⟩⟩ := flush_answered hok
  · -- nothing was pending, so the release is the only write
    rw [hflush] at hsame
    obtain ⟨rfl, -⟩ := hsame
    rw [he] at h ⊢
    dsimp only at h ⊢
    split
    · exact .inl rfl
    rename_i hrest
    rw [if_neg hrest] at h
    split
    · exact .inl rfl
    rename_i hv
    rw [hv] at h
    dsimp only at h
    split
    · exact .inl rfl
    · rename_i hw
      rw [if_neg hw] at h
      cases h
  · rw [hflush] at hwrote
    obtain rfl : t = commit ⟨e.record.flushed d, 0⟩ s := hwrote
    right
    subst hd
    have hentry : (commit ⟨e.record.flushed e.unpersistedDelivered, 0⟩ s).entry =
      some ⟨e.record.flushed e.unpersistedDelivered, 0⟩ := rfl
    rw [hentry] at h
    dsimp only at h
    split at h
    · cases h
    rename_i hrest
    split at h
    · rename_i f hv
      cases h
      exact absurd hv validateRecord_fault
    rename_i hv
    split at h
    · rename_i hw
      exact ⟨hw.1, ⟨hwrite hw.1, hw.2⟩, r, hr, ⟨by simpa using hopen, by simpa using hterminal⟩,
        e, he, hpos, hlt, hpasses, not_lt.mp hrest, hv⟩
    · cases h

/-- There the split is written and gone from memory, and nobody was told how much it was. -/
theorem finish_half {w : Writes} (hst : s.stored = true) (hw : w.flush = true ∧ w.own = false)
    (h : OnOpen ReleaseAfterFlush i s) :
    (finishExactWith w i s).2 = .error .io ∧ ∃ e, s.entry = some e ∧
      (finishExactWith w i s).1 = commit ⟨e.record.flushed e.unpersistedDelivered, 0⟩ s ∧
      0 < e.unpersistedDelivered := by
  obtain ⟨r, hr, ⟨hopen, hterminal⟩, e, he, hpos, hlt, hpasses, hrest, hv⟩ := h
  have hflush : flushDelivered w.flush e s =
      (commit ⟨e.record.flushed e.unpersistedDelivered, 0⟩ s, .ok e.unpersistedDelivered) := by
    rw [flush_due hpos hpasses, if_neg (by simp [hw.1]), if_pos hlt]
  have heq : finishExactWith w i s =
      (commit ⟨e.record.flushed e.unpersistedDelivered, 0⟩ s, .error .io) := by
    unfold finishExactWith
    rw [hr, he]
    dsimp only
    rw [if_neg (by simp [hopen]), if_neg (by simp [hterminal]), hflush]
    dsimp only [commit]
    rw [if_neg (not_lt.mpr hrest), hv]
    dsimp only
    rw [if_pos ⟨hst, hw.2⟩]
  rw [heq]
  exact ⟨rfl, e, he, rfl, hpos⟩

/-- What `finish_exact` answers is the pending split, and what it takes off the reservation is
that split and the request's own remainder. -/
theorem finish_answered {w : Writes} (he : s.entry = some e) (hr : s.requests[i]? = some r)
    (hlive : r.terminal = false) (h : (finishExactWith w i s).2 = .ok d) :
    d = e.unpersistedDelivered ∧ (finishExactWith w i s).1.entry =
      some ⟨(e.record.flushed d).released r.remaining, 0⟩ := by
  unfold finishExactWith at h ⊢
  rw [hr] at h ⊢
  dsimp only at h ⊢
  split
  · rename_i hfin
    rw [if_pos hfin] at h
    cases h
  rename_i hopen
  rw [if_neg hopen, if_neg (by simp [hlive]), he] at h
  rw [if_neg (by simp [hlive]), he]
  dsimp only at h ⊢
  split
  · rename_i t f hflush
    rw [hflush] at h
    cases h
  rename_i t durable hflush
  rw [hflush] at h
  dsimp only at h
  have hok : (flushDelivered w.flush e s).2 = .ok durable := by rw [hflush]
  have hentry : t.entry = some ⟨e.record.flushed durable, 0⟩ ∧ durable = e.unpersistedDelivered := by
    obtain ⟨hd, ⟨hsame, hzero⟩ | ⟨hwrote, -⟩⟩ := flush_answered hok
    · rw [hflush] at hsame
      obtain rfl : t = s := hsame
      refine ⟨?_, hd⟩
      obtain ⟨record, n⟩ := e
      obtain rfl : durable = n := hd
      subst hzero
      exact he
    · rw [hflush] at hwrote
      obtain rfl : t = _ := hwrote
      exact ⟨rfl, hd⟩
  rw [hentry.1] at h ⊢
  dsimp only at h ⊢
  split
  · rename_i hrest
    rw [if_pos hrest] at h
    cases h
  rename_i hrest
  rw [if_neg hrest] at h
  split
  · rename_i f hv
    rw [hv] at h
    cases h
  rename_i hv
  rw [hv] at h
  dsimp only at h
  split
  · rename_i hw
    rw [if_pos hw] at h
    cases h
  rename_i hw
  rw [if_neg hw] at h
  cases h
  exact ⟨hentry.2, rfl⟩

/-! ## When a failed write leaves nothing behind -/

/-- `t`, where a call on `s` left the deal's entry `e` and all requests, so that whatever follows
goes as if that call had not been made: a call answers and leaves the same, and a `finish_exact`
answers the split that was pending and releases the request's own remainder. -/
structure Untouched (e : CapacityEntryState) (s t : CapacityManager) : Prop where
  entry : t.entry = some e
  requests : t.requests = s.requests
  again : ∀ w c, (reply w c t).2 = (reply w c s).2 ∧
    (reply w c t).1.entry = (reply w c s).1.entry ∧
    (reply w c t).1.requests = (reply w c s).1.requests
  finish : ∀ w i r d, s.requests[i]? = some r → r.terminal = false →
    (reply w (.finishExact i) t).2 = .ok d →
    d = e.unpersistedDelivered ∧ (reply w (.finishExact i) t).1.entry =
      some ⟨(e.record.flushed d).released r.remaining, 0⟩

def FailsAtomically (w : Writes) (c : SellerCapacity.Call) (s : CapacityManager) : Prop :=
  ∀ e, s.entry = some e → (reply w c s).2 = .error .io → Untouched e s (reply w c s).1

theorem untouched_self (he : s.entry = some e) : Untouched e s s :=
  ⟨he, rfl, fun _ _ => ⟨rfl, rfl, rfl⟩, fun _ _ _ _ hr hlive h => finish_answered he hr hlive h⟩

theorem failed_same {w : Writes} {c : SellerCapacity.Call} (he : s.entry = some e)
    (hio : (reply w c s).2 = .error .io) (h : ¬ LeavesHalf w c s) : (reply w c s).1 = s := by
  cases c with
  | reconcileDeal state deal =>
    have hfail : (reconcileDeal w.own state deal s).2 = .error .io := by
      unfold reply at hio
      dsimp only at hio
      cases hres : (reconcileDeal w.own state deal s).2 with
      | error f =>
        rw [hres] at hio
        cases hio
        rfl
      | ok _ =>
        rw [hres] at hio
        cases hio
    exact reconcile_failed he hfail
  | reserve n => exact reserve_failed hio
  | recordDelivered i n =>
    obtain ⟨hst, hflush, hon⟩ := record_failed hio
    exact absurd ⟨hst, hflush, hon⟩ h
  | finishExact i =>
    rcases finish_failed hio with hsame | hhalf
    · exact hsame
    · exact absurd hhalf h
  | finishAmbiguous i => exact finishAmbiguous_failed hio
  | crash => cases hio

/-- Where a call stops half way the entry is not what it was. -/
theorem half_differs {w : Writes} {c : SellerCapacity.Call} (h : LeavesHalf w c s) :
    (reply w c s).2 = .error .io ∧
    ∃ e, s.entry = some e ∧ (reply w c s).1.entry ≠ some e := by
  obtain ⟨hst, h⟩ := h
  cases c with
  | recordDelivered i n =>
    obtain ⟨hw, hon⟩ := h
    obtain ⟨hio, e, he, hleft, hpos⟩ := record_half hst hon
    unfold reply
    rw [hw, hleft]
    refine ⟨hio, e, he, fun hsame => ?_⟩
    have hn := congrArg (fun x => (x.map CapacityEntryState.unpersistedDelivered).getD 0) hsame
    change e.unpersistedDelivered + n = e.unpersistedDelivered at hn
    omega
  | finishExact i =>
    obtain ⟨hw, hon⟩ := h
    obtain ⟨hio, e, he, hleft, hpos⟩ := finish_half hst hw hon
    unfold reply
    dsimp only
    rw [hleft]
    refine ⟨hio, e, he, fun hsame => ?_⟩
    have hn := congrArg (fun x => (x.map CapacityEntryState.unpersistedDelivered).getD 0) hsame
    change 0 = e.unpersistedDelivered at hn
    omega
  | reconcileDeal state deal => exact absurd h not_false
  | reserve n => exact absurd h not_false
  | finishAmbiguous i => exact absurd h not_false
  | crash => exact absurd h not_false

/-- A failed write is atomic exactly outside the two half-way points. -/
theorem failed_write_atomic_iff (w : Writes) (c : SellerCapacity.Call) (s : CapacityManager) :
    FailsAtomically w c s ↔ ¬ LeavesHalf w c s := by
  constructor
  · intro h hhalf
    obtain ⟨hio, e, he, hne⟩ := half_differs hhalf
    exact hne (h e he hio).entry
  · intro h e he hio
    rw [failed_same he hio h]
    exact untouched_self he

/-! ## Two requests on one deal -/

def sharedDeal : CapacityManager :=
  (reserve true 2000 (reserve true 2000 (step sampleRead sampleManager)).1).1

/-- A chunk of 1500 tokens is refused because its record could not be written. The `finish_exact`
of its request then answers 1500 tokens as durable that never went out, and what stays reserved
is 1500 short of what the other request may still deliver. -/
theorem refused_chunk_counted : ∃ e e' : CapacityEntryState,
    sharedDeal.entry = some e ∧ e.unpersistedDelivered = 0 ∧ sharedDeal.recorded = 0 ∧
    (reply ⟨false, true⟩ (.recordDelivered 0 1500) sharedDeal).2 = .error .io ∧
    ¬ FailsAtomically ⟨false, true⟩ (.recordDelivered 0 1500) sharedDeal ∧
    (reply {} (.finishExact 0) (reply ⟨false, true⟩ (.recordDelivered 0 1500) sharedDeal).1).2 =
      .ok 1500 ∧
    (reply {} (.finishExact 0)
      (reply ⟨false, true⟩ (.recordDelivered 0 1500) sharedDeal).1).1.entry = some e' ∧
    e'.record.outstandingReservation = 500 ∧ openRemaining (reply {} (.finishExact 0)
      (reply ⟨false, true⟩ (.recordDelivered 0 1500) sharedDeal).1).1 = 2000 := by
  have hhalf : LeavesHalf ⟨false, true⟩ (.recordDelivered 0 1500) sharedDeal := by decide
  obtain ⟨hio, -⟩ := half_differs hhalf
  have hnot : ¬ FailsAtomically ⟨false, true⟩ (.recordDelivered 0 1500) sharedDeal := by
    intro h
    obtain ⟨hio, e, he, hne⟩ := half_differs hhalf
    exact hne (h e he hio).entry
  exact ⟨_, _, rfl, rfl, rfl, hio, hnot, rfl, rfl, rfl, rfl⟩

end SellerCapacityWrites
