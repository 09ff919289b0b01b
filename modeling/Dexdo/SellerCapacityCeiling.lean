import Dexdo.SellerCapacity
import Mathlib.Algebra.BigOperators.Group.List.Basic

/-! # The delivery ceiling across crashes

Tokens delivered, tokens live reservations may still deliver and the anchor the record started from
never exceed what the record commits to, and that never exceeds the cap. -/
namespace SellerCapacityCeiling

open TokenContractState DealGetters SellerCapacity

variable {s t s₀ : CapacityManager} {e : CapacityEntryState} {r : RequestReservation}
variable {a : Act} {io : Bool} {i n : ℕ} {record : DurableCapacityRecord}

def live (r : RequestReservation) : ℕ := if r.finished || r.terminal then 0 else r.remaining

def liveRemaining (s : CapacityManager) : ℕ := (s.requests.map live).sum

/-- The bound on one record. -/
structure Ceiling (s : CapacityManager) (record : DurableCapacityRecord) : Prop where
  delivered : s.recorded + liveRemaining s + s.initialAnchor ≤ record.committed
  committed : record.committed ≤ record.authoritativeCap
  cap : record.authoritativeCap ≤ record.fundedTokens

structure Invariant (s : CapacityManager) : Prop where
  memory : ∀ e, s.entry = some e → Ceiling s e.record
  disk : ∀ record, s.disk = some record → Ceiling s record
  same : ∀ e record, s.entry = some e → s.disk = some record → record = e.record
  unregistered : s.entry = none → liveRemaining s = 0
  unwritten : s.stored = true → s.disk = none → s.recorded = 0 ∧ liveRemaining s = 0
  volatile : s.stored = false → s.disk = none

/-! ## Writes -/

/-- A step that keeps the ghosts' sum within the new record, which is written to both places. -/
theorem commit_invariant (e' : CapacityEntryState) (h : Invariant s)
    (hceil : Ceiling t e'.record) (ht : t = { commit e' s with
      requests := t.requests, recorded := t.recorded, ambiguous := t.ambiguous
      returned := t.returned }) : Invariant t := by
  have hentry : t.entry = some e' := by rw [ht]; rfl
  have hstored : t.stored = s.stored := by rw [ht]; rfl
  have hdisk : t.disk = if s.stored then some e'.record else s.disk := by rw [ht]; rfl
  refine ⟨fun x hx => ?_, fun x hx => ?_, fun x y hx hy => ?_, fun hnone => ?_,
    fun hs hnone => ?_, fun hs => ?_⟩
  · rw [hentry] at hx
    cases hx
    exact hceil
  · rw [hdisk] at hx
    split at hx
    · cases hx
      exact hceil
    · rename_i hv
      rw [h.volatile (by simpa using hv)] at hx
      cases hx
  · rw [hentry] at hx
    cases hx
    rw [hdisk] at hy
    split at hy
    · cases hy
      rfl
    · rename_i hv
      rw [h.volatile (by simpa using hv)] at hy
      cases hy
  · rw [hentry] at hnone
    cases hnone
  · rw [hstored] at hs
    rw [hdisk, if_pos hs] at hnone
    cases hnone
  · rw [hstored] at hs
    rw [hdisk, if_neg (by simp [hs])]
    exact h.volatile hs

/-- A step that writes nothing and only lowers the sum. -/
theorem lower_invariant (h : Invariant s) (hlow : t.recorded + liveRemaining t ≤
      s.recorded + liveRemaining s) (hlive : liveRemaining t ≤ liveRemaining s)
    (hrec : s.stored = true → s.disk = none → t.recorded = 0)
    (he : (t.entry.map (·.record)) = s.entry.map (·.record))
    (ht : t = { s with
      entry := t.entry, requests := t.requests, recorded := t.recorded
      ambiguous := t.ambiguous, returned := t.returned }) : Invariant t := by
  have hdisk : t.disk = s.disk := by rw [ht]
  have hstored : t.stored = s.stored := by rw [ht]
  have hanchor : t.initialAnchor = s.initialAnchor := by rw [ht]
  have hceil : ∀ {x}, Ceiling s x → Ceiling t x := fun hx =>
    ⟨by have := hx.delivered; omega, hx.committed, hx.cap⟩
  have hentry : ∀ {x}, t.entry = some x → ∃ y, s.entry = some y ∧ y.record = x.record := by
    intro x hx
    rw [hx] at he
    exact Option.map_eq_some_iff.mp he.symm
  refine ⟨fun x hx => ?_, fun x hx => ?_, fun x y hx hy => ?_, fun hnone => ?_,
    fun hs hnone => ?_, fun hs => ?_⟩
  · obtain ⟨y, hy, hrecord⟩ := hentry hx
    rw [← hrecord]
    exact hceil (h.memory y hy)
  · rw [hdisk] at hx
    exact hceil (h.disk x hx)
  · obtain ⟨z, hz, hrecord⟩ := hentry hx
    rw [hdisk] at hy
    rw [← hrecord]
    exact h.same z y hz hy
  · rw [hnone] at he
    have := h.unregistered (Option.map_eq_none_iff.mp he.symm)
    omega
  · rw [hstored] at hs
    rw [hdisk] at hnone
    have := (h.unwritten hs hnone).2
    exact ⟨hrec hs hnone, by omega⟩
  · rw [hstored] at hs
    rw [hdisk]
    exact h.volatile hs

/-! ## One call -/

theorem flush_cases (io : Bool) (h : Invariant s) (he : s.entry = some e) :
    Invariant (flushDelivered io e s).1 ∧ (flushDelivered io e s).1.requests = s.requests ∧
    (flushDelivered io e s).1.recorded = s.recorded ∧
    ((flushDelivered io e s).1.entry = some e ∨
      (flushDelivered io e s).1.entry = some ⟨e.record.flushed e.unpersistedDelivered, 0⟩) := by
  have hceil := h.memory e he
  unfold flushDelivered
  dsimp only
  split
  · exact ⟨h, rfl, rfl, .inl he⟩
  split
  · exact ⟨h, rfl, rfl, .inl he⟩
  rename_i hle
  split
  · exact ⟨h, rfl, rfl, .inl he⟩
  split
  · exact ⟨h, rfl, rfl, .inl he⟩
  split
  · exact ⟨h, rfl, rfl, .inl he⟩
  · have hsame := flushed_committed (not_lt.mp hle)
    refine ⟨commit_invariant ⟨e.record.flushed e.unpersistedDelivered, 0⟩ h
      ⟨?_, ?_, hceil.cap⟩ rfl, rfl, rfl, .inr rfl⟩
    · rw [hsame]
      exact hceil.delivered
    · rw [hsame]
      exact hceil.committed

theorem reserve_invariant (h : Invariant s) : Invariant (reserve io n s).1 := by
  unfold reserve
  split
  · exact h
  split
  · exact h
  rename_i e he
  have hceil := h.memory e he
  split
  · exact h
  dsimp only
  split
  · exact h
  split
  · exact h
  split
  · exact h
  split
  · exact h
  rename_i hvalid _
  obtain ⟨-, -, -, hcap, hfunded⟩ := validateRecord_ok.mp hvalid
  generalize min (e.record.authoritativeCap - e.record.committed) n = amount at hcap hfunded ⊢
  refine commit_invariant ⟨e.record.reserved amount, 0⟩ h ⟨?_, hcap, hfunded⟩ rfl
  have hdel := hceil.delivered
  have hlive : liveRemaining { commit ⟨e.record.reserved amount, 0⟩ s with
      requests := s.requests ++ [⟨amount, amount, false, false⟩] } = liveRemaining s + amount := by
    simp [liveRemaining, live]
  rw [reserved_committed]
  refine (Nat.add_le_add_right (Nat.add_le_add_left hlive.le _) _).trans ?_
  change s.recorded + (liveRemaining s + amount) + s.initialAnchor ≤ _
  omega

theorem live_update {q : RequestReservation} (hr : s.requests[i]? = some r)
    (ht : t.requests = s.requests) :
    liveRemaining (update i q t) + live r = liveRemaining s + live q := by
  unfold liveRemaining update
  rw [ht]
  exact sum_set hr

theorem live_le (hr : s.requests[i]? = some r) : live r ≤ liveRemaining s := by
  have hsum := live_update (q := ⟨0, 0, true, true⟩) hr rfl
  have hzero : live ⟨0, 0, true, true⟩ = 0 := rfl
  omega

theorem record_invariant (h : Invariant s) : Invariant (recordDelivered io i n s).1 := by
  unfold recordDelivered
  split
  · exact h
  rename_i r hr
  split
  · exact h
  rename_i hpos
  split
  · exact h
  rename_i hopen
  split
  · exact h
  rename_i hle
  split
  · exact h
  rename_i hterm
  split
  · exact h
  rename_i e he
  dsimp only
  split
  · exact h
  split
  · exact h
  have hlive : live r = r.remaining := by simp [live, hopen, hterm]
  have hlive' : live { r with remaining := r.remaining - n } = r.remaining - n := by
    simp [live, hopen, hterm]
  have hle' := live_le hr
  -- the split in memory
  have hsplit : Invariant { s with
      entry := some { e with unpersistedDelivered := e.unpersistedDelivered + n } } :=
    lower_invariant h le_rfl le_rfl (fun hs hd => (h.unwritten hs hd).1) (by rw [he]; rfl) rfl
  -- the delivery booked on a manager with the same reservations
  have hbook : ∀ {u : CapacityManager} (d : ℕ), Invariant u → u.requests = s.requests →
      u.recorded = s.recorded → Invariant (update i { r with remaining := r.remaining - n }
        { u with recorded := u.recorded + n, returned := u.returned + d }) := by
    intro u d hu hreq hrec
    have hmove := live_update (q := { r with remaining := r.remaining - n })
      (t := { u with recorded := u.recorded + n, returned := u.returned + d }) hr hreq
    have hsame : liveRemaining u = liveRemaining s := by
      unfold liveRemaining
      rw [hreq]
    refine lower_invariant hu ?_ ?_ (fun hs hd => ?_) rfl rfl
    · change u.recorded + n + liveRemaining _ ≤ _
      omega
    · omega
    · have := (hu.unwritten hs hd).2
      omega
  by_cases hflush : e.unpersistedDelivered + n ≥ capacityPersistTokenInterval ∨ s.stored = false
  · rw [if_pos hflush]
    obtain ⟨hinv, hreq, hrec, -⟩ := flush_cases io hsplit rfl
    generalize flushDelivered io _ _ = f at hinv hreq hrec ⊢
    obtain ⟨u, res⟩ := f
    cases res with
    | error f => exact hinv
    | ok d => exact hbook d hinv hreq hrec
  · rw [if_neg hflush]
    exact hbook 0 hsplit rfl rfl

theorem finishExact_invariant (h : Invariant s) : Invariant (finishExact io i s).1 := by
  unfold finishExact
  split
  · exact h
  rename_i r hr
  split
  · exact h
  rename_i hopen
  have hdone : live { r with remaining := 0, finished := true } = 0 := rfl
  have hmove := live_update (q := { r with remaining := 0, finished := true }) hr rfl
  split
  · dsimp only
    refine lower_invariant h ?_ (by omega) (fun hs hd => (h.unwritten hs hd).1) rfl rfl
    change s.recorded + _ ≤ _
    omega
  rename_i hterm
  split
  · exact h
  rename_i e he
  obtain ⟨hinv, hreq, hrec, -⟩ := flush_cases io h he
  generalize flushDelivered io e s = f at hinv hreq hrec ⊢
  obtain ⟨u, res⟩ := f
  cases res with
  | error f => exact hinv
  | ok d =>
    dsimp only at hinv hreq hrec ⊢
    split
    · exact hinv
    rename_i e' he'
    have hceil := hinv.memory e' he'
    split
    · exact hinv
    rename_i hle
    split
    · exact hinv
    rename_i hvalid
    split
    · exact hinv
    obtain ⟨-, -, -, hcap, hfunded⟩ := validateRecord_ok.mp hvalid
    refine commit_invariant { e' with record := e'.record.released r.remaining } hinv
      ⟨?_, hcap, hfunded⟩ rfl
    have hlive : live r = r.remaining := by simp [live, hopen, hterm]
    have hdel := hceil.delivered
    have hrel := released_committed (not_lt.mp hle)
    have hlower := live_update (q := { r with remaining := 0, finished := true })
      (s := u) (t := { commit { e' with record := e'.record.released r.remaining } u with
        returned := u.returned + d }) (by rw [hreq]; exact hr) rfl
    have hbound : u.recorded + liveRemaining (update i { r with remaining := 0, finished := true }
        { commit { e' with record := e'.record.released r.remaining } u with
          returned := u.returned + d }) + u.initialAnchor ≤
        (e'.record.released r.remaining).committed := by
      omega
    exact hbound

theorem finishAmbiguous_invariant (h : Invariant s) : Invariant (finishAmbiguous io i s).1 := by
  unfold finishAmbiguous
  split
  · exact h
  rename_i r hr
  split
  · exact h
  have hdone : live { r with remaining := 0, finished := true } = 0 := rfl
  have hmove := live_update (q := { r with remaining := 0, finished := true }) hr rfl
  split
  · dsimp only
    refine lower_invariant h ?_ (by omega) (fun hs hd => (h.unwritten hs hd).1) rfl rfl
    change s.recorded + _ ≤ _
    omega
  split
  · exact h
  rename_i e he
  obtain ⟨hinv, hreq, hrec, -⟩ := flush_cases io h he
  generalize flushDelivered io e s = f at hinv hreq hrec ⊢
  obtain ⟨u, res⟩ := f
  cases res with
  | error f => exact hinv
  | ok d =>
    dsimp only at hinv hreq hrec ⊢
    have hlower := live_update (q := { r with remaining := 0, finished := true }) (s := u)
      (t := { u with ambiguous := u.ambiguous + r.remaining, returned := u.returned + d })
      (by rw [hreq]; exact hr) rfl
    refine lower_invariant hinv ?_ (by omega) (fun hs hd => (hinv.unwritten hs hd).1) rfl rfl
    change u.recorded + liveRemaining _ ≤ _
    omega

theorem unless_ok {p : Prop} [Decidable p] {err : Fault} {r : Except Fault ℕ} {n : ℕ} :
    (if p then .error err else r) = .ok n ↔ ¬ p ∧ r = .ok n := by
  by_cases hp : p
  · simp [hp]
  · simp [hp]

theorem liveShape_cap {state : DealChainState} {deal : DealSubscription} {cap : ℕ}
    (h : validateLiveDealShape state deal = .ok cap) :
    state.tokensPending ≤ cap ∧ cap ≤ deal.fundedTokens := by
  simp only [validateLiveDealShape, unless_ok] at h
  obtain ⟨-, -, -, -, -, -, h7, -, -, h⟩ := h
  split at h
  · cases h
  rename_i cap' hcap
  obtain ⟨hle, h⟩ := unless_ok.mp h
  cases h
  refine ⟨not_lt.mp hle, ?_⟩
  unfold authoritativeCapOf at hcap
  split_ifs at hcap
  all_goals cases hcap
  · exact not_lt.mp h7
  · exact min_le_right _ _
  · exact le_rfl
  · exact min_le_right _ _

theorem registerEntry_invariant {state : DealChainState} {deal : DealSubscription} {cap : ℕ}
    (h : Invariant s) (hcap : state.tokensPending ≤ cap ∧ cap ≤ deal.fundedTokens)
    (hreg : registerEntry state deal cap s = .ok (e, t)) :
    Invariant t ∧ t.entry = some e ∧ ∀ e₀, s.entry = some e₀ → e = e₀ := by
  unfold registerEntry at hreg
  split at hreg
  · rename_i e₀ he
    cases hreg
    exact ⟨h, he, fun x hx => by rw [he] at hx; exact Option.some.inj hx⟩
  rename_i hnone
  have hnew : ∀ e₀, s.entry = some e₀ → e = e₀ := fun x hx => by
    rw [hnone] at hx
    cases hx
  have hlive := h.unregistered hnone
  split at hreg
  · rename_i record hdisk
    split at hreg
    · cases hreg
    split at hreg
    · cases hreg
    cases hreg
    have hsome : s.disk = some record := by
      split at hdisk
      · exact hdisk
      · cases hdisk
    refine ⟨⟨fun e he => ?_, fun x hx => ?_, fun x y hx hy => ?_, nofun, fun hs hd => ?_,
      h.volatile⟩, rfl, hnew⟩
    · cases he
      exact { h.disk record hsome with }
    · exact { h.disk x hx with }
    · cases hx
      exact Option.some.inj (hy.symm.trans hsome)
    · exact h.unwritten hs hd
  · rename_i hdisk
    cases hreg
    have hempty : s.disk = none := by
      cases hs : s.stored with
      | true => simpa [hs] using hdisk
      | false => exact h.volatile hs
    refine ⟨⟨fun e he => ?_, fun x hx => ?_, fun x y hx hy => ?_, nofun, fun hs hd => ⟨rfl, hlive⟩,
      h.volatile⟩, rfl, hnew⟩
    · cases he
      refine ⟨?_, ?_, hcap.2⟩
      · change 0 + liveRemaining s + state.tokensPending ≤ state.tokensPending + 0 + 0
        omega
      · change state.tokensPending + 0 + 0 ≤ cap
        omega
    · have hcontra : s.disk = some x := hx
      rw [hempty] at hcontra
      cases hcontra
    · have hcontra : s.disk = some y := hy
      rw [hempty] at hcontra
      cases hcontra

theorem reconciled_committed {state : DealChainState} {deal : DealSubscription} {cap : ℕ}
    {tc : String} {old new : DurableCapacityRecord}
    (h : reconciled state deal cap tc old = .ok new) : old.committed ≤ new.committed := by
  obtain ⟨-, hout, hanchor, hlocal⟩ := reconciled_ok h
  unfold DurableCapacityRecord.committed
  omega

theorem reconcile_invariant {state : DealChainState} {deal : DealSubscription}
    (h : Invariant s) : Invariant (reconcileDeal io state deal s).1 ∧
      (state.isStopped = false → ∀ e e', s.entry = some e →
        (reconcileDeal io state deal s).1.entry = some e' →
        e.record.committed ≤ e'.record.committed) := by
  unfold reconcileDeal
  split
  · rename_i hstop
    refine ⟨?_, fun hlive => by rw [hstop] at hlive; cases hlive⟩
    have hzero : liveRemaining (markTerminal s) = 0 := by
      refine List.sum_eq_zero fun x hx => ?_
      obtain ⟨r, hr, rfl⟩ := List.mem_map.mp hx
      obtain ⟨q, -, rfl⟩ := List.mem_map.mp hr
      simp [live]
    exact ⟨nofun, nofun, nofun, fun _ => hzero, fun _ _ => ⟨rfl, hzero⟩, fun _ => rfl⟩
  have hkeep : ∀ {s' : CapacityManager}, s'.entry = s.entry → ∀ e e', s.entry = some e →
      s'.entry = some e' → e.record.committed ≤ e'.record.committed := by
    intro s' hs' e e' he he'
    rw [hs', he] at he'
    cases he'
    exact le_rfl
  split
  · exact ⟨h, fun _ => hkeep rfl⟩
  rename_i cap hcap
  split
  · exact ⟨h, fun _ => hkeep rfl⟩
  rename_i e t hreg
  obtain ⟨ht, hentry, hsame⟩ := registerEntry_invariant h (liveShape_cap hcap) hreg
  have hstay : ∀ x y, s.entry = some x → t.entry = some y →
      x.record.committed ≤ y.record.committed := by
    intro x y hx hy
    rw [hentry] at hy
    cases hy
    rw [hsame x hx]
  split
  · exact ⟨ht, fun _ => hstay⟩
  rename_i new hnew
  split
  · exact ⟨ht, fun _ => hstay⟩
  split
  · exact ⟨ht, fun _ => hstay⟩
  have hceil := ht.memory e hentry
  have hgrow := reconciled_committed hnew
  obtain ⟨-, -, -, hcap', hfunded⟩ := validateRecord_ok.mp (reconciled_ok hnew).1
  refine ⟨commit_invariant { e with record := new } ht ⟨?_, hcap', hfunded⟩ rfl, fun _ x y hx hy => ?_⟩
  · exact hceil.delivered.trans hgrow
  · cases hy
    rw [← hsame x hx]
    exact hgrow

theorem crash_invariant (h : Invariant s) : Invariant (crash s) := by
  refine ⟨nofun, fun x hx => ?_, nofun, fun _ => rfl, fun hs hd => ⟨(h.unwritten hs hd).1, rfl⟩,
    h.volatile⟩
  have hceil := h.disk x hx
  have hdel := hceil.delivered
  refine ⟨?_, hceil.committed, hceil.cap⟩
  change s.recorded + 0 + s.initialAnchor ≤ x.committed
  omega

theorem step_invariant (h : Invariant s) : Invariant (step a s) := by
  obtain ⟨call, io⟩ := a
  cases call with
  | reconcileDeal state deal => exact (reconcile_invariant h).1
  | reserve n => exact reserve_invariant h
  | recordDelivered i n => exact record_invariant h
  | finishExact i => exact finishExact_invariant h
  | finishAmbiguous i => exact finishAmbiguous_invariant h
  | crash => exact crash_invariant h

/-! ## Runs -/

end SellerCapacityCeiling
