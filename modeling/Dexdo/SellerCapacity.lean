import Dexdo.DealGetters
import Dexdo.TransactionSystem

/-! # The seller's delivery capacity ledger

`crates/dexdo/src/seller/capacity.rs` for one deal: the record in memory and on disk, the coalesced
split of delivered tokens, and the reservations handed out. A write that fails leaves the file as
it was; a crash loses everything in memory. -/
namespace SellerCapacity

open TokenContractState DealGetters

def capacityRecordVersion : ℕ := 1
def capacityPersistTokenInterval : ℕ := 1000
def probeSeedTokens : ℕ := tickSize

inductive Fault where
  | version | emptyTokenContract | committedOverflow | overCommitted | overFunded
  | contradictoryFlags | contradictoryShape | notFunded | disputed | probeWithoutOpen
  | zeroFunded | pendingOverFunded | pendingBelowTick | pendingBeforeProbe | pendingOverCap
  | capOverflow | otherTokenContract | fundedChanged | pendingRegressed | capRegressed
  | unbackedAdvance | postTermOverflow | exhausted | unknownDeal | reservationOverflow
  | nothingDelivered | finished | overReservation | deliveredOverflow | aggregateUnderflow
  | terminal | deltaOverflow | io | noReservation
  deriving DecidableEq, Repr

structure DurableCapacityRecord where
  version : ℕ
  tokenContract : String
  fundedTokens : ℕ
  authoritativeCap : ℕ
  tokensPendingAnchor : ℕ
  localDeliveredAfterAnchor : ℕ
  outstandingReservation : ℕ
  deriving DecidableEq, Repr

def DurableCapacityRecord.committed (r : DurableCapacityRecord) : ℕ :=
  r.tokensPendingAnchor + r.localDeliveredAfterAnchor + r.outstandingReservation

def DurableCapacityRecord.flushed (r : DurableCapacityRecord) (n : ℕ) : DurableCapacityRecord :=
  { r with
    outstandingReservation := r.outstandingReservation - n
    localDeliveredAfterAnchor := r.localDeliveredAfterAnchor + n }

def DurableCapacityRecord.released (r : DurableCapacityRecord) (n : ℕ) : DurableCapacityRecord :=
  { r with outstandingReservation := r.outstandingReservation - n }

def DurableCapacityRecord.reserved (r : DurableCapacityRecord) (n : ℕ) : DurableCapacityRecord :=
  { r with outstandingReservation := r.outstandingReservation + n }

/-- A string that `str::trim` leaves nothing of: Unicode white space throughout. -/
def isBlank (s : String) : Bool :=
  s.toList.all fun c =>
    (9 ≤ c.val && c.val ≤ 13) || c.val == 0x20 || c.val == 0x85 || c.val == 0xa0 ||
      c.val == 0x1680 || (0x2000 ≤ c.val && c.val ≤ 0x200a) || c.val == 0x2028 ||
      c.val == 0x2029 || c.val == 0x202f || c.val == 0x205f || c.val == 0x3000

def validateRecord (r : DurableCapacityRecord) : Except Fault Unit :=
  if r.version ≠ capacityRecordVersion then .error .version
  else if isBlank r.tokenContract then .error .emptyTokenContract
  else if r.committed ≥ u128 then .error .committedOverflow
  else if r.committed > r.authoritativeCap then .error .overCommitted
  else if r.authoritativeCap > r.fundedTokens then .error .overFunded
  else .ok ()

theorem validateRecord_ok {r : DurableCapacityRecord} : validateRecord r = .ok () ↔
    r.version = capacityRecordVersion ∧ isBlank r.tokenContract = false ∧ r.committed < u128 ∧
    r.committed ≤ r.authoritativeCap ∧ r.authoritativeCap ≤ r.fundedTokens := by
  unfold validateRecord
  constructor
  · intro h
    split_ifs at h with h1 h2 h3 h4 h5
    exact ⟨not_not.mp h1, by simpa using h2, not_le.mp h3, not_lt.mp h4, not_lt.mp h5⟩
  · rintro ⟨h1, h2, h3, h4, h5⟩
    rw [if_neg (not_not.mpr h1), if_neg (by simp [h2]), if_neg (not_le.mpr h3),
      if_neg (not_lt.mpr h4), if_neg (not_lt.mpr h5)]

theorem flushed_committed {r : DurableCapacityRecord} {n : ℕ} (h : n ≤ r.outstandingReservation) :
    (r.flushed n).committed = r.committed := by
  unfold DurableCapacityRecord.flushed DurableCapacityRecord.committed
  dsimp only
  omega

theorem released_committed {r : DurableCapacityRecord} {n : ℕ}
    (h : n ≤ r.outstandingReservation) : (r.released n).committed + n = r.committed := by
  unfold DurableCapacityRecord.released DurableCapacityRecord.committed
  dsimp only
  omega

theorem reserved_committed {r : DurableCapacityRecord} {n : ℕ} :
    (r.reserved n).committed = r.committed + n := by
  unfold DurableCapacityRecord.reserved DurableCapacityRecord.committed
  dsimp only
  omega

theorem validate_flushed {r : DurableCapacityRecord} {n : ℕ} (h : n ≤ r.outstandingReservation)
    (hv : validateRecord r = .ok ()) : validateRecord (r.flushed n) = .ok () := by
  obtain ⟨h1, h2, h3, h4, h5⟩ := validateRecord_ok.mp hv
  rw [validateRecord_ok, flushed_committed h]
  exact ⟨h1, h2, h3, h4, h5⟩

theorem validate_released {r : DurableCapacityRecord} {n : ℕ} (h : n ≤ r.outstandingReservation)
    (hv : validateRecord r = .ok ()) : validateRecord (r.released n) = .ok () := by
  obtain ⟨h1, h2, h3, h4, h5⟩ := validateRecord_ok.mp hv
  have hle := released_committed h
  rw [validateRecord_ok]
  exact ⟨h1, h2, by omega, by
    change _ ≤ r.authoritativeCap
    omega, h5⟩

/-! ## The deal as the chain shows it -/

/-- `authoritative_cap`. -/
def authoritativeCapOf (state : DealChainState) (deal : DealSubscription) : Except Fault ℕ :=
  if deal.isSubscription ∧ deal.weekIndex ≥ deal.subWeeks then .ok state.tokensPending
  else if !state.probeAccepted then .ok (min tickSize deal.fundedTokens)
  else if !deal.isSubscription then .ok deal.fundedTokens
  else if deal.weekBaseTokens + deal.tokensPerWeek ≥ u128 then .error .capOverflow
  else .ok (min (deal.weekBaseTokens + deal.tokensPerWeek) deal.fundedTokens)

/-- `validate_live_deal_shape`, with the cap it ends on. -/
def validateLiveDealShape (state : DealChainState) (deal : DealSubscription) : Except Fault ℕ :=
  if deal.isSubscription ≠ decide (deal.dealFlags &&& flagSubscription ≠ 0) then
    .error .contradictoryFlags
  else if !deal.isSubscription ∧ (deal.weekIndex ≠ 0 ∨ deal.tokensPerWeek ≠ deal.fundedTokens ∨
      deal.weekBaseTokens ≠ 0) then .error .contradictoryShape
  else if !state.funded then .error .notFunded
  else if state.disputed then .error .disputed
  else if !state.opened ∧ state.probeAccepted then .error .probeWithoutOpen
  else if deal.fundedTokens = 0 then .error .zeroFunded
  else if state.tokensPending > deal.fundedTokens then .error .pendingOverFunded
  else if state.probeAccepted ∧ state.tokensPending < tickSize then .error .pendingBelowTick
  else if ¬ state.probeAccepted ∧ state.tokensPending ≠ 0 then .error .pendingBeforeProbe
  else
    match authoritativeCapOf state deal with
    | .error e => .error e
    | .ok cap => if state.tokensPending > cap then .error .pendingOverCap else .ok cap

/-! ## The manager -/

structure CapacityEntryState where
  record : DurableCapacityRecord
  unpersistedDelivered : ℕ := 0

structure RequestReservation where
  initial : ℕ
  remaining : ℕ
  finished : Bool := false
  terminal : Bool := false

/-- The ledger of one deal. The last four are not kept by the program: tokens recorded and
remainders kept by `finish_ambiguous` since the record was created, the anchor it was created
with, and the durable amounts handed out by the calls. -/
structure CapacityManager where
  tokenContract : String
  stored : Bool
  disk : Option DurableCapacityRecord := none
  entry : Option CapacityEntryState := none
  requests : List RequestReservation := []
  recorded : ℕ := 0
  ambiguous : ℕ := 0
  initialAnchor : ℕ := 0
  returned : ℕ := 0

/-- `persist_candidate` with the write to the record in memory that follows it everywhere. -/
def commit (e : CapacityEntryState) (s : CapacityManager) : CapacityManager :=
  { s with
    disk := if s.stored then some e.record else s.disk
    entry := some e }

def flushDelivered (io : Bool) (e : CapacityEntryState) (s : CapacityManager) :
    CapacityManager × Except Fault ℕ :=
  let pending := e.unpersistedDelivered
  let candidate := e.record.flushed pending
  if pending = 0 then (s, .ok 0)
  else if pending > e.record.outstandingReservation then (s, .error .aggregateUnderflow)
  else if e.record.localDeliveredAfterAnchor + pending ≥ u128 then (s, .error .deliveredOverflow)
  else
    match validateRecord candidate with
    | .error f => (s, .error f)
    | .ok () =>
      if s.stored ∧ io = false then (s, .error .io)
      -- the conversion to `u64` comes after the write
      else (commit ⟨candidate, 0⟩ s, if pending < u64 then .ok pending else .error .deltaOverflow)

def markTerminal (s : CapacityManager) : CapacityManager :=
  { s with
    disk := none, entry := none, recorded := 0, ambiguous := 0, initialAnchor := 0
    requests := s.requests.map fun r => { r with terminal := true } }

/-- The entry `reconcile_deal` works on: the one in memory, the one on disk or a new one. -/
def registerEntry (state : DealChainState) (deal : DealSubscription) (cap : ℕ)
    (s : CapacityManager) : Except Fault (CapacityEntryState × CapacityManager) :=
  match s.entry with
  | some e => .ok (e, s)
  | none =>
    match if s.stored then s.disk else none with
    | some record =>
      match validateRecord record with
      | .error f => .error f
      | .ok () =>
        if record.tokenContract ≠ s.tokenContract then .error .otherTokenContract
        else .ok (⟨record, 0⟩, { s with entry := some ⟨record, 0⟩ })
    | none =>
      let record : DurableCapacityRecord :=
        { version := capacityRecordVersion, tokenContract := s.tokenContract
          fundedTokens := deal.fundedTokens, authoritativeCap := cap
          tokensPendingAnchor := state.tokensPending, localDeliveredAfterAnchor := 0
          outstandingReservation := 0 }
      .ok (⟨record, 0⟩, { s with
        entry := some ⟨record, 0⟩, recorded := 0, ambiguous := 0
        initialAnchor := state.tokensPending })

/-- The record a chain read leads to, or what is wrong with the read. -/
def reconciled (state : DealChainState) (deal : DealSubscription) (cap : ℕ)
    (tokenContract : String) (old : DurableCapacityRecord) : Except Fault DurableCapacityRecord :=
  let ended := deal.isSubscription ∧ deal.weekIndex ≥ deal.subWeeks
  let acknowledged := state.tokensPending - old.tokensPendingAnchor
  let probeSeed :=
    if state.probeAccepted ∧ old.tokensPendingAnchor = 0 then min probeSeedTokens acknowledged
    else 0
  let localDelivered := old.localDeliveredAfterAnchor - acknowledged
  let committed := state.tokensPending + localDelivered + old.outstandingReservation
  let candidate : DurableCapacityRecord :=
    { version := capacityRecordVersion, tokenContract := tokenContract
      fundedTokens := deal.fundedTokens
      authoritativeCap := if ended then committed else cap
      tokensPendingAnchor := state.tokensPending, localDeliveredAfterAnchor := localDelivered
      outstandingReservation := old.outstandingReservation }
  if old.fundedTokens ≠ deal.fundedTokens then .error .fundedChanged
  else if state.tokensPending < old.tokensPendingAnchor then .error .pendingRegressed
  else if cap < old.authoritativeCap ∧ ¬ ended then .error .capRegressed
  else if acknowledged - probeSeed > old.localDeliveredAfterAnchor ∧ ¬ ended then
    .error .unbackedAdvance
  else if ended ∧ committed ≥ u128 then .error .postTermOverflow
  else
    match validateRecord candidate with
    | .error f => .error f
    | .ok () => .ok candidate

theorem reconciled_ok {state : DealChainState} {deal : DealSubscription} {cap : ℕ}
    {tc : String} {old new : DurableCapacityRecord}
    (h : reconciled state deal cap tc old = .ok new) :
    validateRecord new = .ok () ∧ new.outstandingReservation = old.outstandingReservation ∧
    old.tokensPendingAnchor ≤ new.tokensPendingAnchor ∧
    new.localDeliveredAfterAnchor = old.localDeliveredAfterAnchor -
      (new.tokensPendingAnchor - old.tokensPendingAnchor) := by
  unfold reconciled at h
  dsimp only at h
  generalize (if state.probeAccepted = true ∧ old.tokensPendingAnchor = 0 then
    min probeSeedTokens (state.tokensPending - old.tokensPendingAnchor) else 0) = seed at h
  split at h
  · cases h
  split at h
  · cases h
  rename_i hpend
  split at h
  · cases h
  split at h
  · cases h
  split at h
  · cases h
  split at h
  · cases h
  rename_i hv
  cases h
  exact ⟨hv, rfl, not_lt.mp hpend, rfl⟩

def reconcileDeal (io : Bool) (state : DealChainState) (deal : DealSubscription)
    (s : CapacityManager) : CapacityManager × Except Fault Unit :=
  if state.isStopped then (markTerminal s, .ok ())
  else
    match validateLiveDealShape state deal with
    | .error f => (s, .error f)
    | .ok cap =>
      match registerEntry state deal cap s with
      | .error f => (s, .error f)
      | .ok (e, s) =>
        match reconciled state deal cap s.tokenContract e.record with
        | .error f => (s, .error f)
        | .ok candidate =>
          if candidate = e.record then (s, .ok ())
          else if s.stored ∧ io = false then (s, .error .io)
          else (commit { e with record := candidate } s, .ok ())

def reserve (io : Bool) (requested : ℕ) (s : CapacityManager) :
    CapacityManager × Except Fault ℕ :=
  if requested = 0 then (s, .error .exhausted)
  else
    match s.entry with
    | none => (s, .error .unknownDeal)
    | some e =>
      match validateRecord e.record with
      | .error f => (s, .error f)
      | .ok () =>
        let amount := min (e.record.authoritativeCap - e.record.committed) requested
        let candidate := e.record.reserved amount
        if amount = 0 then (s, .error .exhausted)
        else if e.record.outstandingReservation + amount ≥ u128 then
          (s, .error .reservationOverflow)
        else
          match validateRecord candidate with
          | .error f => (s, .error f)
          | .ok () =>
            if s.stored ∧ io = false then (s, .error .io)
            else
              -- the coalesced split is reset here, not flushed
              let s := commit ⟨candidate, 0⟩ s
              ({ s with requests := s.requests ++ [⟨amount, amount, false, false⟩] }, .ok amount)

def update (i : ℕ) (r : RequestReservation) (s : CapacityManager) : CapacityManager :=
  { s with requests := s.requests.set i r }

/-- `record_delivered` on reservation `i`. -/
def recordDelivered (io : Bool) (i tokens : ℕ) (s : CapacityManager) :
    CapacityManager × Except Fault ℕ :=
  match s.requests[i]? with
  | none => (s, .error .noReservation)
  | some r =>
    if tokens = 0 then (s, .error .nothingDelivered)
    else if r.finished then (s, .error .finished)
    else if tokens > r.remaining then (s, .error .overReservation)
    else if r.terminal then (s, .error .terminal)
    else
      match s.entry with
      | none => (s, .error .terminal)
      | some e =>
        let unpersisted := e.unpersistedDelivered + tokens
        let e' : CapacityEntryState := { e with unpersistedDelivered := unpersisted }
        if unpersisted ≥ u128 then (s, .error .deliveredOverflow)
        else if unpersisted > e.record.outstandingReservation then
          (s, .error .aggregateUnderflow)
        else
          let s := { s with entry := some e' }
          let (s, durable) :=
            if unpersisted ≥ capacityPersistTokenInterval ∨ s.stored = false then
              flushDelivered io e' s
            else (s, .ok 0)
          match durable with
          | .error f => (s, .error f)
          | .ok durable =>
            (update i { r with remaining := r.remaining - tokens }
              { s with recorded := s.recorded + tokens, returned := s.returned + durable },
              .ok durable)

/-- `finish_exact` on reservation `i`. -/
def finishExact (io : Bool) (i : ℕ) (s : CapacityManager) : CapacityManager × Except Fault ℕ :=
  match s.requests[i]? with
  | none => (s, .error .noReservation)
  | some r =>
    if r.finished then (s, .error .finished)
    else if r.terminal then (update i { r with remaining := 0, finished := true } s, .ok 0)
    else
      match s.entry with
      | none => (s, .error .terminal)
      | some e =>
        match flushDelivered io e s with
        | (s, .error f) => (s, .error f)
        | (s, .ok durable) =>
          match s.entry with
          | none => (s, .error .terminal)
          | some e =>
            let candidate := e.record.released r.remaining
            if r.remaining > e.record.outstandingReservation then (s, .error .aggregateUnderflow)
            else
              match validateRecord candidate with
              | .error f => (s, .error f)
              | .ok () =>
                if s.stored ∧ io = false then (s, .error .io)
                else
                  let s := commit { e with record := candidate } s
                  (update i { r with remaining := 0, finished := true }
                    { s with returned := s.returned + durable }, .ok durable)

/-- `finish_ambiguous` on reservation `i`. -/
def finishAmbiguous (io : Bool) (i : ℕ) (s : CapacityManager) :
    CapacityManager × Except Fault ℕ :=
  match s.requests[i]? with
  | none => (s, .error .noReservation)
  | some r =>
    if r.finished then (s, .error .finished)
    else if r.terminal then (update i { r with remaining := 0, finished := true } s, .ok 0)
    else
      match s.entry with
      | none => (s, .error .terminal)
      | some e =>
        match flushDelivered io e s with
        | (s, .error f) => (s, .error f)
        | (s, .ok durable) =>
          (update i { r with remaining := 0, finished := true }
            { s with
              ambiguous := s.ambiguous + r.remaining, returned := s.returned + durable },
            .ok durable)

def crash (s : CapacityManager) : CapacityManager :=
  { s with entry := none, requests := [], returned := 0 }

theorem sum_set {α : Type} {f : α → ℕ} {x y : α} : ∀ {l : List α} {i : ℕ}, l[i]? = some x →
    ((l.set i y).map f).sum + f x = (l.map f).sum + f y
  | [], i, h => by simp at h
  | z :: l, 0, h => by
    obtain rfl : z = x := by simpa using h
    simp only [List.set_cons_zero, List.map_cons, List.sum_cons]
    omega
  | z :: l, i + 1, h => by
    have ih := sum_set (f := f) (y := y) (l := l) (i := i) (by simpa using h)
    simp only [List.set_cons_succ, List.map_cons, List.sum_cons]
    omega

/-! ## Runs -/

inductive Call where
  | reconcileDeal (state : DealChainState) (deal : DealSubscription)
  | reserve (requested : ℕ)
  | recordDelivered (reservation tokens : ℕ)
  | finishExact (reservation : ℕ)
  | finishAmbiguous (reservation : ℕ)
  | crash

structure Act where
  call : Call
  io : Bool := true

def step (a : Act) (s : CapacityManager) : CapacityManager :=
  match a.call with
  | .reconcileDeal state deal => (reconcileDeal a.io state deal s).1
  | .reserve n => (reserve a.io n s).1
  | .recordDelivered i n => (recordDelivered a.io i n s).1
  | .finishExact i => (finishExact a.io i s).1
  | .finishAmbiguous i => (finishAmbiguous a.io i s).1
  | .crash => SellerCapacity.crash s

def exec (a : Act) (s : CapacityManager) : Except Empty CapacityManager := .ok (step a s)

def Started (s : CapacityManager) : Prop :=
  s.entry = none ∧ s.requests = [] ∧ s.recorded = 0 ∧ s.ambiguous = 0 ∧ s.returned = 0

/-- Ten ticks funded, the first accepted. -/
def sampleRead : Act where
  call := .reconcileDeal
    { funded := true, opened := true, probeAccepted := true, disputed := false, deposit := 9
      finalizedOwed := 0, tokensFinal := 1000000, tokensPending := 1000000, probeTick := 0
      fundedTime := some 1, probeTime := 2, lastClaimTime := 3, disputeTime := 0 }
    { dealFlags := 0, subWeeks := 0, weekIndex := 0, tokensPerWeek := 10000000
      fundedTokens := 10000000, tokensPaid := 1000000, periodStart := 3, weekBaseTokens := 0 }

def sampleManager : CapacityManager where
  tokenContract := "0:dea1"
  stored := true

end SellerCapacity
