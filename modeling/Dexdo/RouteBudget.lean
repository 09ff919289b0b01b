import Dexdo.SolidityMapping
import Dexdo.TokenContractState
import Dexdo.TransactionSystem

/-! # The token budget of one served deal

`crates/dexdo/src/buyer/api/mod.rs`: the counters of an `ApiDeal`, the reservations of its
requests, and the content gate that spends its probes out of one of them. Texts, heartbeats and the
settlement of a bailed deal are left out. -/
namespace RouteBudget

open SolidityMapping TokenContractState

def contentProbeMaxTokens : ℕ := 64
def probeTickTokens : ℕ := tickSize

def saturatingAdd (a b : ℕ) : ℕ := min (a + b) (u64 - 1)
def saturatingMul (a b : ℕ) : ℕ := min (a * b) (u64 - 1)
def wrappingSub (a b : ℕ) : ℕ := (a + (u64 - b)) % u64

structure RouteReservation where
  granted : ℕ
  used : ℕ
  deriving DecidableEq, Repr

namespace RouteReservation

def remaining (r : RouteReservation) : ℕ := r.granted - r.used

def checkedUsedAfter (r : RouteReservation) (delivered : ℕ) : Option ℕ :=
  if r.used + delivered < u64 ∧ r.used + delivered ≤ r.granted then some (r.used + delivered)
  else none

end RouteReservation

inductive ContentCheck where
  | skip | probe
  deriving DecidableEq, Repr

inductive Layer where
  | b8 | b7
  deriving DecidableEq, Repr

inductive Outcome where
  | pass | bail | transportError
  deriving DecidableEq, Repr

structure ContentGate where
  check : ContentCheck
  models : Bool
  probeMax : ℕ

inductive Stage where
  | admitted
  | probing (layer : Layer) (left : ℕ)
  | verified | serving
  /-- The zero-grant refusal after a verification that passed. -/
  | zeroGrant
  | ended
  deriving DecidableEq, Repr

/-- A `record_delivered` between its load of the ceiling and its update of the counter. -/
structure Charge where
  tokens : ℕ
  ceiling : ℕ
  deriving DecidableEq, Repr

/-- The locals of a request: inside `try_reserve`, or with a reservation in its guard. -/
inductive Phase where
  | idle
  | reserving (asked : Option ℕ)
  | attempting (asked : Option ℕ) (reserved : ℕ)
  | unanchored (asked : Option ℕ) (reserved : ℕ)
  | sized (asked : Option ℕ) (reserved ceiling : ℕ)
  | exchanging (asked : Option ℕ) (reserved ceiling granted : ℕ)
  | holding (reservation : RouteReservation) (stage : Stage) (charge : Option Charge)
  deriving DecidableEq, Repr

instance : Inhabited Phase := ⟨.idle⟩

/-- `verdict` and `initializer` are the shared cell: what it caches, and who runs its body. -/
structure State where
  tokenCeiling : ℕ
  deliveredTokens : ℕ
  reservedTokens : ℕ
  anchoredBeforeProbe : Bool
  verdict : Option Bool
  initializer : Option ℕ
  requests : Mapping Phase

def Phase.held : Phase → ℕ
  | .holding r _ _ => r.remaining
  | _ => 0

namespace State

def at' (s : State) (i : ℕ) : Phase := s.requests.get i

def put (s : State) (i : ℕ) (p : Phase) : State := { s with requests := s.requests.set i p }

def heldTokens (s : State) : ℕ := s.requests.total Phase.held

def admissionCeiling (s : State) : ℕ :=
  if s.anchoredBeforeProbe then probeTickTokens else s.tokenCeiling

def outstandingVerificationTokens (gate : ContentGate) (s : State) : ℕ :=
  match gate.check, s.verdict with
  | .skip, _ => 0
  | .probe, some _ => 0
  | .probe, none => saturatingMul gate.probeMax 2

end State

def grantOf (asked : Option ℕ) (free floor : ℕ) : ℕ :=
  match asked with
  | some asked => min (saturatingAdd asked floor) free
  | none => free

inductive Action where
  | begin (i : ℕ) (asked : Option ℕ)
  | loadReserved (i : ℕ)
  | readAnchored (i : ℕ)
  | loadCeiling (i : ℕ)
  | readOwed (i : ℕ)
  | exchange (i : ℕ)
  | verify (i : ℕ)
  | finish (i : ℕ) (outcome : Outcome)
  | charge (i n : ℕ)
  | accept (i : ℕ)
  | resume (i : ℕ)
  | drop (i : ℕ)
  | publish (ceiling : ℕ)
  | cutover
  deriving DecidableEq, Repr

/-- The first atomic operation of `ensure_verified`. A request that finds the cell empty and its
body running waits. -/
def verify (gate : ContentGate) (i : ℕ) (r : RouteReservation) (s : State) : Option State :=
  match gate.check, gate.models, s.verdict, s.initializer with
  | .skip, _, _, _ => some (s.put i (.holding r .verified none))
  | .probe, false, _, _ => some (s.put i (.holding r .ended none))
  | .probe, true, some true, _ => some (s.put i (.holding r .verified none))
  | .probe, true, some false, _ => some (s.put i (.holding r .ended none))
  | .probe, true, none, some _ => none
  | .probe, true, none, none =>
    some ({ s with initializer := some i }.put i
      (.holding r (.probing .b8 (min r.remaining gate.probeMax)) none))

/-- The end of a layer. Only a definitive verdict is cached. -/
def finish (gate : ContentGate) (i : ℕ) (r : RouteReservation) (layer : Layer) (s : State) :
    Outcome → State
  | .transportError => { s with initializer := none }.put i (.holding r .ended none)
  | .bail =>
    { s with initializer := none, verdict := some false }.put i (.holding r .ended none)
  | .pass =>
    match layer with
    | .b8 => s.put i (.holding r (.probing .b7 (min r.remaining gate.probeMax)) none)
    | .b7 => { s with initializer := none, verdict := some true }.put i (.holding r .verified none)

def charge (i n : ℕ) (r : RouteReservation) (stage : Stage) (s : State) : State :=
  match r.checkedUsedAfter n with
  | none => s
  | some _ => s.put i (.holding r stage (some ⟨n, s.tokenCeiling⟩))

def Stage.spend (n : ℕ) : Stage → Stage
  | .probing layer left => .probing layer (left - n)
  | stage => stage

/-- The update of the delivered counter, and the reservation it commits. -/
def accept (i : ℕ) (r : RouteReservation) (stage : Stage) (c : Charge) (s : State) : State :=
  if s.deliveredTokens + c.tokens < u64 ∧ s.deliveredTokens + c.tokens ≤ c.ceiling then
    { s with deliveredTokens := s.deliveredTokens + c.tokens }.put i
      (.holding { r with used := r.used + c.tokens } (stage.spend c.tokens) none)
  else s.put i (.holding r stage none)

/-- A dropped guard gives back what its request did not use; a dropped body leaves the cell empty
for the next one. -/
def drop (i : ℕ) (r : RouteReservation) (stage : Stage) (s : State) : State :=
  let s := { s with reservedTokens := wrappingSub s.reservedTokens r.remaining }
  match stage with
  | .probing _ _ => { s with initializer := none }.put i .idle
  | _ => s.put i .idle

def Stage.takes (n : ℕ) : Stage → Bool
  | .probing _ left => n ≤ left
  | .serving => true
  | _ => false

def next (gate : ContentGate) (s : State) : Action → Option State
  | .begin i asked =>
    match s.at' i with
    | .idle => some (s.put i (.reserving asked))
    | _ => none
  | .loadReserved i =>
    match s.at' i with
    | .reserving asked => some (s.put i (.attempting asked s.reservedTokens))
    | _ => none
  | .readAnchored i =>
    match s.at' i with
    | .attempting asked reserved =>
      some (s.put i (if s.anchoredBeforeProbe then .sized asked reserved probeTickTokens
        else .unanchored asked reserved))
    | _ => none
  | .loadCeiling i =>
    match s.at' i with
    | .unanchored asked reserved => some (s.put i (.sized asked reserved s.tokenCeiling))
    | _ => none
  | .readOwed i =>
    match s.at' i with
    | .sized asked reserved ceiling =>
      let floor := s.outstandingVerificationTokens gate
      let granted := grantOf asked (ceiling - reserved) floor
      some (s.put i (if granted ≤ floor then .idle else .exchanging asked reserved ceiling granted))
    | _ => none
  | .exchange i =>
    match s.at' i with
    | .exchanging asked reserved _ granted =>
      if s.reservedTokens = reserved then
        some ({ s with reservedTokens := saturatingAdd reserved granted }.put i
          (.holding ⟨granted, 0⟩ .admitted none))
      else some (s.put i (.attempting asked s.reservedTokens))
    | _ => none
  | .verify i =>
    match s.at' i with
    | .holding r .admitted none => verify gate i r s
    | _ => none
  | .finish i outcome =>
    match s.at' i with
    | .holding r (.probing layer _) none => some (finish gate i r layer s outcome)
    | _ => none
  | .charge i n =>
    match s.at' i with
    | .holding r stage none => if stage.takes n then some (charge i n r stage s) else none
    | _ => none
  | .accept i =>
    match s.at' i with
    | .holding r stage (some c) => some (accept i r stage c s)
    | _ => none
  | .resume i =>
    match s.at' i with
    | .holding r .verified none =>
      some (s.put i (.holding r (if r.remaining = 0 then .zeroGrant else .serving) none))
    | _ => none
  | .drop i =>
    match s.at' i with
    | .holding r stage none => some (drop i r stage s)
    | _ => none
  | .publish ceiling => if ceiling < u64 then some { s with tokenCeiling := ceiling } else none
  | .cutover => some { s with anchoredBeforeProbe := false }

def exec (gate : ContentGate) (a : Action) (s : State) : Except Unit State :=
  match next gate s a with
  | some t => .ok t
  | none => .error ()

/-- `ApiDeal::new`, over a gate that may already hold a verdict. -/
def opened (maxTokens : ℕ) (anchored : Bool) (verdict : Option Bool) : State where
  tokenCeiling := maxTokens
  deliveredTokens := 0
  reservedTokens := 0
  anchoredBeforeProbe := anchored
  verdict := verdict
  initializer := none
  requests := Mapping.empty

end RouteBudget
