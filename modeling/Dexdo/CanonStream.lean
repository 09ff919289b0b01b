import Dexdo.RouteBudget
import Dexdo.TextForms

/-! # The canonical stream of one consumer request

`CanonStreamDriver` of `crates/dexdo/src/buyer/api/stream.rs` with the `StreamVerifier` it runs
(`buyer/verify.rs`), `ConsumerRequestGuard::record_delivered` (`buyer/api/mod.rs`), and the loop
that the four renderers of `buyer/api/openai.rs` and `buyer/api/anthropic.rs` share. Left out: log
lines, the reasons of a bail, and the fields of a chunk that none of them reads. -/
namespace CanonStream

open TextForms TokenContractState RouteBudget

/-! ## Chunks and their verification -/

structure SignalManifest where
  hasTokenIds : Bool
  tokenizerFamily : String
  claimedModel : String
  deriving DecidableEq, Repr

structure CanonChunk where
  text : Text
  tokenIds : List ℕ
  manifest : Option SignalManifest
  deriving DecidableEq, Repr

def accountedTokens (chunk : CanonChunk) : ℕ := max chunk.tokenIds.length 1

inductive Verdict where
  | pass
  | bail
  deriving DecidableEq, Repr

inductive TokenizerProfile where
  | permissive
  | vocab (size : ℕ)
  deriving DecidableEq, Repr

/-- `profile_for` without a model config, which the driver does not give its verifier. -/
def profileFor (family : String) : Option TokenizerProfile :=
  if family = "mock" then some .permissive
  else if family = "qwen" then some (.vocab 152064)
  else if family = "llama" then some (.vocab 128256)
  else if family = "gpt" then some (.vocab 100352)
  else none

def tokenizerCheck (family : String) (tokenIds : List ℕ) : Verdict :=
  match profileFor family with
  | none | some .permissive => .pass
  | some (.vocab size) => if tokenIds.any (size ≤ ·) then .bail else .pass

structure StreamVerifier where
  manifest : Option SignalManifest
  expectedModel : Option String
  deriving DecidableEq, Repr

namespace StreamVerifier

def withExpectedModel (model : String) : StreamVerifier := ⟨none, some model⟩

/-- The declared model against the model of the market frame. -/
def checkModel (v : StreamVerifier) (manifest : SignalManifest) : Verdict :=
  match v.expectedModel with
  | none => .pass
  | some expected =>
    if manifest.claimedModel ≠ "" ∧ profileFor manifest.tokenizerFamily ≠ some .permissive ∧
        manifest.claimedModel ≠ expected then .bail
    else .pass

def verify (v : StreamVerifier) (chunk : CanonChunk) : StreamVerifier × Verdict :=
  let v := { v with manifest := chunk.manifest <|> v.manifest }
  match v.manifest with
  | none => (v, .pass)
  | some manifest =>
    if manifest.hasTokenIds ∧
        tokenizerCheck manifest.tokenizerFamily chunk.tokenIds ≠ .pass then (v, .bail)
    else (v, v.checkModel manifest)

end StreamVerifier

/-! ## What the upstream yields -/

inductive Code where
  | ok | cancelled | unknown | invalidArgument | deadlineExceeded | notFound | alreadyExists
  | permissionDenied | resourceExhausted | failedPrecondition | aborted | outOfRange
  | unimplemented | internal | unavailable | dataLoss | unauthenticated
  deriving DecidableEq, Repr

structure Status where
  code : Code
  message : Text
  deriving DecidableEq, Repr

inductive CanonStreamError where
  | upstream (status : Status)
  | localFailure (message : Text)
  deriving DecidableEq, Repr

namespace CanonStreamError

def isCapacity : CanonStreamError → Bool
  | upstream status => status.code == .resourceExhausted
  | localFailure _ => false

def policyMessage : CanonStreamError → Text
  | upstream status => status.message
  | localFailure message => message

end CanonStreamError

/-- What the deal holds as a chunk is charged, which other requests write too. `cutoverPoisoned`
is the lock of a subscription's claim anchor. -/
structure Route where
  tokenContract : String
  cutoverPoisoned : Bool
  tokenCeiling : ℕ
  deliveredTokens : ℕ
  deriving DecidableEq, Repr

structure Turn where
  sessionClosed : Bool
  item : Option (Except Status CanonChunk)
  route : Route

/-! ## The driver -/

inductive CanonStreamNext where
  | chunk (chunk : CanonChunk)
  | finished
  | bailed
  | errored (error : CanonStreamError)
  deriving DecidableEq, Repr

structure CanonStreamDriver where
  verifier : StreamVerifier
  received : ℕ
  maxTokens : ℕ
  bailed : Bool
  deriving DecidableEq, Repr

namespace CanonStreamDriver

variable (d : CanonStreamDriver)

def new (expectedModel : String) (maxTokens : ℕ) : CanonStreamDriver where
  verifier := .withExpectedModel expectedModel
  received := 0
  maxTokens := maxTokens
  bailed := false

def next (turn : Turn) : CanonStreamDriver × CanonStreamNext :=
  if turn.sessionClosed then
    (d, .errored (.localFailure "deal session closed after accepted-output deadline".toList))
  else match turn.item with
  | some (.ok chunk) =>
    match d.verifier.verify chunk with
    | (verifier, .bail) => ({ d with verifier := verifier, bailed := true }, .bailed)
    | (verifier, .pass) => ({ d with verifier := verifier }, .chunk chunk)
  | some (.error status) => (d, .errored (.upstream status))
  | none => (d, .finished)

def admits (chunk : CanonChunk) : Bool :=
  saturatingAdd d.received (accountedTokens chunk) ≤ d.maxTokens

def accountRendered (chunk : CanonChunk) : CanonStreamDriver × Bool :=
  let received := saturatingAdd d.received (accountedTokens chunk)
  ({ d with received := received }, d.maxTokens ≤ received)

end CanonStreamDriver

/-! ## Charging -/

/-- `ApiDeal::record_delivered`: the counter of the deal after the charge. -/
def Route.recordDelivered (route : Route) (n : ℕ) : Except Text ℕ :=
  let next := route.deliveredTokens + n
  if u64 ≤ next then .error "cumulative delivered-token accounting overflow".toList
  else if next ≤ route.tokenCeiling then .ok next
  else .error s!"accepted output would raise cumulative delivery from {route.deliveredTokens} to {next} tokens above the currently published route ceiling {route.tokenCeiling}".toList

/-- `ConsumerRequestGuard::record_delivered`: the reservation after the charge. -/
def recordDelivered (reservation : Option RouteReservation) (route : Route) (delivered : ℕ) :
    Except Text RouteReservation :=
  if route.cutoverPoisoned then
    .error s!"subscription {route.tokenContract}: acceptance cutover lock is poisoned; refusing output".toList
  else match reservation with
  | none => .error "accepted output has no admitted route reservation".toList
  | some r =>
    match r.checkedUsedAfter delivered with
    | none => .error s!"accepted output of {delivered} tokens does not fit the held route reservation: {r.used} used of {r.granted}".toList
    | some used => (route.recordDelivered delivered).map fun _ => { r with used := used }

/-! ## The loop of a renderer -/

inductive Event where
  | charged (tokens : ℕ)
  | exposed (text : Text)
  deriving DecidableEq, Repr

def Event.tokens : Event → ℕ
  | charged tokens => tokens
  | exposed _ => 0

def Event.text : Event → Text
  | charged _ => []
  | exposed text => text

def Event.isExposed : Event → Bool
  | charged _ => false
  | exposed _ => true

structure Loop where
  driver : CanonStreamDriver
  reservation : Option RouteReservation
  capped : Bool
  streamError : Option CanonStreamError
  events : List Event
  deriving DecidableEq, Repr

namespace Loop

def start (model : String) (maxTokens : ℕ) (reservation : Option RouteReservation) : Loop where
  driver := .new model maxTokens
  reservation := reservation
  capped := false
  streamError := none
  events := []

def expose (streamed : Bool) (text : Text) : List Event :=
  if streamed && text.isEmpty then [] else [.exposed text]

/-- One round, with whether another follows. -/
def round (streamed : Bool) (l : Loop) (turn : Turn) : Loop × Bool :=
  match l.driver.next turn with
  | (driver, .errored error) => ({ l with driver := driver, streamError := some error }, false)
  | (driver, .bailed) | (driver, .finished) => ({ l with driver := driver }, false)
  | (driver, .chunk chunk) =>
    if !driver.admits chunk then ({ l with driver := driver, capped := true }, false)
    else
      let before := driver.received
      let (driver, reachedCap) := driver.accountRendered chunk
      let delivered := driver.received - before
      match recordDelivered l.reservation turn.route delivered with
      | .error message =>
        ({ l with driver := driver, streamError := some (.localFailure message) }, false)
      | .ok reservation =>
        ({ l with
            driver := driver
            reservation := some reservation
            events := l.events ++ .charged delivered :: expose streamed chunk.text }, !reachedCap)

def run (streamed : Bool) (l : Loop) : List Turn → Loop
  | [] => l
  | turn :: turns =>
    match l.round streamed turn with
    | (l, true) => run streamed l turns
    | (l, false) => l

def charged (l : Loop) : ℕ := (l.events.map Event.tokens).sum

def text (l : Loop) : Text := l.events.flatMap Event.text

end Loop

end CanonStream
