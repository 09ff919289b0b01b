import Dexdo.CanonStream
import Dexdo.SessionSettle

/-! # The consumer protocols

`sse_response` and `aggregate_response` of `crates/dexdo/src/buyer/api/openai.rs` and of
`anthropic.rs`, from an opened upstream to the drop of the request guard, with
`handle_stream_error_policy`, `RequestDelivery` and the guard of `buyer/api/mod.rs`. Left out: the
frames and bodies around a text, the ids and clocks in them, log lines. -/
namespace ConsumerRender

open TextForms RouteBudget CanonStream SessionSettle

/-- What `cap_canon_to_grant` lets through: it fits in 32 bits, and a request whose grant is zero
is refused before. -/
structure Grant where
  tokens : ℕ
  pos : 0 < tokens
  fits : tokens < 2 ^ 32

/-- `granted` is what the reservation has left, `asked` the limit of the caller with zero for none
(`cap_canon_to_grant`, after the check for an empty grant). -/
def capCanonToGrant (asked granted : ℕ) (hasked : asked < 2 ^ 32) : Option Grant :=
  if h : 0 < granted then
    some {
      tokens := if asked = 0 then min granted (2 ^ 32 - 1) else min asked (min granted (2 ^ 32 - 1))
      pos := by split <;> omega
      fits := by split <;> omega }
  else none

inductive Protocol where
  | openai
  | anthropic
  deriving DecidableEq, Repr

inductive FinishReason where
  | stop | length | capacity | error | contentFilter
  | endTurn | maxTokens | refusal
  deriving DecidableEq, Repr

structure RequestDelivery where
  protocol : Protocol
  streamed : Bool
  grantTokens : ℕ
  renderedTokens : ℕ
  routeDeliveredTokens : Option ℕ
  finishReason : FinishReason
  truncatedByGrant : Bool
  endedBeforeGrant : Bool
  deriving DecidableEq, Repr

inductive Response where
  | sse (finishReason : FinishReason)
  | completion (content : Text) (finishReason : FinishReason)
  | streamError (error : CanonStreamError)
  | emptyStream
  deriving DecidableEq, Repr

def Response.terminal : Response → Option FinishReason
  | sse finishReason | completion _ finishReason => some finishReason
  | streamError _ | emptyStream => none

/-! ## The session after the stream -/

structure World where
  answer : ChainCall → Answer
  othersOutput : Bool
  delivered : Option ℕ

structure Fate where
  session : Session
  writes : List ChainCall
  deriving DecidableEq, Repr

def Posted (call : ChainCall) (answer : Answer) : Prop :=
  ¬(call = .stopIfHeartbeat ∧ answer = .heartbeatChanged)

instance (call : ChainCall) (answer : Answer) : Decidable (Posted call answer) :=
  inferInstanceAs (Decidable (¬_))

/-- An entry point of the session, from the call to its return. -/
def settle (c : Config) (w : World) (s : Session) (call : Call) : Fate :=
  match enter c s w.delivered call with
  | (s, none) => ⟨s, []⟩
  | (s, some body) =>
    match begin c s body with
    | (s, none) => ⟨s, []⟩
    | (s, some chainCall) =>
      ⟨resume c s body (w.answer chainCall),
        if Posted chainCall (w.answer chainCall) then [chainCall] else []⟩

inductive StreamErrorPolicyAction where
  | requestScoped
  | deadGateway
  | sellerStallsMidStream
  deriving DecidableEq, Repr

def upstreamHttp : Text := "upstream HTTP ".toList

/-- Whether a part after a separator starts with a 4; `fuel` bounds the separators. -/
def anyStatus4Aux : ℕ → Text → Bool
  | 0, _ => false
  | fuel + 1, error =>
    match splitOnce upstreamHttp error with
    | none => false
    | some (_, rest) => rest.head? == some '4' || anyStatus4Aux fuel rest

def isRequestScopedUpstreamRejection (error : Text) : Bool := anyStatus4Aux error.length error

def streamErrorPolicyAction (error : Text) (received : ℕ) : StreamErrorPolicyAction :=
  if received = 0 ∧ isRequestScopedUpstreamRejection error then .requestScoped
  else if received = 0 then .deadGateway
  else .sellerStallsMidStream

def handleStreamErrorPolicy (c : Config) (w : World) (s : Session) (received : ℕ)
    (error : Text) : Fate × StreamErrorPolicyAction :=
  match streamErrorPolicyAction error received with
  | .requestScoped => (⟨s, []⟩, .requestScoped)
  | .deadGateway => (settle c w s .settleDeadGateway, .deadGateway)
  | .sellerStallsMidStream =>
    (settle c w s .settleSellerStallsMidStream, .sellerStallsMidStream)

def heartbeatUnchanged (w : World) (streamed : Bool) (l : Loop) : Bool :=
  !w.othersOutput && !(streamed && l.events.any Event.isExposed)

/-- `Drop for ConsumerRequestGuard`; a completed guard is disarmed. -/
def dropGuard (unchanged completed : Bool) (fate : Fate) : Fate :=
  if !completed && unchanged then
    { fate with session := fate.session.closeRecoveryEpisode .reclaimOpened }
  else fate

/-! ## The four renderers -/

structure Rendered where
  loop : Loop
  fate : Fate
  report : RequestDelivery
  response : Response

structure Request where
  config : Config
  world : World
  session : Session
  model : String
  grant : Grant
  reservation : Option RouteReservation
  turns : List Turn

namespace Request

variable (r : Request)

def loop (streamed : Bool) : Loop :=
  (Loop.start r.model r.grant.tokens r.reservation).run streamed r.turns

def settle (call : Call) : Fate := ConsumerRender.settle r.config r.world r.session call

/-- `report` is told after the session is settled. -/
def report (protocol : Protocol) (streamed : Bool) (finishReason : FinishReason) :
    RequestDelivery :=
  let l := r.loop streamed
  { protocol := protocol
    streamed := streamed
    grantTokens := r.grant.tokens
    renderedTokens := l.driver.received
    routeDeliveredTokens := r.world.delivered
    finishReason := finishReason
    truncatedByGrant := l.capped
    endedBeforeGrant := l.driver.received < r.grant.tokens }

def handlePolicy (l : Loop) (error : CanonStreamError) : Fate × StreamErrorPolicyAction :=
  handleStreamErrorPolicy r.config r.world r.session l.driver.received error.policyMessage

def leave (streamed : Bool) (fate : Fate) (completed : Bool) : Fate :=
  dropGuard (heartbeatUnchanged r.world streamed (r.loop streamed)) completed fate

end Request

namespace Openai

/-- With whether the guard is completed. -/
def sseSettle (r : Request) (l : Loop) : Fate × Bool :=
  if l.driver.bailed then (r.settle .settleVerificationBail, false)
  else match l.streamError with
  | some e =>
    if e.isCapacity then (⟨r.session, []⟩, true)
    else
      let (fate, action) := r.handlePolicy l e
      (fate, action = .requestScoped)
  | none =>
    if l.driver.received = 0 ∧ !l.capped then (r.settle .settleEmptyStream, false)
    else (⟨r.session, []⟩, true)

def sseFinishReason (l : Loop) : FinishReason :=
  if l.driver.bailed then .contentFilter
  else if l.capped then .length
  else if l.streamError.any (·.isCapacity) then .capacity
  else if l.streamError.isSome ∨ l.driver.received = 0 then .error
  else .stop

def sseResponse (r : Request) : Rendered :=
  let l := r.loop true
  let (fate, completed) := sseSettle r l
  let finishReason := sseFinishReason l
  { loop := l
    fate := r.leave true fate completed
    report := r.report .openai true finishReason
    response := .sse finishReason }

/-- An answer that is not a 502. -/
def completion (r : Request) (l : Loop) (fate : Fate) : Rendered :=
  let finishReason :=
    if l.driver.bailed then FinishReason.contentFilter else if l.capped then .length else .stop
  { loop := l
    fate := r.leave false fate true
    report := r.report .openai false finishReason
    response := .completion l.text finishReason }

def aggregateResponse (r : Request) : Rendered :=
  let l := r.loop false
  if l.driver.bailed then completion r l (r.settle .settleVerificationBail)
  else match l.streamError with
  | some e =>
    if e.isCapacity then
      { loop := l
        fate := r.leave false ⟨r.session, []⟩ true
        report := r.report .openai false .capacity
        response := .completion l.text .capacity }
    else
      let (fate, action) := r.handlePolicy l e
      { loop := l
        fate := r.leave false fate (action = .requestScoped)
        report := r.report .openai false .error
        response := .streamError e }
  | none =>
    if l.driver.received = 0 ∧ !l.capped then
      { loop := l
        fate := r.leave false (r.settle .settleEmptyStream) false
        report := r.report .openai false .error
        response := .emptyStream }
    else completion r l ⟨r.session, []⟩

end Openai

namespace Anthropic

/-- With whether the guard is completed. -/
def sseSettle (r : Request) (l : Loop) : Fate × Bool :=
  if l.driver.bailed then (r.settle .settleVerificationBail, false)
  else match l.streamError with
  | some e =>
    let (fate, action) := r.handlePolicy l e
    (fate, action = .requestScoped)
  | none =>
    if l.driver.received = 0 ∧ !l.capped then (r.settle .settleEmptyStream, false)
    else (⟨r.session, []⟩, true)

def sseStopReason (l : Loop) : FinishReason :=
  if l.driver.bailed then .refusal
  else if l.capped then .maxTokens
  else if l.streamError.isSome ∨ l.driver.received = 0 then .error
  else .endTurn

def sseResponse (r : Request) : Rendered :=
  let l := r.loop true
  let (fate, completed) := sseSettle r l
  let stopReason := sseStopReason l
  { loop := l
    fate := r.leave true fate completed
    report := r.report .anthropic true stopReason
    response := .sse stopReason }

/-- An answer that is not a 502. -/
def message (r : Request) (l : Loop) (fate : Fate) : Rendered :=
  let stopReason :=
    if l.driver.bailed then FinishReason.refusal else if l.capped then .maxTokens else .endTurn
  { loop := l
    fate := r.leave false fate true
    report := r.report .anthropic false stopReason
    response := .completion l.text stopReason }

def aggregateResponse (r : Request) : Rendered :=
  let l := r.loop false
  if l.driver.bailed then message r l (r.settle .settleVerificationBail)
  else match l.streamError with
  | some e =>
    let (fate, action) := r.handlePolicy l e
    { loop := l
      fate := r.leave false fate (action = .requestScoped)
      report := r.report .anthropic false .error
      response := .streamError e }
  | none =>
    if l.driver.received = 0 ∧ !l.capped then
      { loop := l
        fate := r.leave false (r.settle .settleEmptyStream) false
        report := r.report .anthropic false .error
        response := .emptyStream }
    else message r l ⟨r.session, []⟩

end Anthropic

def render : Protocol → (streamed : Bool) → Request → Rendered
  | .openai, true => Openai.sseResponse
  | .openai, false => Openai.aggregateResponse
  | .anthropic, true => Anthropic.sseResponse
  | .anthropic, false => Anthropic.aggregateResponse

end ConsumerRender
