import Mathlib
import Dexdo.OpenAiUpstream

/-! # The relay

`relay_counting_with_chain_availability` of `crates/dexdo/src/seller/gateway.rs`: output crosses to
the buyer, and the total of the provider is recorded once it is known. -/
namespace GatewayRelay

open OpenAiUpstream

inductive Finish where
  | clean | interrupted | ambiguousUsage
  deriving DecidableEq, Repr

/-- The other parties of a relay. `unavailable i` says that the chain is reported unavailable
before the `i`-th receive, `connected i` that the buyer takes the chunk of the `i`-th receive, the
others what the recorder accepts. -/
structure Parties where
  unavailable : ℕ → Bool
  connected : ℕ → Bool
  authorize : ℕ → Except Status Unit
  deliver : ℕ → Except Status Unit

structure Relay where
  awaitingUsage : Bool := false
  chargedPerRun : ℕ := 0
  forwarded : List CanonChunk := []
  recorded : List ℕ := []

structure Outcome where
  relay : Relay
  terminalError : Option Status
  finish : Finish

def chainUnavailableStatus : Status :=
  ⟨.failedPrecondition, "SELLER_CHAIN_UNAVAILABLE: required chain read exhausted its retry budget; restore chain access and restart the seller"⟩

def Relay.cut (r : Relay) : Finish := if r.awaitingUsage then .ambiguousUsage else .interrupted

/-- The loop, from the `i`-th receive; a closed channel is an empty list. -/
def relayFrom (y : Parties) : ℕ → List (Except Status UpstreamEvent) → Relay → Outcome
  | i, [], r =>
    if y.unavailable i then ⟨r, some chainUnavailableStatus, r.cut⟩
    else if r.awaitingUsage then
      ⟨r, some (dataLoss "delivered output ended without authoritative token usage"),
        .ambiguousUsage⟩
    else ⟨r, none, .clean⟩
  | i, event :: events, r =>
    if y.unavailable i then ⟨r, some chainUnavailableStatus, r.cut⟩
    else
      match event with
      | .ok (.chunk chunk accountedTokens) =>
        if accountedTokens > 0 ∧ r.awaitingUsage = true then
          ⟨r, some (dataLoss "upstream mixed separate usage with structured token accounting"),
            .ambiguousUsage⟩
        else
          let needsUsage := accountedTokens == 0 && (chunk.text != "" || chunk.reasoning != "")
          match if needsUsage then y.authorize r.chargedPerRun else .ok () with
          | .error status => ⟨r, some status, r.cut⟩
          | .ok () =>
            if !y.connected i then ⟨r, none, r.cut⟩
            else
              match if accountedTokens > 0 then y.deliver accountedTokens else .ok () with
              | .error status => ⟨r, some status, .interrupted⟩
              | .ok () => relayFrom y (i + 1) events
                { r with
                  awaitingUsage := r.awaitingUsage || needsUsage
                  forwarded := r.forwarded ++ [chunk]
                  recorded := if accountedTokens > 0 then r.recorded ++ [accountedTokens]
                    else r.recorded }
      | .ok (.accounted tokens) =>
        if tokens = 0 ∨ r.awaitingUsage = false then
          ⟨r, some (dataLoss "authoritative usage has no preceding delivered output"), r.cut⟩
        else
          match y.deliver tokens with
          | .error status => ⟨r, some status, .ambiguousUsage⟩
          | .ok () => relayFrom y (i + 1) events
            { r with
              chargedPerRun := max r.chargedPerRun tokens
              awaitingUsage := false
              recorded := r.recorded ++ [tokens] }
      | .error status => ⟨r, some status, r.cut⟩

def relayResponse (y : Parties) (response : List UpstreamEvent × Except Status Unit) : Outcome :=
  relayFrom y 0
    (response.1.map .ok ++ match response.2 with
      | .ok () => []
      | .error status => [.error status]) {}

def Outcome.tokens (o : Outcome) : ℕ := o.relay.recorded.sum

structure Accepting (y : Parties) : Prop where
  connected : ∀ i, y.connected i = true
  authorize : ∀ n, y.authorize n = .ok ()
  deliver : ∀ n, y.deliver n = .ok ()

end GatewayRelay
