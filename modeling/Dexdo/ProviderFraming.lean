import Dexdo.FallibleSteps
import Dexdo.FramedReads
import Dexdo.OpenAiUpstream
import Mathlib.Data.List.TakeDrop

/-! # Provider bodies read by read

`crates/dexdo/src/seller/upstream/openai.rs` and `anthropic.rs`: the loops over the reads of one
response body. What a frame says is a parameter; the buffer, the drain and what is sent are the
code's. -/
namespace ProviderFraming

open FramedReads FallibleSteps
open OpenAiUpstream (ParsedEvent)

/-! ## What is sent -/

inductive Code where
  | dataLoss | failedPrecondition | resourceExhausted | unavailable
  deriving DecidableEq, Repr

structure Status where
  code : Code
  message : String
  deriving DecidableEq, Repr

def dataLoss (message : String) : Status := ⟨.dataLoss, message⟩

structure SignalManifest where
  tokenizerFamily : String
  hasTokenIds : Bool := false
  claimedModel : String
  deriving DecidableEq, Repr

structure CanonChunk where
  text : String
  reasoning : String
  seq : ℕ
  manifest : Option SignalManifest
  deriving DecidableEq, Repr

inductive UpstreamEvent where
  | chunk (chunk : CanonChunk) (accountedTokens : ℕ)
  | accounted (tokens : ℕ)
  deriving DecidableEq, Repr

def canonChunk (manifest : SignalManifest) (seq : ℕ) (text reasoning : String) : UpstreamEvent :=
  .chunk ⟨text, reasoning, seq, if seq = 0 then some manifest else none⟩ 0

def sseFrameMaxBytes : ℕ := 1048576

def errorBodyMaxBytes : ℕ := 4096

def fromUtf8 (frame : Bytes) : Option String := String.fromUTF8? ⟨frame.toArray⟩

/-! ## The startup probe -/

structure Requirements where
  tools : Bool
  think : Bool
  deriving DecidableEq, Repr

def Requirements.flags (r : Requirements) : String :=
  match r.tools, r.think with
  | true, true => "--tools and --think"
  | true, false => "--tools"
  | false, true => "--think"
  | false, false => "no capability flag"

def Requirements.askedFor (r : Requirements) : String :=
  match r.tools, r.think with
  | true, true => "a forced call to the supplied dexdo_capability_probe tool, reasoning content, " ++
      "and positive reasoning-token usage"
  | true, false => "a forced call to the supplied dexdo_capability_probe tool"
  | false, true => "reasoning content and positive reasoning-token usage"
  | false, false => "the ordinary health response"

structure CapabilityEvent where
  toolCall : Bool := false
  reasoningTokens : Option ℕ := none

structure Observation where
  sawContent : Bool := false
  sawReasoning : Bool := false
  sawToolCall : Bool := false
  reasoningTokens : Option ℕ := none
  deriving DecidableEq, Repr

def Observation.observeReasoningTokens (reported : Option ℕ) (o : Observation) :
    Except Status Observation :=
  match reported with
  | none => .ok o
  | some n =>
    if o.reasoningTokens.any (· != n) then .error (dataLoss
      "OpenAI-compatible stream reported contradictory reasoning-token usage totals")
    else .ok { o with reasoningTokens := some n }

def shownTotal (n : Option ℕ) : String := n.elim "absent" toString

def Observation.validate (requirements : Requirements) (completionTokens : Option ℕ)
    (o : Observation) : Except Status Unit :=
  let toolsMissing := requirements.tools && !o.sawToolCall
  let reasoningMissing := requirements.think && !o.sawReasoning
  let usageMissing := requirements.think && o.reasoningTokens.getD 0 == 0
  if !toolsMissing && !reasoningMissing && !usageMissing then .ok ()
  else
    let missing := (if toolsMissing then ["tool call"] else []) ++
      (if reasoningMissing then ["reasoning content"] else []) ++
      if usageMissing then ["positive reasoning-token usage"] else []
    .error ⟨.failedPrecondition, "startup capability probe for " ++ requirements.flags ++
      " asked the upstream for " ++ requirements.askedFor ++ "; the upstream returned content=" ++
      toString o.sawContent ++ ", tool_call=" ++ toString o.sawToolCall ++
      ", reasoning_content=" ++ toString o.sawReasoning ++ ", completion_tokens=" ++
      shownTotal completionTokens ++ ", reasoning_tokens=" ++ shownTotal o.reasoningTokens ++
      "; missing " ++ String.intercalate " and " missing ++ "; remove the unsupported flag from " ++
      "the model id or configure an upstream that returns the declared capability"⟩

/-! ## The OpenAI-compatible adapter -/

/-- One call of `stream_response`: what frames and bodies say, and what the call asks for. -/
structure OpenAi where
  parseEvent : String → Except Status ParsedEvent
  capabilityEvent : Requirements → String → Except Status CapabilityEvent
  unframedProviderError : Bytes → Option String
  offered : String → Bool
  mismatch : String → String
  requirements : Option Requirements
  count : ℕ
  manifest : SignalManifest

structure Progress where
  seq : ℕ := 0
  nativeUsage : Option ℕ := none
  modelIdentitySettled : Bool := false
  observation : Option Observation := none
  providerError : Option String := none
  deriving DecidableEq, Repr

namespace OpenAi

variable (A : OpenAi)

def start : Progress := { observation := A.requirements.map fun _ => {} }

/-- The probe's look at an event, before it is parsed. -/
def attend (p : Progress) (event : String) : Except Status (Progress × Bool) :=
  match A.requirements, p.observation with
  | some requirements, some observation => do
    let evidence ← A.capabilityEvent requirements event
    let observation := { observation with
      sawToolCall := observation.sawToolCall || evidence.toolCall }
    let observation ← observation.observeReasoningTokens evidence.reasoningTokens
    return ({ p with observation := some observation }, evidence.toolCall)
  | _, _ => .ok (p, false)

/-- The first model a stream names settles its identity. -/
def settleIdentity (p : Progress) (model : Option String) : Except Status Progress :=
  match model with
  | none => .ok p
  | some reported =>
    if p.modelIdentitySettled then .ok p
    else if !A.offered reported && p.seq == 0 then
      .error ⟨.failedPrecondition, A.mismatch reported⟩
    else .ok { p with modelIdentitySettled := true }

def blank (s : String) : Bool := (OpenAiUpstream.trim s.toList).isEmpty

/-- A frame with a delta or a total. -/
def onFrame (p : Progress) (toolCall : Bool) (text reasoning : String) (usage : Option ℕ)
    (model : Option String) : Except Status (List UpstreamEvent × Progress) := do
  let p := { p with observation := p.observation.map fun o => { o with
    sawContent := o.sawContent || !blank text
    sawReasoning := o.sawReasoning || !blank reasoning } }
  let p ← A.settleIdentity p model
  let hasCanonOutput := text ≠ "" ∨ reasoning ≠ ""
  match usage with
  | some reported =>
    if hasCanonOutput ∨ toolCall then .error (dataLoss
      "OpenAI-compatible usage is attached to an output delta, not a terminal record")
    else if reported > A.count then .error (dataLoss
      "OpenAI-compatible usage exceeds the requested token limit")
    else
      match p.nativeUsage with
      | some recorded =>
        if recorded ≠ reported then .error (dataLoss
          "OpenAI-compatible stream reported contradictory terminal usage totals")
        else .ok ([], p)
      | none => .ok ([], { p with nativeUsage := some reported })
  | none =>
    if ¬ (hasCanonOutput ∨ toolCall) then .ok ([], p)
    else if p.nativeUsage.isSome then .error (dataLoss
      "OpenAI-compatible output continued after the terminal usage record")
    else if ¬ hasCanonOutput then .ok ([], p)
    else .ok ([canonChunk A.manifest p.seq text reasoning], { p with seq := p.seq + 1 })

def usageWithoutOutput : Status :=
  dataLoss "OpenAI-compatible usage reports output tokens without delivered output"

def outputWithoutUsage : Status := dataLoss
  "OpenAI-compatible output ended without positive terminal usage.completion_tokens"

/-- After `[DONE]`. -/
def onDone (p : Progress) : List UpstreamEvent × Except Status Unit :=
  let valid := match A.requirements, p.observation with
    | some requirements, some observation => observation.validate requirements p.nativeUsage
    | _, _ => .ok ()
  match valid with
  | .error status => ([], .error status)
  | .ok () =>
    if p.seq = 0 ∧ ¬ p.observation.any (·.sawToolCall) then
      if p.nativeUsage.getD 0 ≠ 0 then ([], .error usageWithoutOutput)
      else ([], .ok ())
    else
      match p.nativeUsage.filter (· > 0) with
      | some outputTokens => ([.accounted outputTokens], .ok ())
      | none => ([], .error outputWithoutUsage)

/-- The body of the loop over the events of one drain. -/
def onEvent (p : Progress) (event : String) :
    List UpstreamEvent × (Progress ⊕ Except Status Unit) :=
  match A.attend p event with
  | .error status => ([], .inr (.error status))
  | .ok (p, toolCall) =>
    match A.parseEvent event with
    | .error status => ([], .inr (.error status))
    | .ok .done => ((A.onDone p).1, .inr (A.onDone p).2)
    | .ok (.frame text reasoning usage model) =>
      match A.onFrame p toolCall text reasoning usage model with
      | .error status => ([], .inr (.error status))
      | .ok (sent, p) => (sent, .inl p)
    | .ok (.providerError detail) =>
      ([], .inl { p with providerError := p.providerError <|> some detail })
    | .ok .other => ([], .inl p)

def observeBody (seen bytes : Bytes) : Bytes := seen ++ bytes.take (errorBodyMaxBytes - seen.length)

/-- The end of the body before `[DONE]`, with the observed prefix and the unfinished frame. -/
def atEnd (p : Progress) (seen buf : Bytes) : Except Status Unit :=
  let answered := p.seq == 0 && p.providerError.isNone && (A.unframedProviderError seen).isSome
  .error (dataLoss (
    if answered then "OpenAI-compatible response was not a stream but a provider error object " ++
      "under HTTP 200; the provider answered, so it was not asked again"
    else if buf ≠ [] then "OpenAI-compatible SSE ended with an unfinished frame"
    else "OpenAI-compatible SSE ended without [DONE]"))

/-- The call as a reader of frames; the whole body stands for the prefix observed of it. -/
def reader (body : Bytes) : Reader Progress String UpstreamEvent (Except Status Unit) where
  decode := fromUtf8
  step := A.onEvent
  finish p buf := A.atEnd p (body.take errorBodyMaxBytes) buf
  notText := .error (dataLoss "OpenAI-compatible SSE frame is not valid UTF-8")
  tooLong := .error ⟨.resourceExhausted, "upstream SSE frame exceeds buffer cap"⟩
  cap := sseFrameMaxBytes

/-- The loop of `stream_response` over the reads of the body; while nothing is delivered the body is
observed. -/
def readBody : Progress → Bytes → Bytes → List Bytes → List UpstreamEvent × Except Status Unit
  | p, seen, buf, [] => ([], A.atEnd p seen buf)
  | p, seen, buf, bytes :: reads =>
    let seen := if p.seq = 0 then observeBody seen bytes else seen
    match (A.reader []).drain (buf ++ bytes) with
    | .error out => ([], out)
    | .ok (events, rest) =>
      match (A.reader []).process p events with
      | (sent, .inr out) => (sent, out)
      | (sent, .inl p) => (sent ++ (readBody p seen rest reads).1, (readBody p seen rest reads).2)

def streamResponse (reads : List Bytes) : List UpstreamEvent × Except Status Unit :=
  A.readBody A.start [] [] reads

end OpenAi

/-! ## The Anthropic adapter -/

inductive AnthropicEvent where
  | delta (text reasoning : String)
  | initialUsage (inputTokens outputTokens : ℕ)
  | cumulativeUsage (inputTokens outputTokens : ℕ)
  | stop
  | error (message : String)
  | other
  deriving DecidableEq, Repr

structure Anthropic where
  parseEvent : String → Except Status AnthropicEvent
  count : ℕ
  manifest : SignalManifest

structure Usage where
  seq : ℕ := 0
  reportedOutput : Option ℕ := none
  postOutputReported : Option ℕ := none
  deriving DecidableEq, Repr

namespace Anthropic

variable (B : Anthropic)

/-- The checks both usage records go through. -/
def reported (u : Usage) (outputTokens : ℕ) : Except Status Usage :=
  if u.reportedOutput.any (outputTokens < ·) then
    .error (dataLoss "Anthropic cumulative output_tokens decreased")
  else if outputTokens > B.count then .error (dataLoss
    "Anthropic cumulative output_tokens exceeds the requested token limit")
  else .ok { u with reportedOutput := some outputTokens }

def onStop (u : Usage) : List UpstreamEvent × Except Status Unit :=
  if u.seq = 0 then
    if u.reportedOutput.getD 0 ≠ 0 then ([], .error (dataLoss
      "Anthropic usage reports output tokens without delivered output"))
    else ([], .ok ())
  else
    match u.postOutputReported.filter (· > 0) with
    | some outputTokens => ([.accounted outputTokens], .ok ())
    | none => ([], .error (dataLoss
        "Anthropic output ended without positive post-output cumulative output_tokens"))

/-- The body of the loop over the events of one drain. -/
def onEvent (u : Usage) (event : String) : List UpstreamEvent × (Usage ⊕ Except Status Unit) :=
  match B.parseEvent event with
  | .error status => ([], .inr (.error status))
  | .ok (.delta text reasoning) =>
    if text ≠ "" ∨ reasoning ≠ "" then ([canonChunk B.manifest u.seq text reasoning],
      .inl { u with seq := u.seq + 1, postOutputReported := none })
    else ([], .inl u)
  | .ok (.initialUsage _ outputTokens) =>
    match B.reported u outputTokens with
    | .error status => ([], .inr (.error status))
    | .ok u => ([], .inl u)
  | .ok (.cumulativeUsage _ outputTokens) =>
    match B.reported u outputTokens with
    | .error status => ([], .inr (.error status))
    | .ok u => ([], .inl
        (if u.seq > 0 then { u with postOutputReported := some outputTokens } else u))
  | .ok .other => ([], .inl u)
  | .ok .stop => ((onStop u).1, .inr (onStop u).2)
  | .ok (.error message) =>
    ([], .inr (.error ⟨.unavailable, "Anthropic stream error: " ++ message⟩))

def reader : Reader Usage String UpstreamEvent (Except Status Unit) where
  decode := fromUtf8
  step := B.onEvent
  finish _ buf := .error (dataLoss (if buf ≠ [] then "incomplete Anthropic SSE frame at EOF"
    else "Anthropic SSE ended without message_stop"))
  notText := .error (dataLoss "Anthropic SSE frame is not valid UTF-8")
  tooLong := .error ⟨.resourceExhausted, "Anthropic SSE frame exceeds buffer cap"⟩
  cap := sseFrameMaxBytes

def streamUpstream (reads : List Bytes) : List UpstreamEvent × Except Status Unit :=
  B.reader.run {} [] reads

end Anthropic

/-! ## The observed prefix -/

variable {A : OpenAi} {p q : Progress} {event : String} {events : List String}
  {sent : List UpstreamEvent} {seen consumed buf body x : Bytes} {reads : List Bytes}

theorem observeBody_take :
    OpenAi.observeBody (consumed.take errorBodyMaxBytes) x = (consumed ++ x).take errorBodyMaxBytes := by
  unfold OpenAi.observeBody
  rw [List.take_append, List.length_take]
  rcases Nat.le_total errorBodyMaxBytes consumed.length with h | h
  · rw [Nat.min_eq_left h, Nat.sub_self, Nat.sub_eq_zero_of_le h]
  · rw [Nat.min_eq_right h]

theorem attend_seq {toolCall : Bool} (h : A.attend p event = .ok (q, toolCall)) : q.seq = p.seq := by
  unfold OpenAi.attend at h
  split at h
  · obtain ⟨evidence, -, h⟩ := bind_ok.mp h
    obtain ⟨observation, -, h⟩ := bind_ok.mp h
    cases h
    rfl
  · cases h
    rfl

theorem settleIdentity_seq {model : Option String} (h : A.settleIdentity p model = .ok q) :
    q.seq = p.seq := by
  unfold OpenAi.settleIdentity at h
  split at h
  · cases h
    rfl
  · split at h
    · cases h
      rfl
    · split at h
      · cases h
      · cases h
        rfl

theorem onFrame_seq {toolCall : Bool} {text reasoning : String} {usage : Option ℕ}
    {model : Option String}
    (h : A.onFrame p toolCall text reasoning usage model = .ok (sent, q)) : p.seq ≤ q.seq := by
  unfold OpenAi.onFrame at h
  obtain ⟨settled, hsettled, h⟩ := bind_ok.mp h
  have hseq : p.seq = settled.seq := (settleIdentity_seq hsettled).symm
  have hle := Nat.le_of_eq hseq
  cases usage with
  | some reported =>
    obtain ⟨-, h⟩ := refuse_ok.mp h
    obtain ⟨-, h⟩ := refuse_ok.mp h
    split at h
    · obtain ⟨-, h⟩ := refuse_ok.mp h
      cases h
      exact hle
    · cases h
      exact hle
  | none =>
    dsimp only at h
    split at h
    · cases h
      exact hle
    · obtain ⟨-, h⟩ := refuse_ok.mp h
      split at h
      · cases h
        exact hle
      · cases h
        exact Nat.le_succ_of_le hle

theorem onEvent_seq (h : A.onEvent p event = (sent, .inl q)) : p.seq ≤ q.seq := by
  unfold OpenAi.onEvent at h
  split at h
  · cases h
  · next attended toolCall hattend =>
    have hle := Nat.le_of_eq (attend_seq hattend).symm
    split at h
    · cases h
    · cases h
    · split at h
      · cases h
      · next hframe =>
        cases h
        exact Nat.le_trans hle (onFrame_seq hframe)
    · cases h
      exact hle
    · cases h
      exact hle

theorem process_seq (h : (A.reader body).process p events = (sent, .inl q)) : p.seq ≤ q.seq := by
  induction events generalizing p sent with
  | nil =>
    cases h
    exact Nat.le_refl _
  | cons event events ih =>
    rw [Reader.process_cons] at h
    cases hstep : A.onEvent p event with
    | mk es next =>
      have hstep' : (A.reader body).step p event = (es, next) := hstep
      rw [hstep'] at h
      cases next with
      | inr out => cases h
      | inl p' =>
        obtain ⟨-, hrest⟩ := Prod.mk.inj h
        exact Nat.le_trans (onEvent_seq hstep) (ih (Prod.ext rfl hrest))

theorem process_reader (body : Bytes) (p : Progress) (events : List String) :
    (A.reader []).process p events = (A.reader body).process p events := by
  induction events generalizing p with
  | nil => rfl
  | cons event events ih =>
    have hstep : (A.reader []).step = (A.reader body).step := rfl
    rw [Reader.process_cons, Reader.process_cons, hstep]
    simp only [ih]

/-- As long as nothing was delivered the observed prefix is that of the bytes read, and past that
nothing looks at it: the loop is the reader of the whole body. -/
theorem readBody_run (hbody : consumed ++ reads.flatten = body)
    (hseen : p.seq = 0 → seen = consumed.take errorBodyMaxBytes) :
    A.readBody p seen buf reads = (A.reader body).run p buf reads := by
  induction reads generalizing p seen buf consumed with
  | nil =>
    unfold OpenAi.readBody Reader.run
    rw [List.flatten_nil, List.append_nil] at hbody
    by_cases hseq : p.seq = 0
    · rw [hseen hseq, hbody]
      rfl
    · have hno : (p.seq == 0) = false := beq_eq_false_iff_ne.mpr hseq
      simp only [OpenAi.reader, OpenAi.atEnd, hno, Bool.false_and]
  | cons x reads ih =>
    unfold OpenAi.readBody Reader.run
    have hdrain : (A.reader []).drain (buf ++ x) = (A.reader body).drain (buf ++ x) := rfl
    rw [hdrain]
    cases (A.reader body).drain (buf ++ x) with
    | error out => rfl
    | ok parts =>
      obtain ⟨events, rest⟩ := parts
      dsimp only
      rw [process_reader body]
      cases hprocess : (A.reader body).process p events with
      | mk es next =>
        cases next with
        | inr out => rfl
        | inl q =>
          dsimp only
          have hsame : (consumed ++ x) ++ reads.flatten = body := by
            rw [← hbody]
            simp
          rw [ih hsame ?_]
          intro hq
          have hp : p.seq = 0 := Nat.le_zero.mp (hq ▸ process_seq hprocess)
          rw [if_pos hp, hseen hp, observeBody_take]

theorem streamResponse_run (hbody : reads.flatten = body) :
    A.streamResponse reads = (A.reader body).run A.start [] reads :=
  readBody_run (show [] ++ reads.flatten = body from hbody) fun _ => rfl

/-! ## The cut of the body -/

theorem steady_of_text {σ ε ρ : Type} {R : Reader σ String ε ρ} {s : σ} {fs : List Bytes} {r : Bytes}
    (htext : ∀ f ∈ fs, R.decode f ≠ none) (hfits : ∀ f ∈ fs, f.length ≠ R.cap) :
    R.Steady s fs r := by
  refine ⟨?_, ?_⟩
  · rintro ⟨f, hf, hnone⟩
    exact absurd hnone (htext f hf)
  · rintro pre m post rfl - hm
    exact absurd hm (hfits m (by simp))

/-- Frames of the sample calls are deltas, word for word. -/
def sampleOpenAi : OpenAi where
  parseEvent event := .ok (.frame event "" none none)
  capabilityEvent _ _ := .ok {}
  unframedProviderError _ := none
  offered _ := true
  mismatch model := model
  requirements := none
  count := 8
  manifest := { tokenizerFamily := "family", claimedModel := "model" }

def sampleAnthropic : Anthropic where
  parseEvent event := .ok (.delta event "")
  count := 8
  manifest := { tokenizerFamily := "family", claimedModel := "model" }

def sampleFrame : Bytes := [97, newline, newline]

def brokenFrame : Bytes := [255, newline, newline]

end ProviderFraming
