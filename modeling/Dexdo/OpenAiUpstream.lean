import Mathlib.Data.List.Basic

/-! # The provider stream

`crates/dexdo/src/seller/upstream/openai.rs`: one OpenAI-compatible response, read frame by frame.
Reading JSON and decoding the chunk record is the business of `serde_json`, a parameter here. -/
namespace OpenAiUpstream

/-! ## JSON -/

/-- `serde_json::Value`. A number is a `u64` or one that `as_u64` refuses. -/
inductive Json where
  | null
  | bool (b : Bool)
  | uint (n : UInt64)
  | number
  | str (s : String)
  | arr (l : List Json)
  | obj (fields : List (String × Json))
  deriving Inhabited

namespace Json

def get (key : String) : Json → Option Json
  | obj fields => fields.lookup key
  | _ => none

def isNull : Json → Bool
  | null => true
  | _ => false

def asObject : Json → Option (List (String × Json))
  | obj fields => some fields
  | _ => none

def asU64 : Json → Option ℕ
  | uint n => some n.toNat
  | _ => none

def asStr : Json → Option String
  | str s => some s
  | _ => none

end Json

inductive Code where
  | dataLoss | failedPrecondition
  deriving DecidableEq, Repr

structure Status where
  code : Code
  message : String
  deriving DecidableEq, Repr

def dataLoss (message : String) : Status := ⟨.dataLoss, message⟩

/-! ## Frames -/

structure ReasoningDetailWire where
  text : Option String := none
  summary : Option String := none

structure Delta where
  content : Option String := none
  reasoning : Option String := none
  reasoningContent : Option String := none
  reasoningDetails : Option (List ReasoningDetailWire) := none

/-- What the adapter takes from `serde_json`, and `unframed_provider_error` on the body so far,
on which only the words of a refusal depend. `chunk` is `from_value::<StreamChunk>`: the deltas of
the choices. -/
structure Serde where
  fromStr : String → Except String Json
  chunk : Json → Option (List Delta)
  unframed : List String → Bool

inductive ParsedEvent where
  | done
  | frame (text reasoning : String) (usage : Option ℕ) (model : Option String)
  | providerError (detail : String)
  | other
  deriving DecidableEq, Repr

def isWhitespace (c : Char) : Bool :=
  let n := c.toNat
  (9 ≤ n && n ≤ 13) || n == 32 || n == 0x85 || n == 0xA0 || n == 0x1680 ||
    (0x2000 ≤ n && n ≤ 0x200A) || n == 0x2028 || n == 0x2029 || n == 0x202F || n == 0x205F ||
    n == 0x3000

def trimStart (s : List Char) : List Char := s.dropWhile isWhitespace

def trim (s : List Char) : List Char := (trimStart (trimStart s).reverse).reverse

/-- `str::lines`, the line read so far in reverse. -/
def linesFrom : List Char → List Char → List (List Char)
  | line, [] => if line.isEmpty then [] else [line.reverse]
  | line, c :: s =>
    if c = '\n' then
      (match line with
        | '\r' :: line => line.reverse
        | line => line.reverse) :: linesFrom [] s
    else linesFrom (c :: line) s

def lines (event : String) : List (List Char) := linesFrom [] event.toList

/-- The `data:` lines of an event joined, and whether it is named an error. -/
def sseFields (event : String) : Bool × String :=
  let ls := lines event
  let named := ls.any fun line =>
    match "event:".toList.isPrefixOf? line with
    | some rest => trim rest == "error".toList
    | none => false
  let data := ls.flatMap fun line =>
    match "data:".toList.isPrefixOf? line with
    | some rest => trimStart rest
    | none => []
  (named, String.ofList data)

def nativeOutputTotal : Option Json → Except Status (Option ℕ)
  | none => .ok none
  | some container =>
    if container.isNull then .ok none
    else
      match container.asObject with
      | none => .error (dataLoss "OpenAI-compatible usage is not an object")
      | some object =>
        match object.lookup "completion_tokens" with
        | none => .ok none
        | some .null => .ok none
        | some value =>
          match value.asU64 with
          | some n => .ok (some n)
          | none => .error (dataLoss
              "OpenAI-compatible usage.completion_tokens is not a token count")

def frameNativeUsage (value : Json) : Except Status (Option ℕ) := do
  let standard ← nativeOutputTotal (value.get "usage")
  let groq ← nativeOutputTotal ((value.get "x_groq").bind (Json.get "usage"))
  match standard, groq with
  | some standard, some groq =>
    if standard ≠ groq then
      throw (dataLoss "OpenAI-compatible native usage totals disagree")
    else return some standard
  | some total, none => return some total
  | none, some total => return some total
  | none, none => return none

def statedError (value : Json) : Option Json := (value.get "error").filter fun e => !e.isNull

def jsonErrorDetail (value : Json) : Option String :=
  let error := (statedError value).getD value
  match error.asStr with
  | some detail => some detail
  | none => ["message", "detail", "code", "type"].findSome? fun field =>
      (error.get field).bind Json.asStr

def frameServedModel (value : Json) : Option String := do
  let reported := trim (← (← value.get "model").asStr).toList
  if reported.isEmpty then none else some (String.ofList reported)

def collectReasoning (d : Delta) : String :=
  let blank (s : String) : Bool := (trim s.toList).isEmpty
  let direct := [d.reasoning, d.reasoningContent].filterMap id
  let details := (d.reasoningDetails.getD []).flatMap fun w => [w.text, w.summary].filterMap id
  "\n".intercalate ((direct ++ details).filter fun s => !blank s)

def parseEvent (sse : Serde) (event : String) : Except Status ParsedEvent := do
  let (named, data) := sseFields event
  if data = "" then return .other
  if data = "[DONE]" then return .done
  let value ← match sse.fromStr data with
    | .ok value => pure value
    | .error e => throw (dataLoss ("malformed OpenAI-compatible SSE JSON: " ++ e))
  -- the money field is read before anything else the frame may be
  let usage ← frameNativeUsage value
  let model := frameServedModel value
  if usage.isNone && (named || (statedError value).isSome) then
    return .providerError ((jsonErrorDetail value).getD "")
  let bare : ParsedEvent := match usage with
    | some usage => .frame "" "" (some usage) model
    | none => .other
  match sse.chunk value with
  | some (delta :: _) => return .frame (delta.content.getD "") (collectReasoning delta) usage model
  | some [] => return bare
  | none => return bare

/-! ## The response -/

structure CanonChunk where
  text : String
  reasoning : String
  seq : ℕ
  deriving DecidableEq, Repr

inductive UpstreamEvent where
  | chunk (chunk : CanonChunk) (accountedTokens : ℕ)
  | accounted (tokens : ℕ)
  deriving DecidableEq, Repr

structure Progress where
  seq : ℕ := 0
  nativeUsage : Option ℕ := none
  modelIdentitySettled : Bool := false
  providerError : Option String := none
  sent : List CanonChunk := []

/-- The model that answers: `offered` says which spellings may name it, `mismatch` is the text that
names one that may not. -/
structure Identity where
  offered : String → Bool
  mismatch : String → String

/-- The first model a stream names settles its identity, and refuses the stream while nothing has
been delivered. -/
def settleIdentity (id : Identity) (model : Option String) (p : Progress) :
    Except Status Progress :=
  if p.modelIdentitySettled then .ok p
  else
    match model with
    | none => .ok p
    | some reported =>
      if !id.offered reported && p.seq == 0 then
        .error ⟨.failedPrecondition, id.mismatch reported⟩
      else .ok { p with modelIdentitySettled := true }

/-- One frame with a delta or a total. -/
def onFrame (id : Identity) (count : ℕ) (text reasoning : String) (usage : Option ℕ)
    (model : Option String) (p : Progress) : Except Status Progress := do
  let p ← settleIdentity id model p
  let hasOutput := text ≠ "" ∨ reasoning ≠ ""
  match usage with
  | some reported =>
    if hasOutput then
      throw (dataLoss
        "OpenAI-compatible usage is attached to an output delta, not a terminal record")
    if reported > count then
      throw (dataLoss "OpenAI-compatible usage exceeds the requested token limit")
    match p.nativeUsage with
    | some recorded =>
      if recorded ≠ reported then
        throw (dataLoss
          "OpenAI-compatible stream reported contradictory terminal usage totals")
      else return p
    | none => return { p with nativeUsage := some reported }
  | none =>
    if ¬ hasOutput then return p
    if p.nativeUsage.isSome then
      throw (dataLoss "OpenAI-compatible output continued after the terminal usage record")
    return { p with seq := p.seq + 1, sent := p.sent ++ [⟨text, reasoning, p.seq⟩] }

inductive Ending where
  | done
  | ended
  | failed (status : Status)
  deriving DecidableEq, Repr

/-- The frames up to `[DONE]`, the end of the body or a refusal. -/
def readFrames (sse : Serde) (id : Identity) (count : ℕ) :
    List String → Progress → Progress × Ending
  | [], p => (p, .ended)
  | event :: events, p =>
    match parseEvent sse event with
    | .error status => (p, .failed status)
    | .ok .done => (p, .done)
    | .ok (.frame text reasoning usage model) =>
      match onFrame id count text reasoning usage model p with
      | .error status => (p, .failed status)
      | .ok p => readFrames sse id count events p
    | .ok (.providerError detail) =>
      readFrames sse id count events { p with providerError := p.providerError <|> some detail }
    | .ok .other => readFrames sse id count events p

/-- `stream_response` on complete frames and without startup requirements: what it sends, and how
it returns. -/
def streamResponse (sse : Serde) (id : Identity) (count : ℕ) (events : List String) :
    List UpstreamEvent × Except Status Unit :=
  let (p, ending) := readFrames sse id count events {}
  let chunks := p.sent.map (UpstreamEvent.chunk · 0)
  match ending with
  | .failed status => (chunks, .error status)
  | .ended =>
    let answered := p.seq == 0 && p.providerError.isNone && sse.unframed events
    (chunks, .error (dataLoss (if answered then
      "OpenAI-compatible response was not a stream but a provider error object under HTTP 200; the provider answered, so it was not asked again"
      else "OpenAI-compatible SSE ended without [DONE]")))
  | .done =>
    if p.seq = 0 then
      if p.nativeUsage.getD 0 ≠ 0 then
        (chunks, .error (dataLoss
          "OpenAI-compatible usage reports output tokens without delivered output"))
      else (chunks, .ok ())
    else
      match p.nativeUsage.filter (· > 0) with
      | some outputTokens => (chunks ++ [.accounted outputTokens], .ok ())
      | none => (chunks, .error (dataLoss
          "OpenAI-compatible output ended without positive terminal usage.completion_tokens"))

end OpenAiUpstream
