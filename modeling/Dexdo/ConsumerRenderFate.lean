import Dexdo.ConsumerRenderCap

/-! # What the consumer protocol decides

The two protocols classify the end of a stream alike but for one branch: a capacity refusal of the
seller is request-scoped for an OpenAI client, and goes through the failure policy for an
Anthropic one. -/
namespace ConsumerRender

open CanonStream GrantedPrefix TextForms SessionSettle

/-! ## The property -/

/-- What the deal keeps of a request. -/
structure SameFate (a b : Rendered) : Prop where
  charged : a.loop.charged = b.loop.charged
  writes : a.fate.writes = b.fate.writes
  closed : a.fate.session.closed = b.fate.session.closed
  settled : a.fate.session.settled = b.fate.session.settled
  episode : a.fate.session.recoveryEpisode = b.fate.session.recoveryEpisode

@[mk_iff]
structure Untouched (s : Session) (fate : Fate) : Prop where
  writes : fate.writes = []
  closed : fate.session.closed = s.closed
  settled : fate.session.settled = s.settled
  episode : fate.session.recoveryEpisode = s.recoveryEpisode

/-! ## What the failure policy does to a session -/

inductive Reaction where
  | veto
  | reclaim
  | dispute
  | unsupported
  | failClosed
  deriving DecidableEq, Repr

/-- The policy of a stream that fails before its first token, and after it. -/
def reaction (c : Config) (beforeToken : Bool) : Reaction :=
  if beforeToken then
    match c.failurePolicy.deadGateway with
    | .retryThenReclaim => if c.lifetime = .preserve then .veto else .reclaim
    | .nextSeller => .unsupported
    | .failClosed => .failClosed
  else if c.lifetime = .preserve then .veto
  else
    match c.failurePolicy.sellerStallsMidStream with
    | .acceptDeliveredThenReclaim => .reclaim
    | .dispute => .dispute

/-- The sessions that a reaction and the drop of the guard leave as they are. `quiet` says that no
text went out since the guard was armed. -/
def Keeps (s : Session) (answer : Answer) (quiet : Bool) : Reaction → Prop
  | .veto => s.closed = true ∧ (quiet = true → s.settled = true ∨ s.recoveryEpisode ≠ none)
  | .dispute => s.settled = true
  | .unsupported =>
    s.settled = true ∨ s.closed = true ∧ (quiet = true → s.recoveryEpisode ≠ none)
  | .failClosed =>
    s.settled = true ∨ (s.dropBackupEnabled = true → s.closed = true) ∧
      (quiet = true → s.closed = true ∧ s.recoveryEpisode ≠ none)
  | .reclaim =>
    s.settled = true ∨
      match s.recoveryEpisode with
      | none => s.recoverySubmitMayHaveLanded = false ∧ answer = .heartbeatChanged ∧
          quiet = false ∧ (s.closed = true → s.recoveryClosedSession = false)
      | some .cleanupUnopened => quiet = true → s.closed = true
      | some .reclaimOpened =>
        s.closed = true ∨ s.recoverySubmitMayHaveLanded = true ∧ quiet = false

def errorCall (beforeToken : Bool) : Call :=
  if beforeToken then .settleDeadGateway else .settleSellerStallsMidStream

/-- The section of a reaction, with the session as it is entered. -/
def Reaction.entered (s : Session) : Reaction → Session × Option Body
  | .veto => (s.vetoed, none)
  | .reclaim => (s, some (.reclaimOpened true))
  | .dispute => (s, some .policyDispute)
  | .unsupported => (s, some .policyUnsupported)
  | .failClosed => (s, some .policyFailClosed)

variable {c : Config} {w : World} {s : Session} {unchanged : Bool}

theorem dropGuard_writes {completed : Bool} {fate : Fate} :
    (dropGuard unchanged completed fate).writes = fate.writes := by
  unfold dropGuard
  split <;> rfl

theorem enter_errorCall (beforeToken : Bool) : enter c s w.delivered (errorCall beforeToken) =
    (reaction c beforeToken).entered s := by
  rcases c with ⟨⟨bail, dead, empty, stalls⟩, lifetime⟩
  cases beforeToken
  · cases stalls <;> cases lifetime <;> rfl
  · cases dead <;> cases lifetime <;> rfl

theorem untouched_policy_iff (beforeToken : Bool) :
    Untouched s (dropGuard unchanged false (settle c w s (errorCall beforeToken))) ↔
      Keeps s (w.answer .stopIfHeartbeat) unchanged (reaction c beforeToken) := by
  unfold settle
  rw [enter_errorCall]
  rcases s with ⟨settled, closed, episode, recoveryClosed, reconciliation, landed, backup, terminal⟩
  generalize reaction c beforeToken = reaction
  cases reaction with
  | veto =>
    cases settled <;> cases closed <;> cases unchanged <;> rcases episode with _ | episode <;>
      simp [Reaction.entered, Keeps, untouched_iff, dropGuard, Session.vetoed,
        Session.closeLocalApi, Session.disableDropBackup, Session.closeRecoveryEpisode,
        Session.closeForRecovery]
  | reclaim =>
    rcases episode with _ | _ | _
    · cases hanswer : w.answer .stopIfHeartbeat with
      | heartbeatChanged =>
        cases settled <;> cases landed <;> cases closed <;> cases recoveryClosed <;> cases unchanged <;>
          simp [Reaction.entered, Keeps, untouched_iff, dropGuard, begin, attemptRecovery, resume,
            Posted, Session.beginRecoveryAttempt, Session.submitMayHaveLanded,
            Session.closeForRecovery, Session.closeRecoveryEpisode,
            Session.cancelRecoveryWithoutPost, hanswer]
      | _ =>
        -- Without a changed heartbeat the STOP is posted.
        cases settled <;> cases landed <;> cases closed <;> cases unchanged <;>
          simp [Reaction.entered, Keeps, untouched_iff, dropGuard, begin, attemptRecovery,
            Posted, Session.beginRecoveryAttempt, Session.submitMayHaveLanded,
            Session.closeForRecovery, Session.closeRecoveryEpisode, hanswer]
    · cases settled <;> cases closed <;> cases unchanged <;>
        simp [Reaction.entered, Keeps, untouched_iff, dropGuard, begin, attemptRecovery,
          Session.beginRecoveryAttempt, Session.closeForRecovery, Session.closeRecoveryEpisode]
    · cases settled <;> cases landed <;> cases closed <;> cases unchanged <;>
        simp [Reaction.entered, Keeps, untouched_iff, dropGuard, begin, attemptRecovery,
          Session.beginRecoveryAttempt, Session.submitMayHaveLanded, Session.closeForRecovery,
          Session.closeRecoveryEpisode]
  | dispute =>
    cases settled with
    | true => simp [Reaction.entered, Keeps, untouched_iff, dropGuard, begin,
        Session.closeRecoveryEpisode]
    | false =>
      refine iff_of_false (fun h => ?_) Bool.false_ne_true
      have hwrites := h.writes
      rw [dropGuard_writes] at hwrites
      simp [Reaction.entered, begin, Posted] at hwrites
  | unsupported =>
    cases settled <;> cases closed <;> cases unchanged <;> rcases episode with _ | episode <;>
      simp [Reaction.entered, Keeps, untouched_iff, dropGuard, begin, Session.closeLocalApi,
        Session.closeRecoveryEpisode, Session.closeForRecovery]
  | failClosed =>
    cases settled <;> cases closed <;> cases unchanged <;> cases backup <;>
      rcases episode with _ | episode <;>
      simp [Reaction.entered, Keeps, untouched_iff, dropGuard, begin, Session.closeLocalApi,
        Session.closeRecoveryEpisode, Session.closeForRecovery]

/-! ## The branch the protocols do not share -/

variable {r : Request} {streamed : Bool} {shown : List CanonChunk} {status : Status}

def Request.quiet (r : Request) (streamed : Bool) (shown : List CanonChunk) : Bool :=
  !r.world.othersOutput && !(streamed && shown.any fun chunk => !chunk.text.isEmpty)

/-- The seller refuses for capacity after `shown`, inside the grant. -/
def Request.CapacityRefusal (r : Request) (shown : List CanonChunk) (status : Status) : Prop :=
  ∃ f t rest, r.Reaches shown f (t :: rest) ∧ f.received < r.grant.tokens ∧
    t.sessionClosed = false ∧ t.item = some (.error status) ∧ status.code = .resourceExhausted

/-- The Anthropic handler leaves the refused session as the OpenAI handler does: the refusal is
one of the request also by its message, or the policy keeps the session. -/
def Request.Spared (r : Request) (streamed : Bool) (shown : List CanonChunk) (status : Status) :
    Prop :=
  shown = [] ∧ isRequestScopedUpstreamRejection status.message = true ∨
    Keeps r.session (r.world.answer .stopIfHeartbeat) (r.quiet streamed shown)
      (reaction r.config (decide (shown = [])))

def refusal (l : Loop) : Option CanonStreamError :=
  if l.driver.bailed then none else l.streamError.filter (·.isCapacity)

theorem fate_eq (h : refusal (r.loop streamed) = none) :
    (render .openai streamed r).fate = (render .anthropic streamed r).fate := by
  have agree (hb : (r.loop streamed).driver.bailed = false) (e : CanonStreamError)
      (he : (r.loop streamed).streamError = some e) : e.isCapacity = false := by
    simpa [refusal, hb, he] using h
  cases streamed with
  | true =>
    simp only [render, Openai.sseResponse, Openai.sseSettle, Anthropic.sseResponse,
      Anthropic.sseSettle]
    cases hb : (r.loop true).driver.bailed with
    | true => rfl
    | false =>
      cases he : (r.loop true).streamError with
      | none => rfl
      | some e => simp [agree hb e he]
  | false =>
    simp only [render, Openai.aggregateResponse, Openai.completion, Anthropic.aggregateResponse,
      Anthropic.message]
    cases hb : (r.loop false).driver.bailed with
    | true => rfl
    | false =>
      cases he : (r.loop false).streamError with
      | none =>
        simp only [Bool.false_eq_true, if_false]
        split <;> rfl
      | some e => simp [agree hb e he]

def Request.policyFate (r : Request) (streamed : Bool) (e : CanonStreamError) : Fate :=
  let (fate, action) := r.handlePolicy (r.loop streamed) e
  r.leave streamed fate (action = .requestScoped)

theorem fates_refused {e : CanonStreamError} (h : refusal (r.loop streamed) = some e) :
    (render .openai streamed r).fate = ⟨r.session, []⟩ ∧
      (render .anthropic streamed r).fate = r.policyFate streamed e := by
  have hloop : (r.loop streamed).driver.bailed = false ∧
      (r.loop streamed).streamError = some e ∧ e.isCapacity = true := by
    simpa [refusal, Option.filter_eq_some_iff] using h
  obtain ⟨hb, he, hcapacity⟩ := hloop
  cases streamed with
  | true =>
    simp [render, Openai.sseResponse, Openai.sseSettle, Anthropic.sseResponse,
      Anthropic.sseSettle, hb, he, hcapacity, Request.leave, dropGuard, Request.policyFate]
  | false =>
    simp [render, Openai.aggregateResponse, Anthropic.aggregateResponse, hb, he, hcapacity,
      Request.leave, dropGuard, Request.policyFate]

theorem exposed_any (streamed : Bool) (shown : List CanonChunk) :
    (streamed && (shown.flatMap (Loop.eventsOf streamed)).any Event.isExposed) =
      (streamed && shown.any fun chunk => !chunk.text.isEmpty) := by
  cases streamed with
  | false => rfl
  | true =>
    induction shown with
    | nil => rfl
    | cons chunk shown ih =>
      simp only [Bool.true_and] at ih ⊢
      rw [List.flatMap_cons, List.any_append, ih, List.any_cons]
      cases hempty : chunk.text.isEmpty <;>
        simp [Loop.eventsOf, Loop.expose, Event.isExposed, hempty]

/-- The policy at a refusal keeps what the protocols compare where `Spared` says so. -/
theorem policyFate_untouched_iff (hreach : r.CapacityRefusal shown status) :
    Untouched r.session (r.policyFate streamed (.upstream status)) ↔
      r.Spared streamed shown status := by
  obtain ⟨f, t, rest, hreach, hlt, hopen, hitem, _⟩ := hreach
  have hstop : Stops r.grant.tokens f (t :: rest) (.failed status) := .failed hlt hopen hitem
  have hreceived : (r.loop streamed).driver.received = 0 ↔ shown = [] := by
    rw [Request.loop_eq hreach hstop]
    exact (Eq.congr_left hreach.received).trans (total_eq_zero accountedTokens_pos)
  have hquiet : heartbeatUnchanged r.world streamed (r.loop streamed) = r.quiet streamed shown := by
    unfold heartbeatUnchanged
    rw [loop_events hreach hstop, exposed_any]
    rfl
  unfold Request.policyFate Request.handlePolicy handleStreamErrorPolicy streamErrorPolicyAction
    Request.Spared CanonStreamError.policyMessage
  by_cases hshown : shown = []
  · have hzero := hreceived.mpr hshown
    cases hscoped : isRequestScopedUpstreamRejection status.message with
    | true =>
      simp [hzero, hshown, Request.leave, dropGuard, untouched_iff]
    | false =>
      simp only [hzero, Bool.false_eq_true, and_false, if_false, if_true, reduceCtorEq,
        decide_false, false_or, Request.leave, hquiet]
      rw [decide_eq_true hshown]
      exact untouched_policy_iff true
  · have hsome : ¬(r.loop streamed).driver.received = 0 := fun h => hshown (hreceived.mp h)
    simp only [hsome, hshown, false_and, if_false, reduceCtorEq, decide_false, false_or,
      Request.leave, hquiet]
    exact untouched_policy_iff false

theorem refusal_capacity (h : r.CapacityRefusal shown status) :
    refusal (r.loop streamed) = some (.upstream status) := by
  obtain ⟨f, t, rest, hreach, hlt, hopen, hitem, hcode⟩ := h
  rw [Request.loop_eq hreach (.failed hlt hopen hitem)]
  simp [refusal, Loop.halt, Loop.after, CanonStreamError.isCapacity, hcode]

theorem refusal_some {e : CanonStreamError} (h : refusal (r.loop streamed) = some e) :
    ∃ shown status, e = .upstream status ∧ r.CapacityRefusal shown status := by
  obtain ⟨shown, f, rest, stop, hreach, hstop⟩ := r.exists_reaches
  rw [Request.loop_eq hreach hstop] at h
  cases hstop with
  | @failed t ts status hlt hopen hitem =>
    have hcode : status.code = .resourceExhausted ∧ CanonStreamError.upstream status = e := by
      simpa [refusal, Loop.halt, Loop.after, CanonStreamError.isCapacity, Option.filter] using h
    exact ⟨shown, status, hcode.2.symm, f, t, ts, hreach, hlt, hopen, hitem, hcode.1⟩
  | _ => cases h

/-- Both protocols leave the deal alike, unless the seller refuses for capacity inside the grant
and neither the message of the refusal nor the failure policy spares the session. -/
theorem protocols_agree_iff (r : Request) (streamed : Bool) :
    SameFate (render .openai streamed r) (render .anthropic streamed r) ↔
      ∀ shown status, r.CapacityRefusal shown status → r.Spared streamed shown status := by
  have hcharged : (render .openai streamed r).loop.charged =
      (render .anthropic streamed r).loop.charged := by
    rw [render_loop, render_loop]
  constructor
  · intro hsame shown status hcapacity
    have hrefusal : refusal (r.loop streamed) = some (.upstream status) :=
      refusal_capacity hcapacity
    obtain ⟨hopenai, hanthropic⟩ := fates_refused hrefusal
    have hwrites := hsame.writes
    have hclosed := hsame.closed
    have hsettled := hsame.settled
    have hepisode := hsame.episode
    rw [hopenai, hanthropic] at hwrites hclosed hsettled hepisode
    exact (policyFate_untouched_iff hcapacity).mp
      ⟨hwrites.symm, hclosed.symm, hsettled.symm, hepisode.symm⟩
  · intro hspared
    cases hr : refusal (r.loop streamed) with
    | none =>
      have heq := fate_eq hr
      exact ⟨hcharged, by rw [heq], by rw [heq], by rw [heq], by rw [heq]⟩
    | some e =>
      obtain ⟨shown, status, rfl, hcapacity⟩ := refusal_some hr
      obtain ⟨hopenai, hanthropic⟩ := fates_refused hr
      have huntouched := (policyFate_untouched_iff hcapacity).mpr (hspared shown status hcapacity)
      constructor
      · exact hcharged
      · rw [hopenai, hanthropic, huntouched.writes]
      · rw [hopenai, hanthropic, huntouched.closed]
      · rw [hopenai, hanthropic, huntouched.settled]
      · rw [hopenai, hanthropic, huntouched.episode]

/-- A seller that is out of capacity before its first token: the Anthropic handler stops the deal
that the OpenAI handler leaves alone. -/
theorem anthropic_stops_refused_deal : ¬SameFate
    (render .openai true (freshRequest ⟨1, by decide, by decide⟩ [⟨false,
      some (.error ⟨.resourceExhausted, "no capacity".toList⟩), ⟨"0:00", false, 1000, 0⟩⟩]))
    (render .anthropic true (freshRequest ⟨1, by decide, by decide⟩ [⟨false,
      some (.error ⟨.resourceExhausted, "no capacity".toList⟩), ⟨"0:00", false, 1000, 0⟩⟩])) := by
  intro h
  have hwrites := h.writes
  revert hwrites
  decide

end ConsumerRender
