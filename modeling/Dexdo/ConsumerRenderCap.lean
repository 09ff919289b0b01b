import Dexdo.CanonStreamRuns
import Dexdo.ConsumerRender

/-! # The grant as a hard cap

Each renderer exposes the longest prefix of the verified chunks that its grant pays for. -/
namespace ConsumerRender

open CanonStream GrantedPrefix TextForms

/-! ## What a loop leaves -/

theorem tokens_expose (streamed : Bool) (text : Text) :
    ((Loop.expose streamed text).map Event.tokens).sum = 0 := by
  unfold Loop.expose
  split <;> rfl

theorem text_expose (streamed : Bool) (text : Text) :
    (Loop.expose streamed text).flatMap Event.text = text := by
  unfold Loop.expose
  split
  · rename_i h
    simp only [Bool.and_eq_true, List.isEmpty_iff] at h
    rw [h.2]
    rfl
  · simp [Event.text]

theorem tokens_events (streamed : Bool) (shown : List CanonChunk) :
    ((shown.flatMap (Loop.eventsOf streamed)).map Event.tokens).sum =
      total accountedTokens shown := by
  induction shown with
  | nil => rfl
  | cons chunk shown ih =>
    rw [List.flatMap_cons, List.map_append, List.sum_append, ih, total_cons, Loop.eventsOf,
      List.map_cons, List.sum_cons, tokens_expose]
    rfl

theorem text_events (streamed : Bool) (shown : List CanonChunk) :
    (shown.flatMap (Loop.eventsOf streamed)).flatMap Event.text =
      shown.flatMap CanonChunk.text := by
  induction shown with
  | nil => rfl
  | cons chunk shown ih =>
    rw [List.flatMap_cons, List.flatMap_append, ih, Loop.eventsOf, List.flatMap_cons, text_expose]
    rfl

/-- At any moment the charges cover the text that is out. -/
theorem events_paid (streamed : Bool) : ∀ (shown : List CanonChunk) {events : List Event},
    events <+: shown.flatMap (Loop.eventsOf streamed) → ∃ paid, paid <+: shown ∧
      events.flatMap Event.text = paid.flatMap CanonChunk.text ∧
      total accountedTokens paid ≤ (events.map Event.tokens).sum
  | [], events, h => by
    have hnil : events = [] := List.prefix_nil.mp h
    subst hnil
    exact ⟨[], List.prefix_rfl, rfl, Nat.le_refl 0⟩
  | chunk :: shown, [], _ => ⟨[], List.nil_prefix, rfl, Nat.le_refl 0⟩
  | chunk :: shown, first :: events, h => by
    rw [List.flatMap_cons, Loop.eventsOf, List.cons_append, List.cons_prefix_cons] at h
    obtain ⟨rfl, h⟩ := h
    have through {more : List Event} (hmore : more <+: shown.flatMap (Loop.eventsOf streamed))
        (hevents : events = Loop.expose streamed chunk.text ++ more) :
        ∃ paid, paid <+: chunk :: shown ∧
          (Event.charged (accountedTokens chunk) :: events).flatMap Event.text =
            paid.flatMap CanonChunk.text ∧
          total accountedTokens paid ≤
            ((Event.charged (accountedTokens chunk) :: events).map Event.tokens).sum := by
      obtain ⟨paid, hpaid, htext, htotal⟩ := events_paid streamed shown hmore
      refine ⟨chunk :: paid, (List.prefix_cons_inj chunk).mpr hpaid, ?_, ?_⟩
      · rw [hevents, List.flatMap_cons, List.flatMap_append, text_expose, htext]
        rfl
      · rw [hevents, List.map_cons, List.sum_cons, List.map_append, List.sum_append, tokens_expose,
          total_cons, Nat.zero_add]
        exact Nat.add_le_add_left htotal _
    cases hexpose : Loop.expose streamed chunk.text with
    | nil =>
      rw [hexpose, List.nil_append] at h
      exact through h (by rw [hexpose, List.nil_append])
    | cons exposed none =>
      cases events with
      | nil => exact ⟨[], List.nil_prefix, rfl, Nat.zero_le _⟩
      | cons second events =>
        have hone : none = [] := by
          unfold Loop.expose at hexpose
          split at hexpose
          · cases hexpose
          · cases hexpose
            rfl
        subst hone
        rw [hexpose, List.cons_append, List.cons_prefix_cons] at h
        exact through h.2 (by rw [hexpose, h.1]; rfl)

/-! ## The property -/

def Protocol.cut : Protocol → FinishReason
  | openai => .length
  | anthropic => .maxTokens

def Protocol.finished : Protocol → FinishReason
  | openai => .stop
  | anthropic => .endTurn

namespace Request

variable (r : Request)

def front : Front := .start r.model r.reservation

def verified : List CanonChunk := CanonStream.verified r.front.verifier r.turns

def endsByItself : Bool := CanonStream.endsByItself r.front.verifier r.turns

def Reaches (shown : List CanonChunk) (f : Front) (rest : List Turn) : Prop :=
  ∃ taken, r.turns = taken ++ rest ∧ Served r.grant.tokens r.front taken shown f

/-- The session closes after `shown`, or the charge of the next chunk is refused. -/
def CutShort (shown : List CanonChunk) : Prop :=
  ∃ f t rest, r.Reaches shown f (t :: rest) ∧
    (t.sessionClosed = true ∨ ∃ message, f.Refuses r.grant.tokens t message)

/-- The grant ends the render after `shown`: the next chunk does not fit, or the grant is consumed
exactly while the upstream has not ended. -/
def GrantEnds (shown : List CanonChunk) : Prop :=
  (∃ f t rest chunk v, r.Reaches shown f (t :: rest) ∧ f.Offers t chunk v ∧
    r.grant.tokens < total accountedTokens shown + accountedTokens chunk) ∨
  total accountedTokens shown = r.grant.tokens ∧ ¬(shown = r.verified ∧ r.endsByItself = true)

end Request

/-- The grant caps a render, and a cut answer says so. -/
structure HardCap (p : Protocol) (r : Request) (out : Rendered) (shown : List CanonChunk) :
    Prop where
  fits : shown <+: fitting accountedTokens r.grant.tokens r.verified
  longest : shown = fitting accountedTokens r.grant.tokens r.verified ∨ r.CutShort shown
  text : out.loop.text = shown.flatMap CanonChunk.text
  paid : ∀ events, events <+: out.loop.events → ∃ paid, paid <+: shown ∧
    events.flatMap Event.text = paid.flatMap CanonChunk.text ∧
    total accountedTokens paid ≤ (events.map Event.tokens).sum
  charged : out.loop.charged = total accountedTokens shown
  rendered : out.report.renderedTokens = total accountedTokens shown
  cut : r.GrantEnds shown →
    out.report.truncatedByGrant = true ∧ out.response.terminal = some p.cut
  finished : out.response.terminal = some p.finished → shown = r.verified ∧ r.endsByItself = true

def Request.Refused (r : Request) : Prop :=
  ∃ shown f t rest message, r.Reaches shown f (t :: rest) ∧ f.received < r.grant.tokens ∧
    f.Refuses r.grant.tokens t message

def Request.MetEarly (r : Request) : Prop :=
  ∃ shown f rest, r.Reaches shown f rest ∧ f.received = r.grant.tokens ∧ ¬HasEnded rest

/-! ## What a renderer reports -/

section render

variable {r : Request} {p : Protocol} {streamed : Bool}

theorem render_loop : (render p streamed r).loop = r.loop streamed := by
  cases p <;> cases streamed
  · simp only [render, Openai.aggregateResponse, Openai.completion]
    repeat' split
    all_goals rfl
  · rfl
  · simp only [render, Anthropic.aggregateResponse, Anthropic.message]
    repeat' split
    all_goals rfl
  · rfl

theorem render_report :
    ∃ finishReason, (render p streamed r).report = r.report p streamed finishReason := by
  cases p <;> cases streamed
  · simp only [render, Openai.aggregateResponse, Openai.completion]
    repeat' split
    all_goals exact ⟨_, rfl⟩
  · exact ⟨_, rfl⟩
  · simp only [render, Anthropic.aggregateResponse, Anthropic.message]
    repeat' split
    all_goals exact ⟨_, rfl⟩
  · exact ⟨_, rfl⟩

theorem render_renderedTokens :
    (render p streamed r).report.renderedTokens = (r.loop streamed).driver.received := by
  obtain ⟨finishReason, h⟩ :
    ∃ reason, (render p streamed r).report = r.report p streamed reason := render_report
  rw [h]
  rfl

theorem render_truncatedByGrant :
    (render p streamed r).report.truncatedByGrant = (r.loop streamed).capped := by
  obtain ⟨finishReason, h⟩ :
    ∃ reason, (render p streamed r).report = r.report p streamed reason := render_report
  rw [h]
  rfl

theorem render_cut (hb : (r.loop streamed).driver.bailed = false)
    (he : (r.loop streamed).streamError = none) (hc : (r.loop streamed).capped = true) :
    (render p streamed r).response.terminal = some p.cut := by
  cases p <;> cases streamed
  · simp [render, Openai.aggregateResponse, Openai.completion, hb, he, hc, Response.terminal,
      Protocol.cut]
  · simp [render, Openai.sseResponse, Openai.sseFinishReason, hb, hc, Response.terminal,
      Protocol.cut]
  · simp [render, Anthropic.aggregateResponse, Anthropic.message, hb, he, hc, Response.terminal,
      Protocol.cut]
  · simp [render, Anthropic.sseResponse, Anthropic.sseStopReason, hb, hc, Response.terminal,
      Protocol.cut]

theorem render_finished (h : (render p streamed r).response.terminal = some p.finished) :
    (r.loop streamed).driver.bailed = false ∧ (r.loop streamed).streamError = none ∧
      (r.loop streamed).capped = false := by
  cases p <;> cases streamed
  · simp only [render, Openai.aggregateResponse, Openai.completion] at h
    grind [Response.terminal, Protocol.finished]
  · simp only [render, Openai.sseResponse, Openai.sseFinishReason] at h
    grind [Response.terminal, Protocol.finished, Option.isSome_iff_ne_none]
  · simp only [render, Anthropic.aggregateResponse, Anthropic.message] at h
    grind [Response.terminal, Protocol.finished]
  · simp only [render, Anthropic.sseResponse, Anthropic.sseStopReason] at h
    grind [Response.terminal, Protocol.finished, Option.isSome_iff_ne_none]

end render

/-! ## Where the stream stops -/

variable {r : Request} {p : Protocol} {streamed : Bool} {shown : List CanonChunk} {f : Front}
  {taken rest : List Turn} {t : Turn} {chunk : CanonChunk} {v : StreamVerifier} {stop : Stop}

namespace Request

theorem Reaches.received (h : r.Reaches shown f rest) :
    f.received = total accountedTokens shown := by
  obtain ⟨taken, _, hs⟩ := h
  rw [hs.received]
  exact Nat.zero_add _

theorem Reaches.le (h : r.Reaches shown f rest) :
    total accountedTokens shown ≤ r.grant.tokens := by
  obtain ⟨taken, _, hs⟩ := h
  rw [← Reaches.received ⟨taken, ‹_›, hs⟩]
  exact hs.le (Nat.zero_le _)

theorem Reaches.verified_eq (h : r.Reaches shown f rest) :
    r.verified = shown ++ CanonStream.verified f.verifier rest := by
  obtain ⟨taken, hturns, hs⟩ := h
  unfold Request.verified
  rw [hturns]
  exact hs.verified_append

theorem Reaches.endsByItself_eq (h : r.Reaches shown f rest) :
    r.endsByItself = CanonStream.endsByItself f.verifier rest := by
  obtain ⟨taken, hturns, hs⟩ := h
  unfold Request.endsByItself
  rw [hturns]
  exact hs.endsByItself_append

theorem Reaches.unique {f' : Front} {rest' : List Turn} (h : r.Reaches shown f rest)
    (h' : r.Reaches shown f' rest') : rest = rest' := by
  obtain ⟨taken, hturns, hs⟩ := h
  obtain ⟨taken', hturns', hs'⟩ := h'
  have hlength : taken.length = taken'.length := hs.length.trans hs'.length.symm
  exact (List.append_inj (hturns.symm.trans hturns') hlength).2

theorem loop_eq (h : r.Reaches shown f rest) (hstop : Stops r.grant.tokens f rest stop) :
    r.loop streamed = ((Loop.start r.model r.grant.tokens r.reservation).after streamed
      r.grant.tokens f shown).halt stop := by
  obtain ⟨taken, hturns, hs⟩ := h
  unfold Request.loop
  rw [hturns]
  exact Loop.run_served r.grant.fits hs r.grant.pos hstop ⟨rfl, rfl⟩

theorem exists_reaches (r : Request) :
    ∃ shown f rest stop, r.Reaches shown f rest ∧ Stops r.grant.tokens f rest stop := by
  obtain ⟨taken, shown, f, rest, stop, hturns, hs, hstop⟩ :=
    Loop.exists_served (f := r.front) r.turns r.grant.pos
  exact ⟨shown, f, rest, stop, ⟨taken, hturns, hs⟩, hstop⟩

end Request

theorem halt_events (l : Loop) (stop : Stop) : (l.halt stop).events = l.events := by
  cases stop <;> rfl

theorem loop_events (h : r.Reaches shown f rest) (hstop : Stops r.grant.tokens f rest stop) :
    (r.loop streamed).events = shown.flatMap (Loop.eventsOf streamed) := by
  rw [Request.loop_eq h hstop, halt_events]
  exact List.nil_append _

namespace Request

theorem GrantEnds.exact (hreach : r.Reaches shown f rest)
    (hnone : CanonStream.verified f.verifier rest = []) (h : r.GrantEnds shown) :
    total accountedTokens shown = r.grant.tokens ∧
      ¬(shown = r.verified ∧ r.endsByItself = true) := by
  rcases h with ⟨f', t, rest', chunk, v, hreach', ho, _⟩ | h
  · exfalso
    have heq := hreach.verified_eq
    rw [hreach'.verified_eq, hnone, ho.verified_cons] at heq
    exact absurd (List.append_cancel_left heq) (List.cons_ne_nil _ _)
  · exact h

theorem Reaches.fitting_nil (hreach : r.Reaches shown f rest)
    (hnone : CanonStream.verified f.verifier rest = []) :
    shown = fitting accountedTokens r.grant.tokens r.verified := by
  rw [hreach.verified_eq, hnone, fitting_append hreach.le]
  exact (List.append_nil shown).symm

theorem Reaches.whole (hreach : r.Reaches shown f rest) (hended : HasEnded rest) :
    shown = r.verified ∧ r.endsByItself = true := by
  rw [hreach.verified_eq, hreach.endsByItself_eq, hended.verified]
  exact ⟨(List.append_nil shown).symm, hended.endsByItself⟩

end Request

theorem offersNothing (hitem : ∀ chunk, t.item ≠ some (.ok chunk)) :
    CanonStream.verified v (t :: rest) = [] := by
  unfold CanonStream.verified
  split
  · exact absurd ‹_› (hitem _)
  · rfl

/-- The part of the property that no reason to stop but a refusal touches. -/
theorem hardCap_of (hreach : r.Reaches shown f rest) (hstop : Stops r.grant.tokens f rest stop)
    (hreceived : (r.loop streamed).driver.received = f.received)
    (hlongest : shown = fitting accountedTokens r.grant.tokens r.verified ∨ r.CutShort shown)
    (hcut : r.GrantEnds shown → (r.loop streamed).driver.bailed = false ∧
      (r.loop streamed).streamError = none ∧ (r.loop streamed).capped = true)
    (hfinished : (r.loop streamed).driver.bailed = false →
      (r.loop streamed).streamError = none → (r.loop streamed).capped = false →
      shown = r.verified ∧ r.endsByItself = true) :
    HardCap p r (render p streamed r) shown where
  fits := fitting_longest ⟨_, hreach.verified_eq.symm⟩ hreach.le
  longest := hlongest
  text := by
    rw [render_loop, Loop.text, loop_events hreach hstop, text_events]
  paid := by
    intro events hevents
    rw [render_loop, loop_events hreach hstop] at hevents
    exact events_paid streamed shown hevents
  charged := by
    rw [render_loop, Loop.charged, loop_events hreach hstop, tokens_events]
  rendered := by
    rw [render_renderedTokens, hreceived, hreach.received]
  cut := by
    intro h
    obtain ⟨hb, he, hc⟩ := hcut h
    exact ⟨render_truncatedByGrant.trans hc, render_cut hb he hc⟩
  finished := by
    intro h
    obtain ⟨hb, he, hc⟩ := render_finished h
    exact hfinished hb he hc

theorem hardCap_stops (hreach : r.Reaches shown f rest)
    (hstop : Stops r.grant.tokens f rest stop) (hrefused : ¬r.Refused) (hmet : ¬r.MetEarly) :
    HardCap p r (render p streamed r) shown := by
  have hloop : r.loop streamed = _ := Request.loop_eq hreach hstop
  have htotal := hreach.received
  cases hstop with
  | met heq =>
    have hended : HasEnded rest := by
      by_contra hnot
      exact hmet ⟨shown, f, rest, hreach, heq, hnot⟩
    have hwhole := hreach.whole hended
    refine hardCap_of hreach (.met heq) (by rw [hloop]; rfl)
      (.inl (hreach.fitting_nil hended.verified)) ?_ fun _ _ _ => hwhole
    intro h
    exact absurd hwhole (h.exact hreach hended.verified).2
  | exhausted hlt =>
    have hended : HasEnded ([] : List Turn) := nofun
    refine hardCap_of hreach (.exhausted hlt) (by rw [hloop]; rfl)
      (.inl (hreach.fitting_nil hended.verified)) ?_ fun _ _ _ => hreach.whole hended
    intro h
    have hexact := (h.exact hreach hended.verified).1
    omega
  | @ended t ts hlt hopen hitem =>
    have hended : HasEnded (t :: ts) := by
      intro u hu
      cases hu
      exact hitem
    refine hardCap_of hreach (.ended hlt hopen hitem) (by rw [hloop]; rfl)
      (.inl (hreach.fitting_nil hended.verified)) ?_ fun _ _ _ => hreach.whole hended
    intro h
    have hexact := (h.exact hreach hended.verified).1
    omega
  | @sessionClosed t ts hlt hclosed =>
    refine hardCap_of hreach (.sessionClosed hlt hclosed) (by rw [hloop]; rfl)
      (.inr ⟨f, t, ts, hreach, .inl hclosed⟩) ?_ ?_
    · intro h
      rcases h with ⟨f', u, us, chunk, v, hreach', ho, _⟩ | ⟨hexact, _⟩
      · have heq := hreach.unique hreach'
        cases heq
        rw [ho.isOpen] at hclosed
        cases hclosed
      · omega
    · intro _ he _
      rw [hloop] at he
      cases he
  | @failed t ts status hlt hopen hitem =>
    have hnone : CanonStream.verified f.verifier (t :: ts) = [] :=
      offersNothing (by rw [hitem]; nofun)
    refine hardCap_of hreach (.failed hlt hopen hitem) (by rw [hloop]; rfl)
      (.inl (hreach.fitting_nil hnone)) ?_ ?_
    · intro h
      have hexact := (h.exact hreach hnone).1
      omega
    · intro _ he _
      rw [hloop] at he
      cases he
  | @bailed t ts chunk v hlt hopen hitem hv =>
    have hnone : CanonStream.verified f.verifier (t :: ts) = [] := by
      simp only [CanonStream.verified, hitem, hv]
    refine hardCap_of hreach (.bailed hlt hopen hitem hv) (by rw [hloop]; rfl)
      (.inl (hreach.fitting_nil hnone)) ?_ ?_
    · intro h
      have hexact := (h.exact hreach hnone).1
      omega
    · intro hb _ _
      rw [hloop] at hb
      cases hb
  | @overGrant t ts chunk v hlt ho hover =>
    refine hardCap_of hreach (.overGrant hlt ho hover) (by rw [hloop]; rfl) (.inl ?_) ?_ ?_
    · rw [hreach.verified_eq, ho.verified_cons, fitting_append hreach.le,
        fitting_cons_over (by omega), List.append_nil]
    · intro _
      rw [hloop]
      exact ⟨rfl, rfl, rfl⟩
    · intro _ _ hc
      rw [hloop] at hc
      cases hc
  | @refused t ts chunk v message hlt ho hfit hr =>
    exact absurd ⟨shown, f, t, ts, message, hreach, hlt, chunk, v, ho, hfit, hr⟩ hrefused

theorem refused_not_capped (h : r.Refused) (out : List CanonChunk) :
    ¬HardCap p r (render p streamed r) out := by
  obtain ⟨shown, f, t, rest, message, hreach, hlt, chunk, v, ho, hfit, hr⟩ := h
  intro hcap
  have hstop : Stops r.grant.tokens f (t :: rest) _ := .refused hlt ho hfit hr
  have hrendered := hcap.rendered
  have hcharged := hcap.charged
  rw [render_renderedTokens, Request.loop_eq hreach hstop] at hrendered
  rw [render_loop, Loop.charged, loop_events hreach hstop, tokens_events] at hcharged
  have hreceived : f.received + accountedTokens chunk = total accountedTokens out := hrendered
  have hpos := accountedTokens_pos chunk
  have htotal := hreach.received
  omega

theorem metEarly_not_capped (h : r.MetEarly) (out : List CanonChunk) :
    ¬HardCap p r (render p streamed r) out := by
  obtain ⟨shown, f, rest, hreach, heq, hgoes⟩ := h
  intro hcap
  have hloop : r.loop streamed = _ := Request.loop_eq hreach (.met heq)
  have hrendered := hcap.rendered
  rw [render_renderedTokens, hloop] at hrendered
  have hmet : f.received = total accountedTokens out := hrendered
  have hsame : out = shown := prefix_unique accountedTokens_pos
    (hcap.fits.trans (fitting_initial _ _)) ⟨_, hreach.verified_eq.symm⟩
    (hmet.symm.trans hreach.received)
  subst hsame
  have hends : r.GrantEnds out := by
    refine .inr ⟨hmet.symm.trans heq, ?_⟩
    rintro ⟨hverified, hended⟩
    rw [hreach.verified_eq] at hverified
    rw [hreach.endsByItself_eq] at hended
    exact hgoes (hasEnded_of (List.self_eq_append_right.mp hverified) hended)
  have htruncated := (hcap.cut hends).1
  rw [render_truncatedByGrant, hloop] at htruncated
  cases htruncated

def freshRequest (grant : Grant) (turns : List Turn) : Request where
  config := ⟨⟨.stop, .retryThenReclaim, .reclaim, .acceptDeliveredThenReclaim⟩, .settleOnExit⟩
  world := ⟨fun _ => .settlement (.buyerStopTerminal .submittedStop), false, some 0⟩
  session := .new
  model := "mock"
  grant := grant
  reservation := some ⟨grant.tokens, 0⟩
  turns := turns

def wordTurn (text : String) : Turn :=
  ⟨false, some (.ok ⟨text.toList, [7], none⟩), ⟨"0:00", false, 1000, 0⟩⟩

end ConsumerRender
