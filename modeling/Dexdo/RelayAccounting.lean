import Dexdo.GatewayRelay

/-! # What a relay records and what it lets through

The relay turn by turn, with everything it does in order: what it asks and tells the recorder,
what it forwards to the buyer and how it finishes. -/
namespace RelayAccounting

open OpenAiUpstream GatewayRelay

structure Answers where
  authorize : ℕ → Except Status Unit
  connected : Bool
  deliver : ℕ → Except Status Unit

inductive Turn where
  | unavailable
  | quiet
  | event (e : Except Status UpstreamEvent) (answers : Answers)

inductive Effect where
  | authorized (minBillable : ℕ) (accepted : Bool)
  | delivered (tokens : ℕ) (usage accepted : Bool)
  | forwarded (chunk : CanonChunk) (accountedTokens : ℕ)
  | upstreamFailed (status : Status)
  | finished (finish : Finish)
  | closed (status : Status)

structure Loop where
  awaitingUsage : Bool := false
  chargedPerRun : ℕ := 0

def Loop.cut (l : Loop) : Finish := if l.awaitingUsage then .ambiguousUsage else .interrupted

structure Trace where
  log : List Effect
  finish : Finish
  terminalError : Option Status

def Trace.after (t : Trace) (effects : List Effect) : Trace := { t with log := effects ++ t.log }

def speaks (chunk : CanonChunk) : Bool := chunk.text != "" || chunk.reasoning != ""

/-- The loop of `relay_counting_with_chain_availability`. -/
def relayLoop (failureContext : Bool) : List Turn → Loop → Trace
  | [], l =>
    if l.awaitingUsage then
      ⟨[], .ambiguousUsage,
        some (dataLoss "delivered output ended without authoritative token usage")⟩
    else ⟨[], .clean, none⟩
  | .unavailable :: _, l => ⟨[], l.cut, some chainUnavailableStatus⟩
  | .quiet :: turns, l => relayLoop failureContext turns l
  | .event (.ok (.chunk chunk accountedTokens)) answers :: turns, l =>
    if accountedTokens > 0 ∧ l.awaitingUsage = true then
      ⟨[], .ambiguousUsage,
        some (dataLoss "upstream mixed separate usage with structured token accounting")⟩
    else
      let needsUsage := accountedTokens == 0 && speaks chunk
      match if needsUsage then answers.authorize l.chargedPerRun else .ok () with
      | .error status => ⟨[.authorized l.chargedPerRun false], l.cut, some status⟩
      | .ok () =>
        let asked := if needsUsage then [.authorized l.chargedPerRun true] else []
        if !answers.connected then ⟨asked, l.cut, none⟩
        else
          match if accountedTokens > 0 then answers.deliver accountedTokens else .ok () with
          | .error status =>
            ⟨asked ++ [.delivered accountedTokens false false], .interrupted, some status⟩
          | .ok () =>
            (relayLoop failureContext turns
              { l with awaitingUsage := l.awaitingUsage || needsUsage }).after
              (asked ++ (if accountedTokens > 0 then [.delivered accountedTokens false true]
                else []) ++ [.forwarded chunk accountedTokens])
  | .event (.ok (.accounted tokens)) answers :: turns, l =>
    if tokens = 0 ∨ l.awaitingUsage = false then
      ⟨[], l.cut, some (dataLoss "authoritative usage has no preceding delivered output")⟩
    else
      match answers.deliver tokens with
      | .error status => ⟨[.delivered tokens true false], .ambiguousUsage, some status⟩
      | .ok () =>
        (relayLoop failureContext turns
          { chargedPerRun := max l.chargedPerRun tokens, awaitingUsage := false }).after
          [.delivered tokens true true]
  | .event (.error status) _ :: _, l =>
    ⟨if failureContext then [.upstreamFailed status] else [], l.cut, some status⟩

/-- The relay: the loop, the finish told to the recorder, and the error told to the buyer. -/
def relay (failureContext : Bool) (turns : List Turn) (recorded : Except Status Unit) :
    List Effect :=
  let t := relayLoop failureContext turns {}
  let terminalError := match recorded with
    | .ok () => t.terminalError
    | .error status => some (t.terminalError.getD status)
  t.log ++ [.finished t.finish] ++ match terminalError with
    | some status => [.closed status]
    | none => []

inductive Release where
  | exact
  | ambiguous
  deriving DecidableEq, Repr

def release : Finish → Release
  | .clean => .exact
  | .interrupted => .exact
  | .ambiguousUsage => .ambiguous

def Effect.isFinished : Effect → Bool
  | finished _ => true
  | _ => false

def Effect.isDelivered : Effect → Bool
  | delivered _ _ _ => true
  | _ => false

def Effect.recorded : Effect → Option ℕ
  | delivered tokens _ true => some tokens
  | _ => none

def Effect.usage : Effect → Option ℕ
  | delivered tokens true true => some tokens
  | _ => none

def Effect.accounted : Effect → Option ℕ
  | forwarded _ (n + 1) => some (n + 1)
  | e => e.usage

def Unaccounted (log : List Effect) : Prop :=
  ∃ before chunk after, log = before ++ .forwarded chunk 0 :: after ∧ speaks chunk = true ∧
    ∀ e ∈ after, e.usage = none

/-- What one turn does when the loop goes on. -/
inductive Continues (l : Loop) : List Effect → Loop → Prop where
  | quiet : Continues l [] l
  | structured (chunk : CanonChunk) {n : ℕ} (hn : 0 < n) (ha : l.awaitingUsage = false) :
      Continues l [.delivered n false true, .forwarded chunk n] l
  | exposed {chunk : CanonChunk} (hc : speaks chunk = true) :
      Continues l [.authorized l.chargedPerRun true, .forwarded chunk 0]
        { l with awaitingUsage := true }
  | silent {chunk : CanonChunk} (hc : speaks chunk = false) :
      Continues l [.forwarded chunk 0] l
  | usage {n : ℕ} (hn : 0 < n) (ha : l.awaitingUsage = true) :
      Continues l [.delivered n true true]
        { chargedPerRun := max l.chargedPerRun n, awaitingUsage := false }

def Effect.inert : Effect → Bool
  | authorized _ _ => true
  | delivered _ _ false => true
  | upstreamFailed _ => true
  | _ => false

attribute [grind =] Effect.recorded Effect.usage Effect.inert

structure Stops (l : Loop) (t : Trace) : Prop where
  inert : ∀ e ∈ t.log, e.inert = true
  finish : t.finish = .ambiguousUsage ↔ l.awaitingUsage = true

inductive Runs : Loop → Trace → Prop where
  | stop {l t} : Stops l t → Runs l t
  | turn {l l' effects t} : Continues l effects l' → Runs l' t → Runs l (t.after effects)

theorem cut_iff (l : Loop) : l.cut = .ambiguousUsage ↔ l.awaitingUsage = true := by
  unfold Loop.cut
  cases l.awaitingUsage <;> simp

theorem relayLoop_runs (failureContext : Bool) (turns : List Turn) :
    ∀ l, Runs l (relayLoop failureContext turns l) := by
  induction turns with
  | nil =>
    intro l
    refine .stop ?_
    unfold relayLoop
    cases ha : l.awaitingUsage with
    | true => exact ⟨by simp, by simp [ha]⟩
    | false => exact ⟨by simp, by simp [ha]⟩
  | cons turn turns ih =>
    intro l
    match turn with
    | .unavailable => exact .stop ⟨by simp [relayLoop], cut_iff l⟩
    | .quiet => exact .turn .quiet (ih l)
    | .event (.error status) answers =>
      refine .stop ⟨fun e he => ?_, cut_iff l⟩
      cases failureContext with
      | true =>
        obtain rfl := List.mem_singleton.mp he
        rfl
      | false => cases he
    | .event (.ok (.accounted tokens)) answers =>
      simp only [relayLoop]
      split
      · exact .stop ⟨by simp, cut_iff l⟩
      · rename_i hgo
        obtain ⟨hn, ha⟩ := not_or.mp hgo
        have hawait : l.awaitingUsage = true := by simpa using ha
        cases answers.deliver tokens with
        | error status => exact .stop ⟨by simp [Effect.inert], by simp [hawait]⟩
        | ok u => exact .turn (.usage (Nat.pos_of_ne_zero hn) hawait) (ih _)
    | .event (.ok (.chunk chunk n)) answers =>
      simp only [relayLoop]
      split
      · rename_i hmixed
        exact .stop ⟨by simp, by simp [hmixed.2]⟩
      · rename_i hgo
        rcases Nat.eq_zero_or_pos n with rfl | hn
        · cases hc : speaks chunk with
          | false =>
            simp only [Nat.lt_irrefl, gt_iff_lt, if_false, beq_self_eq_true, Bool.true_and,
              Bool.false_eq_true, List.nil_append, Bool.or_false]
            cases answers.connected with
            | false => exact .stop ⟨by simp, cut_iff l⟩
            | true => exact .turn (.silent hc) (ih _)
          | true =>
            simp only [Nat.lt_irrefl, gt_iff_lt, if_false, beq_self_eq_true, Bool.true_and,
              if_true, List.append_nil, Bool.or_true]
            cases answers.authorize l.chargedPerRun with
            | error status => exact .stop ⟨by simp [Effect.inert], cut_iff l⟩
            | ok u =>
              cases answers.connected with
              | false => exact .stop ⟨by simp [Effect.inert], cut_iff l⟩
              | true => exact .turn (.exposed hc) (ih _)
        · have hz : (n == 0) = false := beq_eq_false_iff_ne.mpr (Nat.ne_of_gt hn)
          have hawait : l.awaitingUsage = false := by
            by_contra ha
            exact hgo ⟨hn, by simpa using ha⟩
          simp only [hz, Bool.false_and, Bool.false_eq_true, if_false, List.nil_append, hn,
            if_true, Bool.or_false]
          cases answers.connected with
          | false => exact .stop ⟨by simp, cut_iff l⟩
          | true =>
            cases answers.deliver n with
            | error status => exact .stop ⟨by simp [Effect.inert], by simp [hawait]⟩
            | ok u => exact .turn (.structured chunk hn hawait) (ih _)

variable {l l' : Loop} {t : Trace} {effects log : List Effect} {e : Effect}

theorem Effect.inert_recorded (h : e.inert = true) : e.recorded = none := by
  cases e with
  | delivered n usage accepted => cases accepted <;> simp_all [inert, recorded]
  | _ => rfl

theorem Effect.inert_accounted (h : e.inert = true) : e.accounted = none := by
  cases e with
  | delivered n usage accepted => cases accepted <;> cases usage <;> simp_all [inert, accounted,
      Effect.usage]
  | forwarded chunk n => cases h
  | _ => rfl

theorem Effect.inert_unfinished (h : e.inert = true) : e.isFinished = false := by
  cases e with
  | finished f => cases h
  | _ => rfl

theorem Continues.unfinished (h : Continues l effects l') :
    ∀ e ∈ effects, e.isFinished = false := by
  intro e he
  cases h <;> simp only [List.mem_cons, List.not_mem_nil, or_false] at he
  case structured => rcases he with rfl | rfl <;> rfl
  case exposed => rcases he with rfl | rfl <;> rfl
  case silent => subst he; rfl
  case usage => subst he; rfl

theorem Runs.unfinished (h : Runs l t) : ∀ e ∈ t.log, e.isFinished = false := by
  induction h with
  | stop hs =>
    intro e he
    exact Effect.inert_unfinished (hs.inert e he)
  | turn hc _ ih =>
    intro e he
    rcases List.mem_append.mp he with he | he
    · exact hc.unfinished e he
    · exact ih e he

theorem filterMap_inert {f : Effect → Option ℕ} (hf : ∀ e : Effect, e.inert = true → f e = none)
    (h : ∀ e ∈ log, e.inert = true) : log.filterMap f = [] :=
  List.filterMap_eq_nil_iff.mpr fun e he => hf e (h e he)

theorem Continues.balanced (h : Continues l effects l') :
    effects.filterMap Effect.recorded = effects.filterMap Effect.accounted := by
  cases h with
  | structured chunk hn ha =>
    obtain ⟨n, rfl⟩ := Nat.exists_eq_succ_of_ne_zero (Nat.ne_of_gt hn)
    rfl
  | _ => rfl

theorem Runs.balanced (h : Runs l t) :
    t.log.filterMap Effect.recorded = t.log.filterMap Effect.accounted := by
  induction h with
  | stop hs =>
    rw [filterMap_inert (fun _ => Effect.inert_recorded) hs.inert,
      filterMap_inert (fun _ => Effect.inert_accounted) hs.inert]
  | turn hc _ ih =>
    simp only [Trace.after, List.filterMap_append]
    rw [hc.balanced, ih]

def RecordedFirst (log : List Effect) : Prop :=
  ∀ before chunk n after, log = before ++ .forwarded chunk n :: after → 0 < n →
    ∃ earlier, before = earlier ++ [.delivered n false true]

theorem RecordedFirst.append {k : List Effect} (h : RecordedFirst log) (hk : RecordedFirst k) :
    RecordedFirst (log ++ k) := by
  intro before chunk n after heq hn
  rcases List.append_eq_append_iff.mp heq with ⟨m, hbefore, hm⟩ | ⟨m, hlog, hm⟩
  · obtain ⟨earlier, rfl⟩ := hk m chunk n after hm hn
    exact ⟨log ++ earlier, by simp [hbefore]⟩
  · cases m with
    | nil =>
      obtain ⟨earlier, hnil⟩ := hk [] chunk n after (by simpa using hm.symm) hn
      simp at hnil
    | cons first rest =>
      obtain ⟨rfl, -⟩ := List.cons.inj hm
      exact h before chunk n rest hlog hn

theorem recordedFirst_of_none (h : ∀ chunk n, 0 < n → Effect.forwarded chunk n ∉ log) :
    RecordedFirst log := by
  rintro before chunk n after rfl hn
  exact absurd (by simp) (h chunk n hn)

theorem Continues.recordedFirst (h : Continues l effects l') : RecordedFirst effects := by
  cases h with
  | structured chunk hn ha =>
    intro before c n after heq hn
    cases before with
    | nil => simp at heq
    | cons first rest =>
      cases rest with
      | nil =>
        simp only [List.cons_append, List.nil_append, List.cons.injEq,
          Effect.forwarded.injEq] at heq
        obtain ⟨rfl, ⟨-, rfl⟩, -⟩ := heq
        exact ⟨[], rfl⟩
      | cons second rest => simp at heq
  | exposed hc =>
    refine recordedFirst_of_none fun chunk n hn hm => ?_
    simp at hm
    omega
  | silent hc =>
    refine recordedFirst_of_none fun chunk n hn hm => ?_
    simp at hm
    omega
  | quiet => exact recordedFirst_of_none fun _ _ _ => List.not_mem_nil
  | usage hn ha => exact recordedFirst_of_none fun _ _ _ => by simp

theorem Runs.recordedFirst (h : Runs l t) : RecordedFirst t.log := by
  induction h with
  | stop hs =>
    refine recordedFirst_of_none fun chunk n _ hm => ?_
    have hi := hs.inert _ hm
    cases hi
  | turn hc _ ih => exact hc.recordedFirst.append ih

def Unbilled (log : List Effect) : Prop := ∀ e ∈ log, e.usage = none

theorem unaccounted_cons : Unaccounted (e :: log) ↔
    (∃ chunk, e = .forwarded chunk 0 ∧ speaks chunk = true ∧ Unbilled log) ∨
      Unaccounted log := by
  constructor
  · rintro ⟨before, chunk, after, heq, hc, hafter⟩
    cases before with
    | nil =>
      obtain ⟨rfl, rfl⟩ := List.cons.inj heq
      exact .inl ⟨chunk, rfl, hc, hafter⟩
    | cons first before =>
      obtain ⟨rfl, rfl⟩ := List.cons.inj heq
      exact .inr ⟨before, chunk, after, rfl, hc, hafter⟩
  · rintro (⟨chunk, rfl, hc, hafter⟩ | ⟨before, chunk, after, rfl, hc, hafter⟩)
    · exact ⟨[], chunk, log, rfl, hc, hafter⟩
    · exact ⟨e :: before, chunk, after, rfl, hc, hafter⟩

theorem unaccounted_other (h : ∀ chunk, e = .forwarded chunk 0 → speaks chunk = false) :
    Unaccounted (e :: log) ↔ Unaccounted log := by
  rw [unaccounted_cons]
  refine or_iff_right ?_
  rintro ⟨chunk, he, hc, -⟩
  rw [h chunk he] at hc
  cases hc

theorem unbilled_cons : Unbilled (e :: log) ↔ e.usage = none ∧ Unbilled log := by
  simp [Unbilled]

def Owed (l : Loop) (log : List Effect) : Prop :=
  l.awaitingUsage = true ∧ Unbilled log ∨ Unaccounted log

theorem Continues.owed (h : Continues l effects l') :
    Owed l (effects ++ log) ↔ Owed l' log := by
  unfold Owed
  cases h with
  | quiet => rfl
  | @structured chunk n hn ha =>
    have hpos : ∀ c, Effect.forwarded chunk n = .forwarded c 0 → speaks c = false := by
      intro c heq
      simp only [Effect.forwarded.injEq] at heq
      omega
    simp only [List.cons_append, List.nil_append]
    rw [unaccounted_other (by simp), unaccounted_other hpos, unbilled_cons, unbilled_cons]
    simp [Effect.usage]
  | @exposed chunk hc =>
    simp only [List.cons_append, List.nil_append]
    rw [unaccounted_other (by simp), unaccounted_cons, unbilled_cons, unbilled_cons]
    simp only [Effect.usage, Effect.forwarded.injEq, and_true, true_and, exists_eq_left', hc]
    exact or_iff_right_of_imp fun h => .inl h.2
  | @silent chunk hc =>
    have hsilent : ∀ c, Effect.forwarded chunk 0 = .forwarded c 0 → speaks c = false := by
      intro c heq
      simp only [Effect.forwarded.injEq] at heq
      rw [← heq.1, hc]
    simp only [List.cons_append, List.nil_append]
    rw [unaccounted_other hsilent, unbilled_cons]
    simp [Effect.usage]
  | usage hn ha =>
    simp only [List.cons_append, List.nil_append]
    rw [unaccounted_other (by simp), unbilled_cons]
    simp [Effect.usage]

theorem Runs.ambiguous_iff (h : Runs l t) : t.finish = .ambiguousUsage ↔ Owed l t.log := by
  induction h with
  | @stop l t hs =>
    rw [hs.finish]
    have hunbilled : Unbilled t.log := by
      intro e he
      have hi := hs.inert e he
      cases e with
      | delivered n usage accepted => cases accepted <;> cases usage <;> simp_all [Effect.inert,
          Effect.usage]
      | _ => rfl
    have hnone : ¬ Unaccounted t.log := by
      rintro ⟨before, chunk, after, heq, -⟩
      have hi := hs.inert (.forwarded chunk 0) (by rw [heq]; simp)
      cases hi
    simp [Owed, hunbilled, hnone]
  | turn hc _ ih => exact ih.trans hc.owed.symm

def Effect.isClosed : Effect → Bool
  | closed _ => true
  | _ => false

theorem relay_ends (failureContext : Bool) (turns : List Turn) (recorded : Except Status Unit) :
    ∃ tail, relay failureContext turns recorded =
        (relayLoop failureContext turns {}).log ++
          .finished (relayLoop failureContext turns {}).finish :: tail ∧
      ∀ e ∈ tail, e.isClosed = true := by
  unfold relay
  simp only [List.append_assoc, List.singleton_append]
  refine ⟨_, rfl, fun e he => ?_⟩
  split at he
  · obtain rfl := List.mem_singleton.mp he
    rfl
  · cases he

theorem Effect.closed_tail {tail : List Effect} (h : ∀ e ∈ tail, e.isClosed = true) {f : Finish} :
    (∀ e ∈ (.finished f :: tail : List Effect), e.recorded = none ∧ e.accounted = none ∧
      e.usage = none ∧ e.isDelivered = false ∧ ∀ c n, e ≠ .forwarded c n) ∧
    ∀ e ∈ tail, e.isFinished = false := by
  have hclosed : ∀ e ∈ tail, ∃ status, e = .closed status := by
    intro e he
    have hc := h e he
    cases e <;> first | exact ⟨_, rfl⟩ | cases hc
  refine ⟨fun e he => ?_, fun e he => ?_⟩
  · rcases List.mem_cons.mp he with rfl | he
    · exact ⟨rfl, rfl, rfl, rfl, fun _ _ => by simp⟩
    · obtain ⟨status, rfl⟩ := hclosed e he
      exact ⟨rfl, rfl, rfl, rfl, fun _ _ => by simp⟩
  · obtain ⟨status, rfl⟩ := hclosed e he
    rfl

theorem unaccounted_append {k : List Effect} (hu : Unbilled k)
    (hf : ∀ e ∈ k, ∀ c n, e ≠ .forwarded c n) : Unaccounted (log ++ k) ↔ Unaccounted log := by
  have hnone : ¬ Unaccounted k := by
    rintro ⟨before, chunk, after, rfl, -⟩
    exact hf (.forwarded chunk 0) (by simp) chunk 0 rfl
  induction log with
  | nil => exact iff_of_false hnone (by rintro ⟨before, chunk, after, heq, -⟩; simp at heq)
  | cons e log ih =>
    have hbilled : Unbilled (log ++ k) ↔ Unbilled log := by
      unfold Unbilled
      rw [List.forall_mem_append]
      exact and_iff_left hu
    rw [List.cons_append, unaccounted_cons, unaccounted_cons, hbilled]
    exact or_congr_right ih

def turnsOf (y : Parties) : ℕ → List (Except Status UpstreamEvent) → List Turn
  | i, [] => if y.unavailable i then [.unavailable] else []
  | i, e :: events =>
    if y.unavailable i then [.unavailable]
    else .event e ⟨y.authorize, y.connected i, y.deliver⟩ :: turnsOf y (i + 1) events

def Effect.chunk : Effect → Option CanonChunk
  | forwarded chunk _ => some chunk
  | _ => none

/-- The totals say what the log says. -/
structure Totals (r : Relay) (o : Outcome) (t : Trace) : Prop where
  finish : o.finish = t.finish
  terminalError : o.terminalError = t.terminalError
  forwarded : o.relay.forwarded = r.forwarded ++ t.log.filterMap Effect.chunk
  recorded : o.relay.recorded = r.recorded ++ t.log.filterMap Effect.recorded

theorem Totals.stop {r : Relay} {f : Finish} {err : Option Status} {log : List Effect}
    (hchunk : log.filterMap Effect.chunk = []) (hrec : log.filterMap Effect.recorded = []) :
    Totals r ⟨r, err, f⟩ ⟨log, f, err⟩ :=
  ⟨rfl, rfl, by simp [hchunk], by simp [hrec]⟩

theorem Totals.after {r r' : Relay} {o : Outcome} (h : Totals r' o t)
    (hchunk : r'.forwarded = r.forwarded ++ effects.filterMap Effect.chunk)
    (hrec : r'.recorded = r.recorded ++ effects.filterMap Effect.recorded) :
    Totals r o (t.after effects) := by
  refine ⟨h.finish, h.terminalError, ?_, ?_⟩
  · rw [h.forwarded, hchunk, Trace.after, List.filterMap_append, List.append_assoc]
  · rw [h.recorded, hrec, Trace.after, List.filterMap_append, List.append_assoc]

end RelayAccounting
