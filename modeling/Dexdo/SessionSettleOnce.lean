import Dexdo.SessionSettleRuns

/-! # What a buyer session posts

A STOP is posted only where every STOP before it was refused, and nothing is posted once the
session is settled, as long as no future is dropped that waits for the answer to its STOP, and
`mark_recovered` does not overtake a chain call that has not posted yet. -/
namespace SessionSettle

variable {c : Config} {s t : System} {a : Action} {h : Holder} {l : History}

/-- The condition on the steps. -/
def undisturbed (c : Config) (s : System) : Action → Bool
  | .dropHolder => s.session.settled || s.holder.all fun h => !(h.chainCall.isStop && h.posted)
  | .markRecovered => s.holder.all (·.posted)
  | .call .replaceActive => c.lifetime != .preserve || implicitTerminalLacksDelivery s.delivered
  | _ => true

def Refused (stops : List Outcome) : Prop := ∀ o ∈ stops, o = .refused

theorem Refused.snoc {stops : List Outcome} (h : Refused stops) :
    Refused (stops ++ [Outcome.refused]) := by
  intro o ho
  rcases List.mem_append.mp ho with hmem | hmem
  · exact h o hmem
  · exact List.mem_singleton.mp hmem

/-! ## The latch -/

def Settled (s : System) : Prop := Refused s.stops ∨ s.session.Latched

structure HolderOk (c : Config) (s : System) (h : Holder) : Prop where
  call : h.task.body.chainCall c = some h.chainCall
  other : h.chainCall.isStop = false → Settled s
  preparing : h.chainCall.isStop = true → h.posted = false →
    Refused s.stops ∧ s.session.recoverySubmitMayHaveLanded = false
  posted : h.chainCall.isStop = true → h.posted = true →
    ∃ stops, Refused stops ∧ s.stops = stops ++ [Outcome.pending]

structure Sound (c : Config) (s : System) : Prop where
  latchOk : s.session.LatchOk
  idle : s.dropped = none → s.holder = none → Settled s
  holder : ∀ h, s.holder = some h → HolderOk c s h
  dropped : s.dropped ≠ none → s.holder = none
  backup : s.dropped = some (some false) → Refused s.stops

theorem sound_start (c : Config) (delivered : Option ℕ) : Sound c (start delivered) where
  latchOk := by
    intro hl
    cases hl
  idle := fun _ _ => .inl (by simp [Refused, start])
  holder := by
    intro h hh
    cases hh
  dropped := fun _ => rfl
  backup := by
    intro hd
    cases hd

theorem Sound.with_session {session : Session} {delivered : Option ℕ} {waiting : List Task}
    (hs : Sound c s) (hok : session.LatchOk) (hl : s.session.Latched → session.Latched)
    (hfree : s.session.recoverySubmitMayHaveLanded = false →
      session.recoverySubmitMayHaveLanded = false) :
    Sound c { s with
      session := session
      delivered := delivered
      waiting := waiting } where
  latchOk := hok
  idle := fun hd hh => (hs.idle hd hh).imp_right hl
  holder := by
    intro h hh
    obtain ⟨hcall, hother, hprep, hposted⟩ := hs.holder h hh
    exact ⟨hcall, fun hn => (hother hn).imp_right hl, fun h₁ h₂ => (hprep h₁ h₂).imp_right hfree,
      hposted⟩
  dropped := hs.dropped
  backup := hs.backup

theorem Sound.same {session : Session} {delivered : Option ℕ} {waiting : List Task}
    (hs : Sound c s) (h : s.session.Same session) :
    Sound c { s with
      session := session
      delivered := delivered
      waiting := waiting } :=
  hs.with_session (h.latchOk hs.latchOk) h.latched fun hf => h.landed.trans hf

theorem Sound.recovered (hs : Sound c s) :
    Sound c { s with session := s.session.markRecovered } :=
  hs.with_session (Session.markRecovered_latchOk hs.latchOk)
    (fun _ => .inl Session.markRecovered_settled) Session.markRecovered_landed

theorem Sound.acquired {i : ℕ} {task : Task} (hs : Sound c s) (hd : s.dropped = none)
    (hh : s.holder = none) : Sound c (s.acquired c i task) := by
  have hidle := hs.idle hd hh
  by_cases hb : task.body = .markRecovered
  · -- the serialized recovery has no chain call
    have hnone : (begin c s.session task.body).2 = none := by
      cases hcall : (begin c s.session task.body).2 with
      | none => rfl
      | some call =>
        have hbody := begin_chainCall hcall
        rw [hb] at hbody
        cases hbody
    have hsession : (begin c s.session task.body).1 = s.session.markRecovered := by
      rw [hb]
      exact begin_markRecovered
    have heq : s.acquired c i task =
        { s with
          session := s.session.markRecovered
          waiting := s.waiting.eraseIdx i } := by
      simp [System.acquired, hnone, hsession, hh]
    rw [heq]
    exact hs.with_session (Session.markRecovered_latchOk hs.latchOk)
      (fun _ => .inl Session.markRecovered_settled) Session.markRecovered_landed
  · have hsame := begin_same (c := c) (s := s.session) hb
    constructor
    · exact hsame.latchOk hs.latchOk
    · intro _ _
      exact hidle.imp_right hsame.latched
    · intro h hheld
      simp only [System.acquired, Option.map_eq_some_iff] at hheld
      obtain ⟨call, hcall, rfl⟩ := hheld
      refine ⟨begin_chainCall hcall, fun _ => hidle.imp_right hsame.latched, ?_, ?_⟩
      · intro hstop _
        have hfree := begin_stop hs.latchOk hcall hstop
        refine ⟨?_, hsame.landed.trans hfree⟩
        rcases hidle with hrefused | hsettled | hlanded
        · exact hrefused
        · rw [begin_settled hcall] at hsettled
          cases hsettled
        · rw [hfree] at hlanded
          cases hlanded
      · intro _ hposted
        cases hposted
    · intro hne
      exact absurd hd hne
    · intro hb
      rw [show (s.acquired c i task).dropped = none from hd] at hb
      cases hb

theorem Sound.posting (hs : Sound c s) (hd : s.dropped = none) (hh : s.holder = some h)
    (hp : h.posted = false) : Sound c (s.posting h) := by
  obtain ⟨hcall, hother, hprep, -⟩ := hs.holder h hh
  constructor
  · exact hs.latchOk
  · intro _ hnone
    cases hnone
  · intro h' hh'
    cases hh'
    refine ⟨hcall, ?_, ?_, ?_⟩
    · intro hn
      have hstops : (s.posting h).stops = s.stops := by
        simp [System.posting, show h.chainCall.isStop = false from hn]
      exact (hother hn).imp_left fun hr => hstops ▸ hr
    · intro _ hposted
      cases hposted
    · intro hstop _
      exact ⟨s.stops, (hprep hstop hp).1, by simp [System.posting, show h.chainCall.isStop = true
        from hstop]⟩
  · intro hne
    exact absurd hd hne
  · intro hb
    rw [show (s.posting h).dropped = none from hd] at hb
    cases hb

/-- A chain call that ends leaves its STOP refused, or the session settled or latched. -/
theorem Sound.freed {session : Session} {o : Outcome} (hs : Sound c s) (hd : s.dropped = none)
    (hh : s.holder = some h) (hok : session.LatchOk)
    (hstop : h.chainCall.isStop = true → h.posted = true → o = .refused ∨ session.Latched)
    (hl : h.chainCall.isStop = false → s.session.Latched → session.Latched) :
    Sound c { s with
      session := session
      holder := none
      stops := s.ended h o } := by
  obtain ⟨-, hother, hprep, hposted⟩ := hs.holder h hh
  refine ⟨hok, ?_, ?_, fun _ => rfl, ?_⟩
  · intro _ _
    cases hc : h.chainCall.isStop with
    | false =>
      have hended : s.ended h o = s.stops := by simp [System.ended, hc]
      exact (hother hc).imp (fun hr => by rw [← hended] at hr; exact hr) (hl hc)
    | true =>
      cases hp : h.posted with
      | false =>
        have hended : s.ended h o = s.stops := by simp [System.ended, hp]
        exact .inl (by simpa only [hended] using (hprep hc hp).1)
      | true =>
        obtain ⟨stops, hrefused, hstops⟩ := hposted hc hp
        have hended : s.ended h o = stops ++ [o] := by
          simp [System.ended, hc, hp, hstops]
        rcases hstop hc hp with rfl | hlatched
        · exact .inl (by simpa only [hended] using hrefused.snoc)
        · exact .inr hlatched
  · intro h' hh'
    cases hh'
  · intro hb
    rw [show s.dropped = none from hd] at hb
    cases hb

theorem Sound.answered {b : Answer} (hs : Sound c s) (hd : s.dropped = none)
    (hh : s.holder = some h) (ha : h.mayAnswer b = true) : Sound c (s.answered c h b) := by
  obtain ⟨hcall, -, -, -⟩ := hs.holder h hh
  refine hs.freed hd hh (resume_latchOk hs.latchOk b) ?_ ?_
  · intro hstop hp
    cases b with
    | settlement r => exact .inr (.inl (resume_settled hcall))
    | heartbeatChanged => simp [Holder.mayAnswer, hp] at ha
    | failed e =>
      cases e with
      | ambiguousSubmit => exact .inr (.inr (resume_ambiguous hcall hstop))
      | definite => exact .inl rfl
  · intro hother hlatched
    cases b with
    | settlement r => exact .inl (resume_settled hcall)
    | heartbeatChanged =>
      obtain ⟨hif, -⟩ : h.chainCall = .stopIfHeartbeat ∧ h.posted = false := by
        simpa [Holder.mayAnswer] using ha
      rw [hif] at hother
      cases hother
    | failed e => exact (resume_failed_same hcall (.inr hother)).latched hlatched

theorem Sound.lost (hs : Sound c s) (hd : s.dropped = none) (hh : s.holder = some h)
    (hc : s.session.settled = true ∨ ¬ (h.chainCall.isStop = true ∧ h.posted = true)) :
    Sound c (s.lost h) := by
  refine hs.freed hd hh hs.latchOk ?_ (fun _ hl => hl)
  intro hstop hp
  rcases hc with hsettled | hnot
  · exact .inr (.inl hsettled)
  · exact absurd ⟨hstop, hp⟩ hnot

theorem Sound.drops (hs : Sound c s) (hd : s.dropped = none) (hh : s.holder = none)
    (runtime : Bool) : Sound c (s.drops c runtime) := by
  constructor
  · exact onDrop_same.latchOk hs.latchOk
  · intro hnone
    cases hnone
  · intro h' hh'
    rw [show (s.drops c runtime).holder = none from hh] at hh'
    cases hh'
  · exact fun _ => hh
  · intro hb
    simp only [System.drops, Option.some.injEq] at hb
    split at hb
    · rename_i hspawn
      simp only [Bool.and_eq_true] at hspawn
      obtain ⟨-, hfree, -⟩ := onDrop_spawns hspawn.1
      rcases hs.idle hd hh with hrefused | hlatched
      · exact hrefused
      · exact absurd hlatched hfree
    · cases hb

theorem Sound.after_drop {backup : Option Bool} {stops : List Outcome} (hs : Sound c s)
    (hd : s.dropped ≠ none) (hb : backup ≠ some false) :
    Sound c { s with
      dropped := some backup
      stops := stops } where
  latchOk := hs.latchOk
  idle := fun hnone => by cases hnone
  holder := by
    intro h hh
    rw [show s.holder = none from hs.dropped hd] at hh
    cases hh
  dropped := fun _ => hs.dropped hd
  backup := fun h => absurd (Option.some.inj h) hb

theorem Sound.step (hs : Sound c s) (hstep : Step c s a t) (hc : undisturbed c s a = true) :
    Sound c t := by
  cases hstep with
  | called call hd => exact hs.same (enter_same call)
  | acquired hd htask hh => exact hs.acquired hd hh
  | left i hd => exact hs.same .refl
  | posted hd hh hp => exact hs.posting hd hh hp
  | answered hd hh ha => exact hs.answered hd hh ha
  | lost hd hh =>
    refine hs.lost hd hh ?_
    simpa [undisturbed, hh, imp_iff_not_or] using hc
  | recovered hd => exact hs.recovered
  | closed kind hd => exact hs.same (Session.closeRecoveryEpisode_same kind)
  | taken hd => exact hs.same Session.takeHandlerRecoveryReconciliation_same
  | delivered tokens hd => exact hs.same .refl
  | dropped runtime hd hw hh => exact hs.drops hd hh runtime
  | backup hd => exact hs.after_drop (by simp [hd]) (by simp)
  | unsent o hd => exact hs.after_drop (by simp [hd]) (by simp)
  | sent o hd => exact hs.after_drop (by simp [hd]) (by simp)

/-! ## Who posts -/

/-- What a task may post, at the delivered counter of the moment. -/
structure Task.Allowed (c : Config) (delivered : Option ℕ) (task : Task) : Prop where
  preserved : c.lifetime = .preserve → ∀ chainCall, task.body.chainCall c = some chainCall →
    task.call = .settle
  delivered : task.call = .settleOnExit ∨ task.call = .replaceActive → delivered ≠ some 0

theorem Task.Allowed.deliver {delivered : Option ℕ} {task : Task} (h : task.Allowed c delivered)
    (tokens : ℕ) : task.Allowed c (delivered.map (· + tokens)) where
  preserved := h.preserved
  delivered := by
    intro hcall heq
    have hne := h.delivered hcall
    cases delivered with
    | none => cases heq
    | some n =>
      simp only [Option.map_some, Option.some.injEq] at heq
      exact hne (by rw [Nat.add_eq_zero_iff.mp heq |>.1])

theorem enter_allowed {call : Call} {body : Body}
    (hb : (enter c s.session s.delivered call).2 = some body)
    (hc : undisturbed c s (.call call) = true) : Task.Allowed c s.delivered ⟨call, body⟩ where
  preserved := by
    intro hp chainCall hcall
    rcases enter_preserved hp hb hcall with heq | rfl
    · exact heq
    · have hne := enter_delivered (.inr rfl) hb
      simp [undisturbed, hp, implicitTerminalLacksDelivery, hne] at hc
  delivered := fun hcall => enter_delivered hcall hb

structure Owned (c : Config) (s : System) : Prop where
  unsettled : ∀ h, s.holder = some h → h.posted = false → s.session.settled = false
  waiting : ∀ task ∈ s.waiting, task.Allowed c s.delivered
  held : ∀ h, s.holder = some h → h.task.Allowed c s.delivered
  backup : s.dropped = some (some false) →
    s.session.settled = false ∧ c.lifetime ≠ .preserve ∧ s.delivered ≠ some 0

theorem owned_start (c : Config) (delivered : Option ℕ) : Owned c (start delivered) where
  unsettled := by
    intro h hh
    cases hh
  waiting := by
    intro task htask
    cases htask
  held := by
    intro h hh
    cases hh
  backup := by
    intro hd
    cases hd

theorem Owned.with_session {session : Session} (ho : Owned c s) (hd : s.dropped = none)
    (h : session.settled = s.session.settled ∨ ∀ h, s.holder = some h → h.posted = true) :
    Owned c { s with session := session } where
  unsettled := by
    intro h' hh hp
    rcases h with heq | hposted
    · exact heq.trans (ho.unsettled h' hh hp)
    · rw [hposted h' hh] at hp
      cases hp
  waiting := ho.waiting
  held := ho.held
  backup := by
    intro hb
    rw [show s.dropped = none from hd] at hb
    cases hb

theorem Owned.entered {call : Call} (ho : Owned c s) (hd : s.dropped = none)
    (hc : undisturbed c s (.call call) = true) : Owned c (s.entered c call) where
  unsettled := fun h hh hp => (enter_same call).settled.trans (ho.unsettled h hh hp)
  waiting := by
    intro task htask
    rcases List.mem_append.mp htask with hmem | hmem
    · exact ho.waiting task hmem
    · simp only [Option.mem_toList, Option.map_eq_some_iff] at hmem
      obtain ⟨body, hbody, rfl⟩ := hmem
      have hallowed := enter_allowed hbody hc
      exact hallowed
  held := ho.held
  backup := by
    intro hb
    rw [show (s.entered c call).dropped = none from hd] at hb
    cases hb

theorem Owned.acquired {i : ℕ} {task : Task} (ho : Owned c s) (hd : s.dropped = none)
    (htask : s.waiting[i]? = some task) : Owned c (s.acquired c i task) where
  unsettled := by
    intro h hh _
    simp only [System.acquired, Option.map_eq_some_iff] at hh
    obtain ⟨call, hcall, rfl⟩ := hh
    have hne : task.body ≠ .markRecovered := by
      intro hb
      have hbody := begin_chainCall hcall
      rw [hb] at hbody
      cases hbody
    exact (begin_same hne).settled.trans (begin_settled hcall)
  waiting := fun task' hmem => ho.waiting task' (List.mem_of_mem_eraseIdx hmem)
  held := by
    intro h hh
    simp only [System.acquired, Option.map_eq_some_iff] at hh
    obtain ⟨call, -, rfl⟩ := hh
    exact ho.waiting task (List.mem_of_getElem? htask)
  backup := by
    intro hb
    rw [show (s.acquired c i task).dropped = none from hd] at hb
    cases hb

theorem Owned.freed {session : Session} {stops : List Outcome} (ho : Owned c s)
    (hd : s.dropped = none) :
    Owned c { s with
      session := session
      holder := none
      stops := stops } where
  unsettled := by
    intro h hh
    cases hh
  waiting := ho.waiting
  held := by
    intro h hh
    cases hh
  backup := by
    intro hb
    rw [show s.dropped = none from hd] at hb
    cases hb

theorem Owned.posting (ho : Owned c s) (hd : s.dropped = none) (hh : s.holder = some h) :
    Owned c (s.posting h) where
  unsettled := by
    intro h' hh' hp
    cases hh'
    cases hp
  waiting := ho.waiting
  held := by
    intro h' hh'
    cases hh'
    exact ⟨(ho.held h hh).preserved, (ho.held h hh).delivered⟩
  backup := by
    intro hb
    rw [show (s.posting h).dropped = none from hd] at hb
    cases hb

theorem Owned.drops (ho : Owned c s) (hh : s.holder = none) (runtime : Bool) :
    Owned c (s.drops c runtime) where
  unsettled := by
    intro h' hh'
    rw [show (s.drops c runtime).holder = none from hh] at hh'
    cases hh'
  waiting := ho.waiting
  held := by
    intro h' hh'
    rw [show (s.drops c runtime).holder = none from hh] at hh'
    cases hh'
  backup := by
    intro hb
    simp only [System.drops, Option.some.injEq] at hb
    split at hb
    · rename_i hspawn
      simp only [Bool.and_eq_true] at hspawn
      obtain ⟨hp, hfree, hdelivered⟩ := onDrop_spawns hspawn.1
      refine ⟨?_, hp, hdelivered⟩
      have hunsettled : s.session.settled = false := by
        by_contra hs
        exact hfree (.inl (by simpa using hs))
      exact onDrop_same.settled.trans hunsettled
    · cases hb

theorem Owned.after_drop {backup : Option Bool} {stops : List Outcome} (ho : Owned c s)
    (hb : backup ≠ some false) :
    Owned c { s with
      dropped := some backup
      stops := stops } where
  unsettled := ho.unsettled
  waiting := ho.waiting
  held := ho.held
  backup := fun h => absurd (Option.some.inj h) hb

theorem Owned.step (ho : Owned c s) (hstep : Step c s a t) (hc : undisturbed c s a = true) :
    Owned c t := by
  cases hstep with
  | called call hd => exact ho.entered hd hc
  | acquired hd htask hh => exact ho.acquired hd htask
  | left i hd =>
    exact ⟨ho.unsettled, fun task hmem => ho.waiting task (List.mem_of_mem_eraseIdx hmem), ho.held,
      ho.backup⟩
  | posted hd hh hp => exact ho.posting hd hh
  | answered hd hh ha => exact ho.freed hd
  | lost hd hh => exact ho.freed hd
  | recovered hd =>
    refine ho.with_session hd (.inr fun h hh => ?_)
    simpa [undisturbed, hh] using hc
  | closed kind hd => exact ho.with_session hd (.inl (Session.closeRecoveryEpisode_same kind).settled)
  | taken hd => exact ho.with_session hd (.inl rfl)
  | delivered tokens hd =>
    refine ⟨ho.unsettled, fun task hmem => (ho.waiting task hmem).deliver tokens,
      fun h hh => (ho.held h hh).deliver tokens, ?_⟩
    intro hb
    rw [show s.dropped = none from hd] at hb
    cases hb
  | dropped runtime hd hw hh => exact ho.drops hh runtime
  | backup hd => exact ho.after_drop (by simp)
  | unsent o hd => exact ho.after_drop (by simp)
  | sent o hd => exact ho.after_drop (by simp)

/-! ## Every post of a run -/

inductive Origin where
  | call (call : Call)
  | dropBackup
  deriving DecidableEq, Repr

def poster (s : System) : Action → Option (Origin × ChainCall)
  | .post => s.holder.map fun h => (.call h.task.call, h.chainCall)
  | .postBackup => some (.dropBackup, .stop)
  | _ => none

def Origin.isImplicit : Origin → Bool
  | .call .settleOnExit | .call .replaceActive | .dropBackup => true
  | _ => false

/-- What the session promises of one post. -/
structure PostOk (c : Config) (s : System) (origin : Origin) (chainCall : ChainCall) : Prop where
  once : chainCall.isStop = true → Refused s.stops
  unsettled : s.session.settled = false
  preserved : c.lifetime = .preserve → origin = .call .settle
  undelivered : origin.isImplicit = true → s.delivered ≠ some 0

def Submits (c : Config) (l : History) : Prop :=
  ∀ r ∈ l, ∀ origin chainCall, poster r.pre r.act = some (origin, chainCall) →
    PostOk c r.pre origin chainCall

theorem post_ok {origin : Origin} {chainCall : ChainCall} (hs : Sound c s) (ho : Owned c s)
    (hstep : Step c s a t) (hp : poster s a = some (origin, chainCall)) :
    PostOk c s origin chainCall := by
  cases hstep with
  | @posted h hd hh hnot =>
    simp only [poster, hh, Option.map_some, Option.some.injEq, Prod.mk.injEq] at hp
    obtain ⟨rfl, rfl⟩ := hp
    have hheld := hs.holder h hh
    have hallowed := ho.held h hh
    refine ⟨fun hstop => (hheld.preparing hstop hnot).1, ho.unsettled h hh hnot, ?_, ?_⟩
    · intro hpreserve
      rw [hallowed.preserved hpreserve _ hheld.call]
    · intro himplicit
      apply hallowed.delivered
      cases hcall : h.task.call <;> simp [hcall, Origin.isImplicit] at himplicit ⊢
  | backup hd =>
    cases hp
    obtain ⟨hunsettled, hpreserve, hdelivered⟩ := ho.backup hd
    exact ⟨fun _ => hs.backup hd, hunsettled, fun h => absurd h hpreserve, fun _ => hdelivered⟩
  | _ => cases hp

/-- In a run that is not disturbed every STOP is posted after refused ones only, nothing is posted
after the session is settled, a preserved session posts for `settle` alone, and no implicit
terminal posts while the bound route has delivered nothing. -/
theorem session_posts_once (c : Config) (delivered : Option ℕ) (l : History) (s : System)
    (h : TransactionSystem.Run (exec c) (fun s a => undisturbed c s a = true) (start delivered)
      l s) : Submits c l := by
  have hrun : (Sound c s ∧ Owned c s) ∧ Submits c l := by
    refine TransactionSystem.Run.invariant (I := fun l s => (Sound c s ∧ Owned c s) ∧ Submits c l)
      ⟨⟨sound_start c delivered, owned_start c delivered⟩, ?_⟩ ?_ h
    · intro r hr
      cases hr
    · rintro l s a t ⟨⟨hs, ho⟩, hl⟩ hc he
      have hstep := exec_step he
      refine ⟨⟨hs.step hstep hc, ho.step hstep hc⟩, ?_⟩
      intro r hr origin chainCall hp
      rcases List.mem_append.mp hr with hmem | hmem
      · exact hl r hmem origin chainCall hp
      · obtain rfl := List.mem_singleton.mp hmem
        exact post_ok hs ho hstep hp
  exact hrun.2

/-! ## Two runs -/

def sampleConfig : Config where
  failurePolicy := ⟨.stop, .retryThenReclaim, .reclaim, .acceptDeliveredThenReclaim⟩
  lifetime := .settleOnExit

def ambiguousSchedule : List Action :=
  [.deliver 3, .call .settleDeadGateway, .acquire 0, .post, .answer (.failed .ambiguousSubmit),
    .call .settle, .acquire 0, .call .settleOnExit, .acquire 0, .dropSession true]

/-- Of the shutdown, the explicit settle and the drop after it none posts. -/
theorem ambiguous_stop_is_the_only_one : ∃ l s,
    TransactionSystem.Run (exec sampleConfig) (fun s a => undisturbed sampleConfig s a = true)
      (start (some 0)) l s ∧
      s.stops = [.ambiguous] ∧ s.holder = none ∧ s.dropped = some none ∧
      Submits sampleConfig l := by
  have hplay : (TransactionSystem.play (exec sampleConfig)
      (fun s a => undisturbed sampleConfig s a = true) ambiguousSchedule (start (some 0))).any
        (fun s => decide (s.stops = [.ambiguous] ∧ s.holder = none ∧ s.dropped = some none)) =
          true := by
    decide +kernel
  obtain ⟨s, hs, hq⟩ := (Option.any_eq_true _ _).mp hplay
  obtain ⟨hstops, hholder, hdropped⟩ := of_decide_eq_true hq
  obtain ⟨l, hl, -⟩ := TransactionSystem.Run.play .nil hs
  exact ⟨_, s, hl, hstops, hholder, hdropped, session_posts_once sampleConfig (some 0) _ s hl⟩

def droppedSchedule : List Action :=
  [.deliver 3, .call .settleDeadGateway, .acquire 0, .post, .dropHolder,
    .closeRecoveryEpisode .reclaimOpened, .call .settleOnExit, .acquire 0]

def anyAction (_ : System) (_ : Action) : Prop := True

instance (s : System) (a : Action) : Decidable (anyAction s a) :=
  inferInstanceAs (Decidable True)

/-- The first STOP was never answered, and the second one is posted. -/
theorem dropped_handler_posts_twice :
    ¬ ∀ c delivered l s, TransactionSystem.Run (exec c) anyAction (start delivered) l s →
      Submits c l := by
  intro hall
  have hplay : (TransactionSystem.play (exec sampleConfig) anyAction droppedSchedule
      (start (some 0))).any (fun s => decide (s.stops = [.lost]) &&
        decide (poster s .post = some (.call .settleOnExit, .stop)) &&
        match exec sampleConfig .post s with
        | .ok t => decide (t.stops = [.lost, .pending])
        | .error _ => false) = true := by
    decide
  obtain ⟨s, hs, hq⟩ := (Option.any_eq_true _ _).mp hplay
  rw [Bool.and_eq_true, Bool.and_eq_true, decide_eq_true_eq, decide_eq_true_eq] at hq
  obtain ⟨⟨hstops, hposter⟩, hq⟩ := hq
  split at hq
  · rename_i t ht
    obtain ⟨l, hl, -⟩ := TransactionSystem.Run.play .nil hs
    have hpost : anyAction s .post := trivial
    have hok := hall sampleConfig (some 0) _ t (.snoc hl hpost ht) ⟨s, .post, t⟩ (by simp) _ _
      hposter
    have hrefused := hok.once rfl .lost (by rw [hstops]; exact List.mem_singleton_self _)
    cases hrefused
  · cases hq

end SessionSettle
