import Dexdo.SessionSettleOnce

/-! # Closed for cause

A bail, a policy that fails closed, a dispute, a settle or a terminal observation closes a session
for good. -/
namespace SessionSettle

variable {c : Config} {s t : System} {a : Action} {l : History} {body : Body} {u : Session}
  {delivered : Option ℕ}

/-! ## Causes -/

def Body.cause : Body → Bool
  | .reclaimOpened _ | .cleanupUnopened _ => false
  | _ => true

def Body.isReclaim : Body → Bool
  | .reclaimOpened _ => true
  | _ => false

/-- A call that ends at its veto, a body other than a recovery under the lock, and every terminal
are causes to stay closed. -/
def causes (c : Config) (s : System) : Action → Bool
  | .call call => (enter c s.session s.delivered call).2.isNone
  | .acquire i => (s.waiting[i]?).any (·.body.cause)
  | .answer (.settlement _) => true
  | .markRecovered => true
  | _ => false

def caused (c : Config) (l : History) : Bool := l.any fun r => causes c r.pre r.act

/-- The answer cancels a reclaim whose own episode closed the session. -/
def reopens (s : System) (answer : Answer) : Bool :=
  decide (answer = .heartbeatChanged) && s.holder.any (·.task.body.isReclaim) &&
    decide (s.session.recoveryEpisode = some .reclaimOpened) &&
    s.session.recoveryClosedSession && !s.session.settled

def leavesOpen (u : Session) : Body → Bool
  | .settle => !u.settled && u.submitMayHaveLanded .reclaimOpened && !u.closed
  | .policyFailClosed => !u.settled && !u.dropBackupEnabled && !u.closed
  | _ => false

def Kept (hadCause : Bool) (s : System) : Action → Prop
  | .answer answer => ¬ (hadCause = true ∧ reopens s answer = true)
  | .acquire i => ∀ task, s.waiting[i]? = some task → leavesOpen s.session task.body = false
  | _ => True

/-- Once a cause has run the session is closed in every state reached, and what reopened it before
was the cancelled recovery that had closed it. -/
structure ClosedForCause (c : Config) (l : History) : Prop where
  closed : ∀ l₁ r l₂, l = l₁ ++ r :: l₂ → caused c (l₁ ++ [r]) = true →
    r.post.session.closed = true
  reopened : ∀ l₁ r l₂, l = l₁ ++ r :: l₂ → r.pre.session.closed = true →
    r.post.session.closed = false → caused c l₁ = false ∧
      ∃ answer, r.act = .answer answer ∧ reopens r.pre answer = true

/-! ## What a function leaves of the door -/

namespace Session

theorem recordTerminalAction_closed (action : SessionTerminalAction) :
    (u.recordTerminalAction action).closed = u.closed := by
  unfold recordTerminalAction
  split <;> rfl

theorem latchPossiblyLandedStop_closed (e : ChainError) :
    (u.latchPossiblyLandedStop e).closed = u.closed := by
  cases e <;> rfl

theorem latchPossiblyLandedStop_settled (e : ChainError) :
    (u.latchPossiblyLandedStop e).settled = u.settled := by
  cases e <;> rfl

theorem askReconciliation_closed (handlerOrigin : Bool) :
    (u.askReconciliation handlerOrigin).closed = u.closed := by
  cases handlerOrigin <;> rfl

theorem askReconciliation_settled (handlerOrigin : Bool) :
    (u.askReconciliation handlerOrigin).settled = u.settled := by
  cases handlerOrigin <;> rfl

theorem closeRecoveryEpisode_closed (kind : RecoveryKind) (h : u.closed = true) :
    (u.closeRecoveryEpisode kind).closed = true := by
  unfold closeRecoveryEpisode
  split
  · exact h
  · rfl

theorem closeRecoveryEpisode_settled (kind : RecoveryKind) :
    (u.closeRecoveryEpisode kind).settled = u.settled := by
  unfold closeRecoveryEpisode
  split <;> rfl

theorem beginRecoveryAttempt_closed (kind : RecoveryKind) (handlerOrigin : Bool)
    (h : u.closed = true) : (u.beginRecoveryAttempt kind handlerOrigin).1.closed = true := by
  unfold beginRecoveryAttempt
  dsimp only
  repeat' split
  all_goals first
    | exact h
    | rfl

theorem beginRecoveryAttempt_settled (kind : RecoveryKind) (handlerOrigin : Bool) :
    (u.beginRecoveryAttempt kind handlerOrigin).1.settled = u.settled := by
  unfold beginRecoveryAttempt
  dsimp only
  repeat' split
  all_goals rfl

theorem markRecovered_closed (h : u.settled = true → u.closed = true) :
    u.markRecovered.closed = true := by
  unfold markRecovered
  split
  · exact h ‹_›
  · rfl

end Session

theorem enter_closed (call : Call) (h : u.closed = true) :
    (enter c u delivered call).1.closed = true := by
  cases call <;> simp only [enter, unlessPreserved, unlessUndelivered] <;> repeat' split
  all_goals first
    | exact h
    | rfl

theorem unlessPreserved_vetoed (body : Body) : (unlessPreserved c u body).2 = none →
    (unlessPreserved c u body).1.closed = true := by
  unfold unlessPreserved
  split
  · exact fun _ => rfl
  · nofun

theorem unlessUndelivered_vetoed : (unlessUndelivered u delivered).2 = none →
    (unlessUndelivered u delivered).1.closed = true := by
  unfold unlessUndelivered
  split
  · exact fun _ => rfl
  · nofun

theorem enter_vetoed (call : Call) : (enter c u delivered call).2 = none →
    (enter c u delivered call).1.closed = true := by
  cases call <;> simp only [enter] <;> try split
  all_goals first
    | exact unlessPreserved_vetoed _
    | exact unlessUndelivered_vetoed
    | exact fun _ => rfl
    | (intros; contradiction)

theorem enter_settled (call : Call) : (enter c u delivered call).1.settled = u.settled :=
  (enter_same call).settled

theorem begin_closed (body : Body) (h : u.closed = true) : (begin c u body).1.closed = true := by
  unfold begin
  split
  · exact h
  · cases body with
    | settle =>
      dsimp only
      split
      · exact h
      · rfl
    | verificationBail =>
      dsimp only
      split <;> rfl
    | reclaimOpened handlerOrigin => exact Session.beginRecoveryAttempt_closed _ _ h
    | cleanupUnopened handlerOrigin => exact Session.beginRecoveryAttempt_closed _ _ h
    | policyFailClosed =>
      dsimp only
      split
      · rfl
      · exact h
    | markRecovered => exact Session.markRecovered_closed fun _ => h
    | policyDispute | policyUnsupported | failClosedBeforeServing => rfl

/-- A cause under the lock leaves the session closed, unless it passes an open one by. -/
theorem begin_cause (hcause : body.cause = true) (hok : u.settled = true → u.closed = true) :
    (begin c u body).1.closed = !leavesOpen u body := by
  cases hclosed : u.closed with
  | true =>
    rw [begin_closed body hclosed]
    cases body <;> simp [leavesOpen, hclosed]
  | false =>
    have hopen : u.settled = false := by
      by_contra hs
      rw [hok (by simpa using hs)] at hclosed
      cases hclosed
    unfold begin
    rw [if_neg (by simp [hopen])]
    cases body with
    | settle =>
      cases hl : u.submitMayHaveLanded .reclaimOpened <;>
        simp [leavesOpen, hl, hopen, hclosed, Session.closeLocalApi]
    | policyFailClosed =>
      cases hb : u.dropBackupEnabled <;>
        simp [leavesOpen, hb, hopen, hclosed, Session.closeLocalApi]
    | verificationBail =>
      dsimp only
      split <;> rfl
    | markRecovered =>
      exact Session.markRecovered_closed hok
    | policyDispute | policyUnsupported | failClosedBeforeServing => rfl
    | reclaimOpened handlerOrigin => cases hcause
    | cleanupUnopened handlerOrigin => cases hcause

theorem begin_settles (body : Body) (hsettled : (begin c u body).1.settled = true) :
    u.settled = true ∨ (begin c u body).1.closed = true := by
  revert hsettled
  unfold begin
  split
  · exact .inl
  · cases body with
    | settle =>
      dsimp only
      split
      · exact .inl
      · exact .inl
    | verificationBail =>
      dsimp only
      split <;> exact .inl
    | reclaimOpened handlerOrigin =>
      intro h
      exact .inl (Session.beginRecoveryAttempt_settled .reclaimOpened handlerOrigin ▸ h)
    | cleanupUnopened handlerOrigin =>
      intro h
      exact .inl (Session.beginRecoveryAttempt_settled .cleanupUnopened handlerOrigin ▸ h)
    | policyFailClosed =>
      dsimp only
      split <;> exact .inl
    | markRecovered =>
      rename_i hopen
      exact fun _ => .inr (Session.markRecovered_closed fun h => absurd h hopen)
    | policyDispute | policyUnsupported | failClosedBeforeServing => exact .inl

theorem settleAs_closed (action : SessionTerminalAction) : (u.settleAs action).closed = u.closed :=
  Session.recordTerminalAction_closed action

/-- An answer other than a changed heartbeat leaves a closed session closed. -/
theorem resume_closed (body : Body) {answer : Answer} (ha : answer ≠ .heartbeatChanged)
    (h : u.closed = true) : (resume c u body answer).closed = true := by
  cases answer with
  | heartbeatChanged => exact absurd rfl ha
  | settlement r =>
    cases body with
    | verificationBail =>
      simp only [resume]
      split
      · exact (settleAs_closed _).trans h
      · exact (settleAs_closed _).trans h
      · exact h
    | settle => exact (settleAs_closed _).trans h
    | policyDispute => exact (settleAs_closed _).trans h
    | reclaimOpened handlerOrigin => exact settleAs_closed _
    | cleanupUnopened handlerOrigin => exact settleAs_closed _
    | policyUnsupported | policyFailClosed | markRecovered | failClosedBeforeServing => exact h
  | failed e =>
    cases body with
    | settle => exact (Session.latchPossiblyLandedStop_closed e).trans h
    | verificationBail =>
      simp only [resume]
      split
      · exact (Session.latchPossiblyLandedStop_closed e).trans h
      · exact h
      · exact h
    | reclaimOpened handlerOrigin =>
      cases e with
      | ambiguousSubmit => exact (Session.latchPossiblyLandedStop_closed _).trans h
      | definite => exact (Session.askReconciliation_closed handlerOrigin).trans h
    | cleanupUnopened handlerOrigin =>
      exact (Session.askReconciliation_closed handlerOrigin).trans h
    | policyDispute | policyUnsupported | policyFailClosed | markRecovered
    | failClosedBeforeServing => exact h

theorem resume_recovered {r : Settlement} (h : body.cause = false) :
    (resume c u body (.settlement r)).closed = true := by
  cases body with
  | reclaimOpened handlerOrigin => exact settleAs_closed _
  | cleanupUnopened handlerOrigin => exact settleAs_closed _
  | _ => cases h

theorem resume_settles (body : Body) {answer : Answer} (ha : ∀ r, answer ≠ .settlement r) :
    (resume c u body answer).settled = u.settled := by
  cases answer with
  | settlement r => exact absurd rfl (ha r)
  | heartbeatChanged =>
    cases body with
    | reclaimOpened handlerOrigin =>
      simp only [resume, Session.cancelRecoveryWithoutPost]
      split <;> rfl
    | _ => rfl
  | failed e =>
    cases body with
    | settle => exact Session.latchPossiblyLandedStop_settled e
    | verificationBail =>
      simp only [resume]
      split
      · exact Session.latchPossiblyLandedStop_settled e
      · rfl
      · rfl
    | reclaimOpened handlerOrigin =>
      cases e with
      | ambiguousSubmit => exact Session.latchPossiblyLandedStop_settled _
      | definite => exact Session.askReconciliation_settled handlerOrigin
    | cleanupUnopened handlerOrigin => exact Session.askReconciliation_settled handlerOrigin
    | _ => rfl

theorem resume_cancelled (body : Body) : (resume c u body .heartbeatChanged).closed =
    (u.closed && !(body.isReclaim && decide (u.recoveryEpisode = some .reclaimOpened) &&
      u.recoveryClosedSession && !u.settled)) := by
  cases body with
  | reclaimOpened handlerOrigin =>
    simp only [resume, Session.cancelRecoveryWithoutPost, Body.isReclaim, Bool.true_and]
    split
    · next hepisode => simp [hepisode]
    · next hepisode => simp [hepisode]
  | _ => simp [resume, Body.isReclaim]

theorem onDrop_closed (h : u.closed = true) : (onDrop c u delivered).1.closed = true := by
  unfold onDrop
  split
  · exact h
  · split
    · rfl
    · exact h

/-! ## Runs -/

@[simp] theorem caused_nil : caused c [] = false := rfl

theorem caused_snoc (r : TransactionSystem.Record System Action) :
    caused c (l ++ [r]) = (caused c l || causes c r.pre r.act) := by
  simp [caused]

/-- What a kept history leaves: a settled session is closed, a call that is no recovery holds the
lock after a cause, and after a cause the session is closed. -/
structure Shut (c : Config) (hadCause : Bool) (s : System) : Prop where
  settled : s.session.settled = true → s.session.closed = true
  holder : ∀ h, s.holder = some h → h.task.body.cause = true → hadCause = true
  closed : hadCause = true → s.session.closed = true

theorem shut_start (c : Config) (delivered : Option ℕ) : Shut c false (start delivered) :=
  ⟨nofun, nofun, nofun⟩

variable {hadCause : Bool}

/-- A closed session is reopened by a cancelled recovery alone. -/
theorem Step.closed_mono (hstep : Step c s a t) (h : s.session.closed = true)
    (hok : s.session.settled = true → s.session.closed = true) :
    t.session.closed = true ∨ ∃ answer, a = .answer answer ∧ reopens s answer = true := by
  cases hstep with
  | called call hd => exact .inl (enter_closed call h)
  | acquired hd htask hfree => exact .inl (begin_closed _ h)
  | left i hd => exact .inl h
  | posted hd hh hp => exact .inl h
  | lost hd hh => exact .inl h
  | recovered hd => exact .inl (Session.markRecovered_closed hok)
  | closed kind hd => exact .inl (Session.closeRecoveryEpisode_closed kind h)
  | taken hd => exact .inl h
  | delivered tokens hd => exact .inl h
  | dropped runtime hd hw hh => exact .inl (onDrop_closed h)
  | backup hd => exact .inl h
  | unsent outcome hd => exact .inl h
  | sent outcome hd => exact .inl h
  | @answered h' answer hd hh hmay =>
    by_cases hanswer : answer = .heartbeatChanged
    · subst hanswer
      have hclosed := resume_cancelled (c := c) (u := s.session) h'.task.body
      rw [h, Bool.true_and] at hclosed
      cases hre : reopens s .heartbeatChanged with
      | true => exact .inr ⟨_, rfl, hre⟩
      | false =>
        refine .inl (hclosed.trans ?_)
        simp only [reopens, hh, Option.any_some, decide_true, Bool.true_and] at hre
        rw [hre]
        rfl
    · exact .inl (resume_closed _ hanswer h)

theorem Step.reopened {answer : Answer} (hstep : Step c s (.answer answer) t)
    (hre : reopens s answer = true) : t.session.closed = false ∧ causes c s (.answer answer) = false := by
  cases hstep with
  | @answered h' _ hd hh hmay =>
    simp only [reopens, hh, Option.any_some, Bool.and_eq_true, decide_eq_true_eq,
      Bool.not_eq_true'] at hre
    obtain ⟨⟨⟨⟨rfl, hbody⟩, hepisode⟩, hflag⟩, hopen⟩ := hre
    refine ⟨(resume_cancelled (c := c) h'.task.body).trans ?_, rfl⟩
    rw [hbody, hflag, hopen, decide_eq_true hepisode]
    exact Bool.and_false _

theorem leavesOpen_recovery (h : body.cause = false) : leavesOpen u body = false := by
  cases body with
  | reclaimOpened handlerOrigin => rfl
  | cleanupUnopened handlerOrigin => rfl
  | _ => cases h

/-- After a cause the step leaves the session closed just where it is kept. -/
theorem Shut.closed_iff (h : Shut c hadCause s) (hstep : Step c s a t) :
    ((hadCause || causes c s a) = true → t.session.closed = true) ↔ Kept hadCause s a := by
  have hmono := fun hc => hstep.closed_mono (h.closed hc) h.settled
  cases hstep with
  | called call hd =>
    refine ⟨fun _ => trivial, fun _ hc => ?_⟩
    rcases Bool.or_eq_true_iff.mp hc with hc | hc
    · exact enter_closed call (h.closed hc)
    · exact enter_vetoed call (Option.isNone_iff_eq_none.mp hc)
  | @acquired i task hd htask hfree =>
    have hkept : Kept hadCause s (.acquire i) ↔ leavesOpen s.session task.body = false := by
      simp [Kept, htask]
    have hcauses : causes c s (.acquire i) = task.body.cause := by
      simp [causes, htask]
    rw [hkept, hcauses]
    cases hcause : task.body.cause with
    | true =>
      have hclosed := begin_cause (c := c) hcause h.settled
      rw [Bool.or_true]
      constructor
      · intro hc
        simpa using hclosed.symm.trans (hc rfl)
      · intro hleft _
        exact hclosed.trans (by rw [hleft]; rfl)
    | false =>
      refine ⟨fun _ => leavesOpen_recovery hcause, fun _ hc => ?_⟩
      rw [Bool.or_false] at hc
      exact begin_closed _ (h.closed hc)
  | @answered h' answer hd hh hmay =>
    have hstep : Step c s (.answer answer) (s.answered c h' answer) := .answered hd hh hmay
    cases hre : reopens s answer with
    | true =>
      obtain ⟨hopen, hno⟩ := hstep.reopened hre
      rw [hno, Bool.or_false]
      constructor
      · intro hc hboth
        rw [hc hboth.1] at hopen
        cases hopen
      · intro hkept hc
        exact absurd ⟨hc, hre⟩ hkept
    | false =>
      refine ⟨fun _ hboth => ?_, fun _ hc => ?_⟩
      · rw [hre] at hboth
        cases hboth.2
      · rcases Bool.or_eq_true_iff.mp hc with hc | hc
        · rcases hmono hc with hclosed | ⟨other, heq, hother⟩
          · exact hclosed
          · cases heq
            rw [hre] at hother
            cases hother
        · cases answer with
          | settlement r =>
            cases hcause : h'.task.body.cause with
            | true => exact resume_closed _ nofun (h.closed (h.holder h' hh hcause))
            | false => exact resume_recovered hcause
          | heartbeatChanged => cases hc
          | failed e => cases hc
  | recovered hd =>
    exact ⟨fun _ => trivial, fun _ _ => Session.markRecovered_closed h.settled⟩
  | left | posted | lost | closed | taken | delivered | dropped | backup | unsent | sent =>
    refine ⟨fun _ => trivial, fun _ hc => ?_⟩
    rcases Bool.or_eq_true_iff.mp hc with hc | hc
    · rcases hmono hc with hclosed | ⟨_, heq, _⟩
      · exact hclosed
      · cases heq
    · cases hc

/-- A step that settles the session is a cause or leaves it closed. -/
theorem Shut.settled_step (h : Shut c hadCause s) (hstep : Step c s a t)
    (hcause : causes c s a = true → t.session.closed = true) (hsettled : t.session.settled = true) :
    t.session.closed = true := by
  have hkeep (hs : s.session.settled = true) : t.session.closed = true := by
    rcases hstep.closed_mono (h.settled hs) h.settled with hclosed | ⟨answer, -, hre⟩
    · exact hclosed
    · simp [reopens, hs] at hre
  cases hstep with
  | called call hd => exact hkeep ((enter_settled call).symm.trans hsettled)
  | acquired hd htask hfree =>
    rcases begin_settles _ hsettled with hs | hclosed
    · exact hkeep hs
    · exact hclosed
  | @answered h' answer hd hh hmay =>
    by_cases hterminal : ∃ r, answer = .settlement r
    · obtain ⟨r, rfl⟩ := hterminal
      exact hcause rfl
    · have hsame := resume_settles (c := c) (u := s.session) h'.task.body (not_exists.mp hterminal)
      exact hkeep (hsame.symm.trans hsettled)
  | recovered hd => exact Session.markRecovered_closed h.settled
  | closed kind hd => exact hkeep ((Session.closeRecoveryEpisode_settled kind).symm.trans hsettled)
  | dropped runtime hd hw hh =>
    apply hkeep
    revert hsettled
    simp only [System.drops, onDrop]
    split
    · exact id
    · split
      · exact id
      · exact id
  | left | posted | lost | taken | delivered | backup | unsent | sent => exact hkeep hsettled

theorem Shut.holder_step (h : Shut c hadCause s) (hstep : Step c s a t) :
    ∀ h', t.holder = some h' → h'.task.body.cause = true → (hadCause || causes c s a) = true := by
  intro h' hh' hcause
  have hold (hh : s.holder = some h') : (hadCause || causes c s a) = true :=
    Bool.or_eq_true_iff.mpr (.inl (h.holder h' hh hcause))
  cases hstep with
  | @acquired i task hd htask hfree =>
    obtain ⟨_, -, rfl⟩ := Option.map_eq_some_iff.mp hh'
    have hcauses : causes c s (.acquire i) = true := by simpa [causes, htask] using hcause
    exact Bool.or_eq_true_iff.mpr (.inr hcauses)
  | @posted h'' hd hh hp =>
    cases hh'
    exact Bool.or_eq_true_iff.mpr (.inl (h.holder h'' hh hcause))
  | answered => cases hh'
  | lost => cases hh'
  | called | left | recovered | closed | taken | delivered | dropped | backup | unsent | sent =>
    exact hold hh'

theorem Shut.step (h : Shut c hadCause s) (hstep : Step c s a t)
    (hclosed : (hadCause || causes c s a) = true → t.session.closed = true) :
    Shut c (hadCause || causes c s a) t :=
  ⟨h.settled_step hstep fun hc => hclosed (Bool.or_eq_true_iff.mpr (.inr hc)),
    h.holder_step hstep, hclosed⟩

def KeptRun (c : Config) (l : History) : Prop :=
  ∀ l₁ r l₂, l = l₁ ++ r :: l₂ → Kept (caused c l₁) r.pre r.act

def StaysClosed (c : Config) (l : History) : Prop :=
  ∀ l₁ r l₂, l = l₁ ++ r :: l₂ → caused c (l₁ ++ [r]) = true → r.post.session.closed = true

theorem forall_split_snoc {α : Type} {P : List α → α → Prop} {l : List α} {x : α} :
    (∀ l₁ r l₂, l ++ [x] = l₁ ++ r :: l₂ → P l₁ r) ↔
      (∀ l₁ r l₂, l = l₁ ++ r :: l₂ → P l₁ r) ∧ P l x := by
  constructor
  · intro h
    refine ⟨?_, h l x [] rfl⟩
    rintro l₁ r l₂ rfl
    exact h l₁ r (l₂ ++ [x]) (by simp)
  · rintro ⟨h, hx⟩ l₁ r l₂ hsplit
    rcases List.eq_nil_or_concat l₂ with rfl | ⟨l₃, y, rfl⟩
    · obtain ⟨rfl, heq⟩ := List.append_inj' hsplit rfl
      cases heq
      exact hx
    · have hassoc : l ++ [x] = (l₁ ++ r :: l₃) ++ [y] := by simpa using hsplit
      exact h l₁ r l₃ (List.append_inj' hassoc rfl).1

/-- Along a run the session stays closed after a cause just where every step is kept. -/
theorem staysClosed_iff {Φ : System → Action → Prop}
    (hrun : TransactionSystem.Run (exec c) Φ (start delivered) l s) :
    (StaysClosed c l ↔ KeptRun c l) ∧ (StaysClosed c l → Shut c (caused c l) s) := by
  induction hrun with
  | nil =>
    refine ⟨⟨fun _ => ?_, fun _ => ?_⟩, fun _ => shut_start c delivered⟩
    all_goals
      intro l₁ r l₂ hsplit
      simp at hsplit
  | @snoc l s a t hrun hΦ he ih =>
    obtain ⟨hiff, hshut⟩ := ih
    have hstep := exec_step he
    have hlast : StaysClosed c (l ++ [⟨s, a, t⟩]) ↔ StaysClosed c l ∧
        ((caused c l || causes c s a) = true → t.session.closed = true) := by
      unfold StaysClosed
      rw [forall_split_snoc (P := fun l₁ r => caused c (l₁ ++ [r]) = true →
        r.post.session.closed = true), caused_snoc]
    have hkept : KeptRun c (l ++ [⟨s, a, t⟩]) ↔ KeptRun c l ∧ Kept (caused c l) s a := by
      unfold KeptRun
      rw [forall_split_snoc (P := fun l₁ r => Kept (caused c l₁) r.pre r.act)]
    refine ⟨?_, ?_⟩
    · rw [hlast, hkept, ← hiff]
      exact and_congr_right fun hl => (hshut hl).closed_iff hstep
    · intro hl
      obtain ⟨hl, hc⟩ := hlast.mp hl
      rw [caused_snoc]
      exact (hshut hl).step hstep hc

/-- A session is closed for cause along a run, and reopened by the recovery that closed it alone,
just where no recovery that had closed it first is cancelled after a cause and no cause passes an
open session by. -/
theorem closed_for_cause_iff (c : Config) (delivered : Option ℕ) (l : History) (s : System)
    (hrun : TransactionSystem.Run (exec c) anyAction (start delivered) l s) :
    ClosedForCause c l ↔ KeptRun c l := by
  rw [← (staysClosed_iff hrun).1]
  constructor
  · exact fun h => h.closed
  · intro h
    refine ⟨h, ?_⟩
    intro l₁ r l₂ hsplit hpre hpost
    obtain ⟨hbefore, -, he⟩ := hrun.split hsplit
    have hstays : StaysClosed c l₁ := by
      rintro k₁ q k₂ rfl
      exact h k₁ q (k₂ ++ r :: l₂) (by rw [hsplit]; simp)
    have hshut := (staysClosed_iff hbefore).2 hstays
    refine ⟨?_, ?_⟩
    · by_contra hcaused
      have hclosed := h l₁ r l₂ hsplit (by rw [caused_snoc]; simp [Bool.not_eq_false _ ▸ hcaused])
      rw [hpost] at hclosed
      cases hclosed
    · rcases (exec_step he).closed_mono hpre hshut.settled with hclosed | hre
      · rw [hpost] at hclosed
        cases hclosed
      · exact hre

/-! ## Two runs -/

def settledSchedule : List Action :=
  [.closeRecoveryEpisode .reclaimOpened, .call (.recoverReclaimOpened false), .acquire 0,
    .answer .heartbeatChanged, .call .settle, .acquire 0, .post]

theorem closed_for_cause_sample : ∃ l s,
    TransactionSystem.Run (exec sampleConfig) anyAction (start (some 3)) l s ∧
      s.session.closed = true ∧ (ClosedForCause sampleConfig l ↔ KeptRun sampleConfig l) := by
  have hplay : (TransactionSystem.play (exec sampleConfig) anyAction settledSchedule
      (start (some 3))).any (fun s => s.session.closed) = true := by
    decide
  obtain ⟨s, hs, hclosed⟩ := (Option.any_eq_true _ _).mp hplay
  obtain ⟨l, hl, -⟩ := TransactionSystem.Run.play .nil hs
  exact ⟨_, s, hl, hclosed, closed_for_cause_iff sampleConfig (some 3) _ s hl⟩

def blacklistConfig : Config where
  failurePolicy := ⟨.stopAndBlacklist, .retryThenReclaim, .reclaim, .acceptDeliveredThenReclaim⟩
  lifetime := .settleOnExit

def bailedSchedule : List Action :=
  [.closeRecoveryEpisode .reclaimOpened, .call .settleVerificationBail]

def resumedSchedule : List Action :=
  [.call (.recoverReclaimOpened false), .acquire 0, .answer .heartbeatChanged]

/-- The cancelled reclaim reopens the session that bailed. -/
theorem bailed_session_reopens : ¬ ∀ c delivered l s,
    TransactionSystem.Run (exec c) anyAction (start delivered) l s → ClosedForCause c l := by
  intro hall
  have hplay : (TransactionSystem.play (exec blacklistConfig) anyAction bailedSchedule
      (start (some 3))).any (fun s => causes blacklistConfig s (.acquire 0) &&
        match exec blacklistConfig (.acquire 0) s with
        | .ok t => (TransactionSystem.play (exec blacklistConfig) anyAction resumedSchedule t).any
            fun u => !u.session.closed
        | .error _ => false) = true := by
    decide
  obtain ⟨s, hs, hq⟩ := (Option.any_eq_true _ _).mp hplay
  obtain ⟨hcause, hq⟩ := Bool.and_eq_true_iff.mp hq
  split at hq
  · next t ht =>
    obtain ⟨u, hu, hopen⟩ := (Option.any_eq_true _ _).mp hq
    obtain ⟨l, hl, -⟩ := TransactionSystem.Run.play .nil hs
    have hbail : TransactionSystem.Run (exec blacklistConfig) anyAction (start (some 3)) _ t :=
      .snoc hl trivial ht
    obtain ⟨k, hrun, -⟩ := TransactionSystem.Run.play hbail hu
    have hshut := (staysClosed_iff hrun).2 (hall _ _ _ _ hrun).closed
    have hclosed := hshut.closed (by simp [caused, hcause])
    rw [hclosed] at hopen
    cases hopen
  · cases hq

end SessionSettle
