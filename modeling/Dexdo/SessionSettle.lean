import Mathlib.Tactic.Common

/-! # The settlement flags of a buyer session

`SessionSettle` of `crates/dexdo/src/buyer/api/mod.rs` between two await points. An entry point
runs up to the lock (`enter`), from the lock to its chain call (`begin`), and from the answer of
the chain to its return (`resume`). Left out: log lines and the texts of reasons. -/
namespace SessionSettle

/-! ## Configuration -/

inductive VerificationBailAction where
  | stop
  | dispute
  | stopAndBlacklist
  deriving DecidableEq, Repr

inductive DeadGatewayAction where
  | retryThenReclaim
  | nextSeller
  | failClosed
  deriving DecidableEq, Repr

inductive EmptyStreamAction where
  | reclaim
  | nextSeller
  | failClosed
  deriving DecidableEq, Repr

inductive SellerStallsMidStreamAction where
  | acceptDeliveredThenReclaim
  | dispute
  deriving DecidableEq, Repr

structure BuyerApiFailurePolicy where
  verificationBail : VerificationBailAction
  deadGateway : DeadGatewayAction
  emptyStream : EmptyStreamAction
  sellerStallsMidStream : SellerStallsMidStreamAction
  deriving DecidableEq, Repr

inductive SessionLifetimePolicy where
  | settleOnExit
  | preserve
  deriving DecidableEq, Repr

structure Config where
  failurePolicy : BuyerApiFailurePolicy
  lifetime : SessionLifetimePolicy
  deriving DecidableEq, Repr

/-! ## What the chain answers -/

inductive BuyerStopTerminalFact where
  | submittedStop
  | alreadyClosed
  | unknownCloser
  deriving DecidableEq, Repr

inductive Settlement where
  | buyerStopTerminal (fact : BuyerStopTerminalFact)
  | other
  deriving DecidableEq, Repr

/-- Of `ChainError` the session only asks whether it is `AmbiguousSubmit`. -/
inductive ChainError where
  | ambiguousSubmit
  | definite
  deriving DecidableEq, Repr

inductive Answer where
  | settlement (settlement : Settlement)
  | heartbeatChanged
  | failed (error : ChainError)
  deriving DecidableEq, Repr

inductive ChainCall where
  | stop
  | stopIfHeartbeat
  | dispute
  | cleanupUnopened
  deriving DecidableEq, Repr

def ChainCall.isStop : ChainCall → Bool
  | .stop | .stopIfHeartbeat => true
  | .dispute | .cleanupUnopened => false

/-! ## The flags -/

inductive RecoveryKind where
  | cleanupUnopened
  | reclaimOpened
  deriving DecidableEq, Repr

inductive SessionTerminalAction where
  | streamStop
  | streamDispute
  | streamCleanup
  | observedTerminal
  | unknownCloser
  deriving DecidableEq, Repr

def SessionTerminalAction.fromStopSettlement : Settlement → SessionTerminalAction
  | .buyerStopTerminal .submittedStop => .streamStop
  | .buyerStopTerminal .alreadyClosed => .observedTerminal
  | .buyerStopTerminal .unknownCloser => .unknownCloser
  | .other => .streamStop

structure Session where
  settled : Bool
  closed : Bool
  recoveryEpisode : Option RecoveryKind
  recoveryClosedSession : Bool
  handlerRecoveryReconciliation : Bool
  recoverySubmitMayHaveLanded : Bool
  dropBackupEnabled : Bool
  terminalAction : Option SessionTerminalAction
  deriving DecidableEq, Repr

def Session.new : Session where
  settled := false
  closed := false
  recoveryEpisode := none
  recoveryClosedSession := false
  handlerRecoveryReconciliation := false
  recoverySubmitMayHaveLanded := false
  dropBackupEnabled := true
  terminalAction := none

namespace Session

variable (s : Session)

def closeLocalApi : Session := { s with closed := true }

def disableDropBackup : Session := { s with dropBackupEnabled := false }

/-- The local API closes, and it was the recovery that closed it where it was open before and
`latched` says so. -/
def closeForRecovery (latched : Bool) : Session :=
  { s with
    closed := true
    recoveryClosedSession := s.recoveryClosedSession || (!s.closed && latched) }

def recordTerminalAction (action : SessionTerminalAction) : Session :=
  if action = .observedTerminal then
    { s with terminalAction := s.terminalAction <|> some action }
  else { s with terminalAction := some action }

def submitMayHaveLanded (kind : RecoveryKind) : Bool :=
  s.recoveryEpisode == some kind && s.recoverySubmitMayHaveLanded

def takeHandlerRecoveryReconciliation : Session :=
  { s with handlerRecoveryReconciliation := false }

def latchPossiblyLandedStop : ChainError → Session
  | .ambiguousSubmit =>
    { s with
      recoveryEpisode := some .reclaimOpened
      recoverySubmitMayHaveLanded := true
      handlerRecoveryReconciliation := true
      dropBackupEnabled := false }
  | .definite => s

def closeRecoveryEpisode (kind : RecoveryKind) : Session :=
  if s.settled then s
  else
    let episode := s.recoveryEpisode <|> some kind
    { s.closeForRecovery (episode == some kind) with recoveryEpisode := episode }

/-- With whether the attempt goes on to its chain call. -/
def beginRecoveryAttempt (kind : RecoveryKind) (handlerOrigin : Bool) : Session × Bool :=
  let started := s.recoveryEpisode.isNone
  let s := { s with recoveryEpisode := s.recoveryEpisode <|> some kind }
  if s.recoveryEpisode ≠ some kind then (s, false)
  else if s.submitMayHaveLanded kind then (s, false)
  else if !handlerOrigin && !started && s.handlerRecoveryReconciliation then (s, false)
  else if handlerOrigin then (s.closeForRecovery true, started)
  else (s, true)

def cancelRecoveryWithoutPost (kind : RecoveryKind) : Session :=
  if s.recoveryEpisode = some kind then
    { s with
      recoveryEpisode := none
      handlerRecoveryReconciliation := false
      recoverySubmitMayHaveLanded := false
      recoveryClosedSession := false
      closed := s.closed && !(s.recoveryClosedSession && !s.settled) }
  else s

def resolved : Session :=
  { s with
    settled := true
    recoveryClosedSession := false
    handlerRecoveryReconciliation := false
    recoverySubmitMayHaveLanded := false }

/-- `mark_recovered`, and `mark_recovered_serialized` under the lock. -/
def markRecovered : Session :=
  if s.settled then s else (s.recordTerminalAction .observedTerminal).resolved.closeLocalApi

def settleAs (action : SessionTerminalAction) : Session :=
  { s.recordTerminalAction action with settled := true }

end Session

/-! ## The entry points -/

inductive Call where
  | settle
  | settleOnExit
  | replaceActive
  | settleVerificationBail
  | settleDeadGateway
  | settleEmptyStream
  | settleSellerStallsMidStream
  | recoverReclaimOpened (handlerOrigin : Bool)
  | recoverCleanupUnopened (handlerOrigin : Bool)
  | markRecoveredSerialized
  | failClosedBeforeServing
  deriving DecidableEq, Repr

/-- What an entry point does under the lock. -/
inductive Body where
  | settle
  | verificationBail
  | reclaimOpened (handlerOrigin : Bool)
  | cleanupUnopened (handlerOrigin : Bool)
  | policyDispute
  | policyUnsupported
  | policyFailClosed
  | markRecovered
  | failClosedBeforeServing
  deriving DecidableEq, Repr

/-- `delivered` is the counter of the bound route, if one is bound. -/
def implicitTerminalLacksDelivery (delivered : Option ℕ) : Bool := delivered == some 0

def Session.vetoed (s : Session) : Session := s.closeLocalApi.disableDropBackup

variable (c : Config) (s : Session)

def unlessPreserved (body : Body) : Session × Option Body :=
  if c.lifetime = .preserve then (s.vetoed, none) else (s, some body)

def unlessUndelivered (delivered : Option ℕ) : Session × Option Body :=
  if implicitTerminalLacksDelivery delivered then (s.vetoed, none) else (s, some .settle)

/-- From the call to the lock. -/
def enter (delivered : Option ℕ) : Call → Session × Option Body
  | .settle => (s, some .settle)
  | .settleOnExit =>
    match c.lifetime with
    | .settleOnExit => unlessUndelivered s delivered
    | .preserve => (s.vetoed, none)
  | .replaceActive => unlessUndelivered s delivered
  | .settleVerificationBail => unlessPreserved c s .verificationBail
  | .settleDeadGateway =>
    match c.failurePolicy.deadGateway with
    | .retryThenReclaim => unlessPreserved c s (.reclaimOpened true)
    | .nextSeller => (s, some .policyUnsupported)
    | .failClosed => (s, some .policyFailClosed)
  | .settleEmptyStream =>
    match c.failurePolicy.emptyStream with
    | .reclaim => unlessPreserved c s (.reclaimOpened true)
    | .nextSeller => (s, some .policyUnsupported)
    | .failClosed => (s, some .policyFailClosed)
  | .settleSellerStallsMidStream =>
    match c.failurePolicy.sellerStallsMidStream with
    | .acceptDeliveredThenReclaim => unlessPreserved c s (.reclaimOpened true)
    | .dispute => unlessPreserved c s .policyDispute
  | .recoverReclaimOpened handlerOrigin => unlessPreserved c s (.reclaimOpened handlerOrigin)
  | .recoverCleanupUnopened handlerOrigin => unlessPreserved c s (.cleanupUnopened handlerOrigin)
  | .markRecoveredSerialized => (s, some .markRecovered)
  | .failClosedBeforeServing => (s, some .failClosedBeforeServing)

def attemptRecovery (kind : RecoveryKind) (handlerOrigin : Bool) (call : ChainCall) :
    Session × Option ChainCall :=
  let (s, goesOn) := s.beginRecoveryAttempt kind handlerOrigin
  (s, if goesOn then some call else none)

/-- From the lock to the chain call; without one the lock is released. -/
def begin (body : Body) : Session × Option ChainCall :=
  if s.settled then (s, none)
  else match body with
  | .settle =>
    if s.submitMayHaveLanded .reclaimOpened then (s, none) else (s.closeLocalApi, some .stop)
  | .verificationBail =>
    match c.failurePolicy.verificationBail with
    | .stop =>
      (s.closeLocalApi, if s.submitMayHaveLanded .reclaimOpened then none else some .stop)
    | .dispute => (s.closeLocalApi, some .dispute)
    | .stopAndBlacklist => (s.closeLocalApi, none)
  | .reclaimOpened handlerOrigin =>
    attemptRecovery s .reclaimOpened handlerOrigin .stopIfHeartbeat
  | .cleanupUnopened handlerOrigin =>
    attemptRecovery s .cleanupUnopened handlerOrigin .cleanupUnopened
  | .policyDispute => (s.closeLocalApi, some .dispute)
  | .policyUnsupported => (s.closeLocalApi, none)
  | .policyFailClosed => if s.dropBackupEnabled then (s.closeLocalApi, none) else (s, none)
  | .markRecovered => (s.markRecovered, none)
  | .failClosedBeforeServing => (s.closeLocalApi, none)

def Session.askReconciliation (s : Session) (handlerOrigin : Bool) : Session :=
  if handlerOrigin then { s with handlerRecoveryReconciliation := true } else s

/-- From the answer of the chain to the return. -/
def resume : Body → Answer → Session
  | .settle, .settlement r => (s.settleAs (.fromStopSettlement r)).resolved
  | .settle, .failed e => (s.latchPossiblyLandedStop e).disableDropBackup
  | .verificationBail, .settlement r =>
    match c.failurePolicy.verificationBail with
    | .stop => s.settleAs (.fromStopSettlement r)
    | .dispute => s.settleAs .streamDispute
    | .stopAndBlacklist => s
  | .verificationBail, .failed e =>
    match c.failurePolicy.verificationBail with
    | .stop => s.latchPossiblyLandedStop e
    | .dispute => s
    | .stopAndBlacklist => s
  | .reclaimOpened _, .settlement r =>
    (s.closeLocalApi.settleAs (.fromStopSettlement r)).resolved
  | .reclaimOpened _, .heartbeatChanged => s.cancelRecoveryWithoutPost .reclaimOpened
  | .reclaimOpened _, .failed .ambiguousSubmit => s.latchPossiblyLandedStop .ambiguousSubmit
  | .reclaimOpened handlerOrigin, .failed .definite => s.askReconciliation handlerOrigin
  | .cleanupUnopened _, .settlement _ => (s.closeLocalApi.settleAs .streamCleanup).resolved
  | .cleanupUnopened handlerOrigin, .failed _ => s.askReconciliation handlerOrigin
  | .policyDispute, .settlement _ => s.settleAs .streamDispute
  | _, _ => s

/-- `Drop for SessionSettle`, with whether it spawns its backup STOP. -/
def onDrop (delivered : Option ℕ) : Session × Bool :=
  if c.lifetime = .preserve || s.settled || !s.dropBackupEnabled ||
      s.recoverySubmitMayHaveLanded then (s, false)
  else if implicitTerminalLacksDelivery delivered then (s.vetoed, false)
  else (s, true)

/-! ## What a function leaves of the latch -/

namespace Session

variable {c : Config} {s : Session}

@[simp] theorem recordTerminalAction_settled (action : SessionTerminalAction) :
    (s.recordTerminalAction action).settled = s.settled := by
  unfold recordTerminalAction
  split <;> rfl

@[simp] theorem recordTerminalAction_landed (action : SessionTerminalAction) :
    (s.recordTerminalAction action).recoverySubmitMayHaveLanded =
      s.recoverySubmitMayHaveLanded := by
  unfold recordTerminalAction
  split <;> rfl

@[simp] theorem recordTerminalAction_episode (action : SessionTerminalAction) :
    (s.recordTerminalAction action).recoveryEpisode = s.recoveryEpisode := by
  unfold recordTerminalAction
  split <;> rfl

def Latched (s : Session) : Prop := s.settled = true ∨ s.recoverySubmitMayHaveLanded = true

def LatchOk (s : Session) : Prop :=
  s.recoverySubmitMayHaveLanded = true → s.recoveryEpisode = some .reclaimOpened

theorem LatchOk.submitMayHaveLanded (h : s.LatchOk) :
    s.submitMayHaveLanded .reclaimOpened = s.recoverySubmitMayHaveLanded := by
  unfold Session.submitMayHaveLanded
  cases hl : s.recoverySubmitMayHaveLanded with
  | false => simp
  | true => simp [h hl]

/-- `t` differs from `s` neither in what is settled nor in what may have landed. -/
structure Same (s t : Session) : Prop where
  settled : t.settled = s.settled
  landed : t.recoverySubmitMayHaveLanded = s.recoverySubmitMayHaveLanded
  episode : s.recoveryEpisode = some .reclaimOpened → t.recoveryEpisode = some .reclaimOpened

theorem Same.refl : Same s s := ⟨rfl, rfl, id⟩

theorem Same.latched {t : Session} (h : Same s t) (hs : s.Latched) : t.Latched := by
  unfold Latched at *
  rw [h.settled, h.landed]
  exact hs

theorem Same.latchOk {t : Session} (h : Same s t) (hs : s.LatchOk) : t.LatchOk := by
  intro hl
  exact h.episode (hs (h.landed ▸ hl))

theorem closeLocalApi_same : Same s s.closeLocalApi := ⟨rfl, rfl, id⟩

theorem vetoed_same : Same s s.vetoed := ⟨rfl, rfl, id⟩

theorem takeHandlerRecoveryReconciliation_same : Same s s.takeHandlerRecoveryReconciliation :=
  ⟨rfl, rfl, id⟩

theorem askReconciliation_same (handlerOrigin : Bool) :
    Same s (s.askReconciliation handlerOrigin) := by
  cases handlerOrigin <;> exact ⟨rfl, rfl, id⟩

theorem closeRecoveryEpisode_same (kind : RecoveryKind) :
    Same s (s.closeRecoveryEpisode kind) := by
  unfold closeRecoveryEpisode
  split
  · exact .refl
  · constructor
    · rfl
    · rfl
    · intro h
      simp [h]

theorem beginRecoveryAttempt_same (kind : RecoveryKind) (handlerOrigin : Bool) :
    Same s (s.beginRecoveryAttempt kind handlerOrigin).1 := by
  have hepisode (h : s.recoveryEpisode = some .reclaimOpened) :
      (s.recoveryEpisode <|> some kind) = some .reclaimOpened := by simp [h]
  unfold beginRecoveryAttempt
  dsimp only
  repeat' split
  all_goals exact ⟨rfl, rfl, hepisode⟩

theorem beginRecoveryAttempt_goes {handlerOrigin : Bool} (hok : s.LatchOk)
    (h : (s.beginRecoveryAttempt .reclaimOpened handlerOrigin).2 = true) :
    s.recoverySubmitMayHaveLanded = false := by
  by_contra hl
  have hlanded : s.recoverySubmitMayHaveLanded = true := by simpa using hl
  simp [beginRecoveryAttempt, Session.submitMayHaveLanded, hok hlanded, hlanded] at h

theorem markRecovered_settled : s.markRecovered.settled = true := by
  unfold markRecovered
  split
  · assumption
  · rfl

theorem markRecovered_landed (h : s.recoverySubmitMayHaveLanded = false) :
    s.markRecovered.recoverySubmitMayHaveLanded = false := by
  unfold markRecovered
  split
  · exact h
  · rfl

theorem markRecovered_latchOk (h : s.LatchOk) : s.markRecovered.LatchOk := by
  unfold markRecovered
  split
  · exact h
  · intro hl
    cases hl

theorem latchPossiblyLandedStop_latchOk (h : s.LatchOk) (e : ChainError) :
    (s.latchPossiblyLandedStop e).LatchOk := by
  cases e with
  | ambiguousSubmit =>
    intro _
    rfl
  | definite => exact h

end Session

/-! ## What a section does -/

/-- The chain call of a body, if it gets there. -/
def Body.chainCall (c : Config) : Body → Option ChainCall
  | .settle => some .stop
  | .verificationBail =>
    match c.failurePolicy.verificationBail with
    | .stop => some .stop
    | .dispute => some .dispute
    | .stopAndBlacklist => none
  | .reclaimOpened _ => some .stopIfHeartbeat
  | .cleanupUnopened _ => some .cleanupUnopened
  | .policyDispute => some .dispute
  | _ => none

attribute [grind =] resume Body.chainCall

variable {c : Config} {s : Session} {delivered : Option ℕ} {body : Body} {call : Call}
  {chainCall : ChainCall}

theorem unlessPreserved_same (body : Body) : s.Same (unlessPreserved c s body).1 := by
  unfold unlessPreserved
  split
  · exact Session.vetoed_same
  · exact .refl

theorem unlessUndelivered_same : s.Same (unlessUndelivered s delivered).1 := by
  unfold unlessUndelivered
  split
  · exact Session.vetoed_same
  · exact .refl

theorem enter_same (call : Call) : s.Same (enter c s delivered call).1 := by
  cases call <;> simp only [enter] <;> try split
  all_goals first
    | exact unlessPreserved_same _
    | exact unlessUndelivered_same
    | exact Session.vetoed_same
    | exact .refl

theorem unlessPreserved_body {other : Body} (h : (unlessPreserved c s body).2 = some other) :
    c.lifetime ≠ .preserve := by
  unfold unlessPreserved at h
  split at h
  · cases h
  · assumption

/-- A preserved session goes on to a chain call from `settle`, and from a swap of a route that
delivered. -/
theorem enter_preserved (hc : c.lifetime = .preserve)
    (h : (enter c s delivered call).2 = some body) (hp : body.chainCall c = some chainCall) :
    call = .settle ∨ call = .replaceActive := by
  have veto {b other : Body} (hb : (unlessPreserved c s b).2 = some other) : False :=
    unlessPreserved_body hb hc
  cases call with
  | settle => exact .inl rfl
  | replaceActive => exact .inr rfl
  | settleOnExit => simp [enter, hc] at h
  | settleVerificationBail => exact (veto h).elim
  | settleDeadGateway =>
    simp only [enter] at h
    split at h
    · exact (veto h).elim
    all_goals
      cases h
      cases hp
  | settleEmptyStream =>
    simp only [enter] at h
    split at h
    · exact (veto h).elim
    all_goals
      cases h
      cases hp
  | settleSellerStallsMidStream =>
    simp only [enter] at h
    split at h
    all_goals exact (veto h).elim
  | recoverReclaimOpened handlerOrigin => exact (veto h).elim
  | recoverCleanupUnopened handlerOrigin => exact (veto h).elim
  | markRecoveredSerialized =>
    cases h
    cases hp
  | failClosedBeforeServing =>
    cases h
    cases hp

theorem enter_delivered (hcall : call = .settleOnExit ∨ call = .replaceActive)
    (h : (enter c s delivered call).2 = some body) : delivered ≠ some 0 := by
  have veto (hb : (unlessUndelivered s delivered).2 = some body) : delivered ≠ some 0 := by
    unfold unlessUndelivered implicitTerminalLacksDelivery at hb
    split at hb
    · cases hb
    · rename_i hd
      simpa using hd
  rcases hcall with rfl | rfl
  · simp only [enter] at h
    split at h
    · exact veto h
    · cases h
  · exact veto h

theorem attemptRecovery_same (kind : RecoveryKind) (handlerOrigin : Bool) (call : ChainCall) :
    s.Same (attemptRecovery s kind handlerOrigin call).1 :=
  Session.beginRecoveryAttempt_same kind handlerOrigin

theorem begin_same (hb : body ≠ .markRecovered) : s.Same (begin c s body).1 := by
  unfold begin
  split
  · exact .refl
  · cases body with
    | settle =>
      dsimp only
      split
      · exact .refl
      · exact Session.closeLocalApi_same
    | verificationBail =>
      dsimp only
      split <;> exact Session.closeLocalApi_same
    | reclaimOpened handlerOrigin => exact attemptRecovery_same _ _ _
    | cleanupUnopened handlerOrigin => exact attemptRecovery_same _ _ _
    | policyFailClosed =>
      dsimp only
      split
      · exact Session.closeLocalApi_same
      · exact .refl
    | markRecovered => exact absurd rfl hb
    | _ => exact Session.closeLocalApi_same

theorem begin_markRecovered : (begin c s .markRecovered).1 = s.markRecovered := by
  unfold begin
  split
  · rename_i h
    simp [Session.markRecovered, h]
  · rfl

theorem begin_settled (h : (begin c s body).2 = some chainCall) : s.settled = false := by
  unfold begin at h
  split at h
  · cases h
  · rename_i hs
    simpa using hs

theorem attemptRecovery_call {kind : RecoveryKind} {handlerOrigin : Bool} {call : ChainCall}
    (h : (attemptRecovery s kind handlerOrigin call).2 = some chainCall) : call = chainCall := by
  simp only [attemptRecovery] at h
  split at h
  · exact Option.some.inj h
  · cases h

theorem begin_chainCall (h : (begin c s body).2 = some chainCall) :
    body.chainCall c = some chainCall := by
  unfold begin at h
  split at h
  · cases h
  · cases body with
    | settle =>
      dsimp only at h
      split at h
      · cases h
      · exact h
    | verificationBail =>
      simp only [Body.chainCall]
      dsimp only at h
      split at h
      · dsimp only at h
        split at h
        · cases h
        · exact h
      · exact h
      · cases h
    | reclaimOpened handlerOrigin => rw [← attemptRecovery_call h, Body.chainCall]
    | cleanupUnopened handlerOrigin => rw [← attemptRecovery_call h, Body.chainCall]
    | policyDispute => exact h
    | policyFailClosed =>
      dsimp only at h
      split at h <;> cases h
    | _ => cases h

/-- A STOP is prepared only where none may have landed. -/
theorem begin_stop (hok : s.LatchOk) (h : (begin c s body).2 = some chainCall)
    (hstop : chainCall.isStop = true) : s.recoverySubmitMayHaveLanded = false := by
  unfold begin at h
  split at h
  · cases h
  · cases body with
    | settle =>
      dsimp only at h
      rw [hok.submitMayHaveLanded] at h
      split at h
      · cases h
      · simpa using ‹¬s.recoverySubmitMayHaveLanded = true›
    | verificationBail =>
      dsimp only at h
      rw [hok.submitMayHaveLanded] at h
      split at h
      · dsimp only at h
        split at h
        · cases h
        · simpa using ‹¬s.recoverySubmitMayHaveLanded = true›
      · cases h
        cases hstop
      · cases h
    | reclaimOpened handlerOrigin =>
      simp only [attemptRecovery] at h
      split at h
      · exact Session.beginRecoveryAttempt_goes hok ‹_›
      · cases h
    | cleanupUnopened handlerOrigin =>
      simp only [attemptRecovery] at h
      split at h
      · cases h
        cases hstop
      · cases h
    | policyDispute =>
      cases h
      cases hstop
    | policyFailClosed =>
      dsimp only at h
      split at h <;> cases h
    | _ => cases h

theorem resume_settled {r : Settlement} (h : body.chainCall c = some chainCall) :
    (resume c s body (.settlement r)).settled = true := by
  cases body with
  | verificationBail =>
    simp only [Body.chainCall] at h
    simp only [resume]
    split at h <;> first | rfl | cases h
  | settle => rfl
  | reclaimOpened _ => rfl
  | cleanupUnopened _ => rfl
  | policyDispute => rfl
  | _ => cases h

theorem resume_ambiguous (h : body.chainCall c = some chainCall) (hstop : chainCall.isStop = true) :
    (resume c s body (.failed .ambiguousSubmit)).recoverySubmitMayHaveLanded = true := by
  cases body with
  | verificationBail =>
    simp only [Body.chainCall] at h
    simp only [resume]
    split at h
    · rfl
    all_goals
      cases h
      try cases hstop
  | settle => rfl
  | reclaimOpened _ => rfl
  | cleanupUnopened _ =>
    cases h
    cases hstop
  | policyDispute =>
    cases h
    cases hstop
  | _ => cases h

theorem resume_failed_same {e : ChainError} (h : body.chainCall c = some chainCall)
    (he : e = .definite ∨ chainCall.isStop = false) : s.Same (resume c s body (.failed e)) := by
  have definite (hstop : chainCall.isStop = true) : e = .definite := by simpa [hstop] using he
  cases body with
  | settle =>
    cases h
    obtain rfl := definite rfl
    exact ⟨rfl, rfl, id⟩
  | verificationBail =>
    simp only [Body.chainCall] at h
    simp only [resume]
    split at h
    · cases h
      obtain rfl := definite rfl
      exact .refl
    · exact .refl
    · cases h
  | reclaimOpened handlerOrigin =>
    cases h
    obtain rfl := definite rfl
    exact Session.askReconciliation_same _
  | cleanupUnopened handlerOrigin => exact Session.askReconciliation_same _
  | policyDispute => exact .refl
  | _ => cases h

theorem cancelRecoveryWithoutPost_latchOk (kind : RecoveryKind) (h : s.LatchOk) :
    (s.cancelRecoveryWithoutPost kind).LatchOk := by
  unfold Session.cancelRecoveryWithoutPost
  split
  · intro hl
    cases hl
  · exact h

theorem settleAs_latchOk {action : SessionTerminalAction} (h : s.LatchOk) :
    (s.settleAs action).LatchOk := by
  intro hl
  simp only [Session.settleAs, Session.recordTerminalAction_landed] at hl
  simpa [Session.settleAs] using h hl

theorem resolved_latchOk : s.resolved.LatchOk := by
  intro hl
  cases hl

theorem resume_latchOk (h : s.LatchOk) (a : Answer) : (resume c s body a).LatchOk := by
  have same {t : Session} (ht : s.Same t) : t.LatchOk := ht.latchOk h
  cases a with
  | settlement r =>
    cases body with
    | settle => exact resolved_latchOk
    | reclaimOpened _ => exact resolved_latchOk
    | cleanupUnopened _ => exact resolved_latchOk
    | policyDispute => exact settleAs_latchOk h
    | verificationBail =>
      simp only [resume]
      split
      · exact settleAs_latchOk h
      · exact settleAs_latchOk h
      · exact h
    | _ => exact h
  | heartbeatChanged =>
    cases body with
    | reclaimOpened _ => exact cancelRecoveryWithoutPost_latchOk _ h
    | _ => exact h
  | failed e =>
    cases body with
    | settle => exact Session.latchPossiblyLandedStop_latchOk h e
    | verificationBail =>
      simp only [resume]
      split
      · exact Session.latchPossiblyLandedStop_latchOk h e
      · exact h
      · exact h
    | reclaimOpened handlerOrigin =>
      cases e with
      | ambiguousSubmit => exact Session.latchPossiblyLandedStop_latchOk h _
      | definite => exact same (Session.askReconciliation_same _)
    | cleanupUnopened handlerOrigin => exact same (Session.askReconciliation_same _)
    | _ => exact h

theorem onDrop_same : s.Same (onDrop c s delivered).1 := by
  unfold onDrop
  split
  · exact .refl
  · split
    · exact Session.vetoed_same
    · exact .refl

theorem onDrop_spawns (h : (onDrop c s delivered).2 = true) :
    c.lifetime ≠ .preserve ∧ ¬ s.Latched ∧ delivered ≠ some 0 := by
  unfold onDrop at h
  split at h
  · cases h
  · rename_i hguard
    split at h
    · cases h
    · rename_i hveto
      simp only [Bool.or_eq_true, decide_eq_true_eq, Bool.not_eq_true', not_or] at hguard
      refine ⟨hguard.1.1.1, ?_, ?_⟩
      · rintro (hs | hl)
        · exact hguard.1.1.2 hs
        · exact hguard.2 hl
      · simpa [implicitTerminalLacksDelivery] using hveto

end SessionSettle
