import Mathlib
import Dexdo.SessionSettle
import Dexdo.TransactionSystem

/-! # Runs of one buyer session

Handlers, the monitor and the shutdown call the session; a call waits for the lock, and the one
that holds it may be at its chain call. -/
namespace SessionSettle

inductive Outcome where
  | pending
  | landed
  | ambiguous
  | refused
  | lost
  deriving DecidableEq, Repr

def Answer.outcome : Answer → Outcome
  | .settlement _ => .landed
  | .heartbeatChanged => .refused
  | .failed .ambiguousSubmit => .ambiguous
  | .failed .definite => .refused

structure Task where
  call : Call
  body : Body
  deriving DecidableEq, Repr

structure Holder where
  task : Task
  chainCall : ChainCall
  posted : Bool
  deriving DecidableEq, Repr

structure System where
  session : Session
  delivered : Option ℕ
  waiting : List Task
  holder : Option Holder
  /-- The session was dropped; where it spawned its backup STOP, whether that was posted. -/
  dropped : Option (Option Bool)
  stops : List Outcome
  deriving DecidableEq, Repr

def start (delivered : Option ℕ) : System where
  session := .new
  delivered := delivered
  waiting := []
  holder := none
  dropped := none
  stops := []

inductive Action where
  | call (call : Call)
  | acquire (i : ℕ)
  | post
  | answer (answer : Answer)
  | dropWaiting (i : ℕ)
  | dropHolder
  | markRecovered
  | closeRecoveryEpisode (kind : RecoveryKind)
  | takeHandlerRecoveryReconciliation
  | deliver (tokens : ℕ)
  | dropSession (runtime : Bool)
  | postBackup
  | answerBackup (outcome : Outcome)
  deriving DecidableEq, Repr

namespace System

variable (s : System)

def entered (c : Config) (call : Call) : System :=
  { s with
    session := (enter c s.session s.delivered call).1
    waiting := s.waiting ++ ((enter c s.session s.delivered call).2.map (Task.mk call)).toList }

def acquired (c : Config) (i : ℕ) (task : Task) : System :=
  { s with
    session := (begin c s.session task.body).1
    waiting := s.waiting.eraseIdx i
    holder := (begin c s.session task.body).2.map (Holder.mk task · false) }

def posting (h : Holder) : System :=
  { s with
    holder := some { h with posted := true }
    stops := if h.chainCall.isStop then s.stops ++ [Outcome.pending] else s.stops }

def ended (h : Holder) (outcome : Outcome) : List Outcome :=
  if h.chainCall.isStop && h.posted then s.stops.dropLast ++ [outcome] else s.stops

def answered (c : Config) (h : Holder) (answer : Answer) : System :=
  { s with
    session := resume c s.session h.task.body answer
    holder := none
    stops := s.ended h answer.outcome }

def lost (h : Holder) : System := { s with holder := none, stops := s.ended h .lost }

def drops (c : Config) (runtime : Bool) : System :=
  { s with
    session := (onDrop c s.session s.delivered).1
    dropped := some (if (onDrop c s.session s.delivered).2 && runtime then some false else none) }

end System

def Holder.mayAnswer (h : Holder) : Answer → Bool
  | .heartbeatChanged => h.chainCall == .stopIfHeartbeat && !h.posted
  | _ => true

def nextHeld (c : Config) (s : System) (h : Holder) : Action → Option System
  | .post => if h.posted then none else some (s.posting h)
  | .answer a => if h.mayAnswer a then some (s.answered c h a) else none
  | .dropHolder => some (s.lost h)
  | _ => none

def nextShared (c : Config) (s : System) : Action → Option System
  | .call call => some (s.entered c call)
  | .acquire i => do
    let task ← s.waiting[i]?
    guard (s.holder = none)
    return s.acquired c i task
  | .dropWaiting i => if i < s.waiting.length then some { s with waiting := s.waiting.eraseIdx i }
    else none
  | .markRecovered => some { s with session := s.session.markRecovered }
  | .closeRecoveryEpisode kind => some { s with session := s.session.closeRecoveryEpisode kind }
  | .takeHandlerRecoveryReconciliation =>
    some { s with session := s.session.takeHandlerRecoveryReconciliation }
  | .deliver tokens => some { s with delivered := s.delivered.map (· + tokens) }
  | .dropSession runtime =>
    if s.waiting = [] ∧ s.holder = none then some (s.drops c runtime) else none
  | a => s.holder.bind fun h => nextHeld c s h a

def nextDropped (s : System) : Option Bool → Action → Option System
  | some false, .postBackup =>
    some { s with dropped := some (some true), stops := s.stops ++ [Outcome.pending] }
  | some false, .answerBackup _ => some { s with dropped := some none }
  | some true, .answerBackup outcome =>
    some { s with dropped := some none, stops := s.stops.dropLast ++ [outcome] }
  | _, _ => none

def next (c : Config) (s : System) (a : Action) : Option System :=
  match s.dropped with
  | none => nextShared c s a
  | some backup => nextDropped s backup a

def exec (c : Config) (a : Action) (s : System) : Except Unit System :=
  match next c s a with
  | some t => .ok t
  | none => .error ()

abbrev History := List (TransactionSystem.Record System Action)

/-! ## What a step can do -/

inductive Step (c : Config) : System → Action → System → Prop where
  | called {s} (call) : s.dropped = none → Step c s (.call call) (s.entered c call)
  | acquired {s i task} : s.dropped = none → s.waiting[i]? = some task → s.holder = none →
      Step c s (.acquire i) (s.acquired c i task)
  | left {s} (i) : s.dropped = none →
      Step c s (.dropWaiting i) { s with waiting := s.waiting.eraseIdx i }
  | posted {s h} : s.dropped = none → s.holder = some h → h.posted = false →
      Step c s .post (s.posting h)
  | answered {s h a} : s.dropped = none → s.holder = some h → h.mayAnswer a = true →
      Step c s (.answer a) (s.answered c h a)
  | lost {s h} : s.dropped = none → s.holder = some h → Step c s .dropHolder (s.lost h)
  | recovered {s} : s.dropped = none →
      Step c s .markRecovered { s with session := s.session.markRecovered }
  | closed {s} (kind) : s.dropped = none → Step c s (.closeRecoveryEpisode kind)
      { s with session := s.session.closeRecoveryEpisode kind }
  | taken {s} : s.dropped = none → Step c s .takeHandlerRecoveryReconciliation
      { s with session := s.session.takeHandlerRecoveryReconciliation }
  | delivered {s} (tokens) : s.dropped = none →
      Step c s (.deliver tokens) { s with delivered := s.delivered.map (· + tokens) }
  | dropped {s} (runtime) : s.dropped = none → s.waiting = [] → s.holder = none →
      Step c s (.dropSession runtime) (s.drops c runtime)
  | backup {s} : s.dropped = some (some false) →
      Step c s .postBackup { s with dropped := some (some true), stops := s.stops ++ [Outcome.pending] }
  | unsent {s} (outcome) : s.dropped = some (some false) →
      Step c s (.answerBackup outcome) { s with dropped := some none }
  | sent {s} (outcome) : s.dropped = some (some true) → Step c s (.answerBackup outcome)
      { s with dropped := some none, stops := s.stops.dropLast ++ [outcome] }

variable {c : Config} {s t : System} {a : Action}

theorem Step.of_held {h : Holder} (hd : s.dropped = none) (hh : s.holder = some h)
    (hnext : nextHeld c s h a = some t) : Step c s a t := by
  cases a with
  | post =>
    simp only [nextHeld] at hnext
    split at hnext
    · cases hnext
    · cases hnext
      exact .posted hd hh (by simpa using ‹¬h.posted = true›)
  | answer b =>
    simp only [nextHeld] at hnext
    split at hnext
    · cases hnext
      exact .answered hd hh ‹_›
    · cases hnext
  | dropHolder =>
    cases hnext
    exact .lost hd hh
  | _ => cases hnext

theorem Step.of_shared (hd : s.dropped = none) (hnext : nextShared c s a = some t) :
    Step c s a t := by
  have held (hb : (s.holder.bind fun h => nextHeld c s h a) = some t) : Step c s a t := by
    obtain ⟨h, hh, hn⟩ := Option.bind_eq_some_iff.mp hb
    exact .of_held hd hh hn
  cases a with
  | call call =>
    cases hnext
    exact .called call hd
  | acquire i =>
    simp only [nextShared, Option.bind_eq_bind, Option.bind_eq_some_iff] at hnext
    obtain ⟨task, htask, _, hfree, heq⟩ := hnext
    cases heq
    exact .acquired hd htask (by simpa [guard] using hfree)
  | dropWaiting i =>
    simp only [nextShared] at hnext
    split at hnext
    · cases hnext
      exact .left i hd
    · cases hnext
  | markRecovered =>
    cases hnext
    exact .recovered hd
  | closeRecoveryEpisode kind =>
    cases hnext
    exact .closed kind hd
  | takeHandlerRecoveryReconciliation =>
    cases hnext
    exact .taken hd
  | deliver tokens =>
    cases hnext
    exact .delivered tokens hd
  | dropSession runtime =>
    simp only [nextShared] at hnext
    split at hnext
    · rename_i hidle
      cases hnext
      exact .dropped runtime hd hidle.1 hidle.2
    · cases hnext
  | _ => exact held hnext

theorem exec_step (h : exec c a s = .ok t) : Step c s a t := by
  unfold exec at h
  cases hn : next c s a with
  | none => simp [hn] at h
  | some u =>
    rw [hn] at h
    cases h
    unfold next at hn
    cases hd : s.dropped with
    | none =>
      rw [hd] at hn
      exact .of_shared hd hn
    | some backup =>
      rw [hd] at hn
      cases backup with
      | none => cases a <;> cases hn
      | some sent =>
        cases sent <;> cases a <;> cases hn
        · exact .backup hd
        · exact .unsent _ hd
        · exact .sent _ hd

end SessionSettle
