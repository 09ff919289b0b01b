import Mathlib
import Dexdo.TransactionSystem

/-! # The write lock of a pool file

`crates/dexdo/src/cli/commands.rs`: a sentinel beside the file, created by the one that takes the
lock and unlinked by its release, and taken over from a process that died. An advisory lock belongs
to the handle of a caller and falls with it. -/
namespace PoolWriteLock

/-! ## The sentinel -/

inductive Holder where
  | hostAware (pid : ℕ) (host : String)
  | legacyPid (pid : ℕ)
  deriving DecidableEq, Repr

def Holder.pid : Holder → ℕ
  | hostAware pid _ => pid
  | legacyPid pid => pid

inductive Text where
  | nothing
  | holder (h : Holder)
  | other (text : String)
  deriving DecidableEq, Repr

def parsePoolWriteLockHolder : Text → Option Holder
  | .holder (.hostAware pid host) => if host = "" then none else some (.hostAware pid host)
  | .holder (.legacyPid pid) => some (.legacyPid pid)
  | _ => none

structure Inode where
  text : Text := .nothing
  lock : Option ℕ := none
  creator : Option ℕ := none
  owner : Option ℕ := none
  claimed : Bool := false
  deriving DecidableEq, Repr

/-! ## Callers -/

/-- What a caller is after: `try_acquire_pool_write_lock`, `acquire_pool_write_lock`,
`reclaim_pool_write_lock_if_holder_is_gone`, or `with_pool_write_lock` on an update. -/
inductive Job (υ : Type) where
  | tryAcquire
  | acquire
  | reclaim
  | update (u : υ)
  deriving DecidableEq, Repr

/-- How a holder came by its lock; `took` is the process the sentinel recorded until then. -/
inductive Way where
  | created
  | reclaimed (took : Option ℕ)
  deriving DecidableEq, Repr

/-- The next file-system call of a caller. -/
inductive Pc (δ υ : Type) where
  | idle
  -- `reclaim_pool_write_lock_if_holder_is_gone`
  | inspecting (job : Job υ)
  | opening (job : Job υ)
  | reading (job : Job υ) (i : ℕ)
  | locking (job : Job υ) (i : ℕ) (recorded : Option Holder)
  | probing (job : Job υ) (i : ℕ) (recorded : Option Holder)
  | truncating (job : Job υ) (i : ℕ) (recorded : Option Holder)
  | writing (job : Job υ) (i : ℕ) (recorded : Option Holder) (took : Option ℕ)
  | confirming (job : Job υ) (i : ℕ) (recorded : Option Holder) (took : Option ℕ)
  | refusing (job : Job υ) (i : ℕ)
  -- `acquire_pool_write_lock_inner`
  | creating (job : Job υ)
  | recording (job : Job υ) (i : ℕ)
  | securing (job : Job υ) (i : ℕ)
  | failing (i : ℕ)
  | occupied (job : Job υ)
  -- the lock is held; an update has read the file or not
  | holding (job : Job υ) (i : ℕ) (way : Way) (seen : Option δ)
  -- `PoolWriteLock::drop`
  | unlinking (i : ℕ) (way : Way)
  | closing (i : ℕ) (unlinked : Bool)
  | unlinkingAgain
  deriving DecidableEq, Repr

structure Host (δ υ : Type) where
  identity : Option String
  process : ℕ → ℕ
  pid : ℕ → ℕ
  first : δ
  apply : υ → δ → δ

/-- `path` is what the name of the sentinel points to; `log` the updates in the order they were
written. -/
structure State (δ υ : Type) where
  alive : Finset ℕ
  used : Finset ℕ
  path : Option ℕ
  inode : ℕ → Inode
  fresh : ℕ
  pc : ℕ → Pc δ υ
  file : δ
  log : List υ

variable {δ υ : Type}

def State.goto (s : State δ υ) (c : ℕ) (pc : Pc δ υ) : State δ υ :=
  { s with pc := Function.update s.pc c pc }

def State.edit (s : State δ υ) (i : ℕ) (f : Inode → Inode) : State δ υ :=
  { s with inode := Function.update s.inode i (f (s.inode i)) }

def State.unlink (s : State δ υ) : State δ υ := { s with path := none }

def Inode.close (c : ℕ) (n : Inode) : Inode :=
  { n with lock := if n.lock = some c then none else n.lock }

def Job.otherwise : Job υ → Pc δ υ
  | .update u => .creating (.update u)
  | _ => .idle

def Job.reclaims : Job υ → Bool
  | .reclaim | .update _ => true
  | _ => false

def Job.waits : Job υ → Bool
  | .acquire | .update _ => true
  | _ => false

section Steps

variable (env : Host δ υ)

def recordedHolderIsRunning (s : State δ υ) (pid : ℕ) : Option Bool :=
  if pid = 0 ∨ pid > 2 ^ 31 - 1 then none
  else some (decide (∃ q ∈ s.alive, env.pid q = pid))

def foreign : Option Holder → Bool
  | some (.hostAware _ host) => env.identity != some host
  | _ => false

def ours (c : ℕ) : Option Holder → Text
  | some (.hostAware _ host) => .holder (.hostAware (env.pid (env.process c)) host)
  | _ => .holder (.legacyPid (env.pid (env.process c)))

/-- One call. -/
def advance (c : ℕ) (s : State δ υ) : State δ υ :=
  match s.pc c with
  | .idle => s
  | .inspecting job =>
    match s.path with
    | none => s.goto c job.otherwise
    | some _ => s.goto c (.opening job)
  | .opening job =>
    match s.path with
    | none => s.goto c job.otherwise
    | some i => s.goto c (.reading job i)
  | .reading job i =>
    let recorded := parsePoolWriteLockHolder (s.inode i).text
    if foreign env recorded then s.goto c (.refusing job i) else s.goto c (.locking job i recorded)
  | .locking job i recorded =>
    match (s.inode i).lock with
    | none => (s.edit i fun n => { n with lock := some c }).goto c (.probing job i recorded)
    | some _ => s.goto c (.refusing job i)
  | .probing job i recorded =>
    if (recorded.bind fun h => recordedHolderIsRunning env s h.pid) = some false then
      s.goto c (.truncating job i recorded)
    else s.goto c (.refusing job i)
  | .truncating job i recorded =>
    (s.edit i fun n => { n with
      text := .nothing
      claimed := true }).goto c (.writing job i recorded (s.inode i).owner)
  | .writing job i recorded took =>
    (s.edit i fun n => { n with
      text := ours env c recorded
      owner := some (env.process c) }).goto c (.confirming job i recorded took)
  | .confirming job i recorded took =>
    -- the read-back goes by path
    match s.path with
    | none => s.goto c (.refusing job i)
    | some j =>
      if (s.inode j).text = ours env c recorded then
        s.goto c (.holding job i (.reclaimed took) none)
      else s.goto c (.refusing job i)
  | .refusing job i => (s.edit i (Inode.close c)).goto c job.otherwise
  | .creating job =>
    match s.path with
    | none => { s with
        path := some s.fresh
        inode := Function.update s.inode s.fresh { creator := some c }
        fresh := s.fresh + 1 }.goto c (.recording job s.fresh)
    | some _ => s.goto c (.occupied job)
  | .recording job i =>
    match env.identity with
    | none => s.goto c (.failing i)
    | some host =>
      (s.edit i fun n => { n with
        text := .holder (.hostAware (env.pid (env.process c)) host)
        owner := some (env.process c) }).goto c (.securing job i)
  | .securing job i =>
    match (s.inode i).lock with
    | none => (s.edit i fun n => { n with lock := some c }).goto c (.holding job i .created none)
    | some _ => s.goto c (.failing i)
  | .failing _ => s.unlink.goto c .idle
  | .occupied job =>
    match s.path with
    | none => s.goto c (.creating job)
    | some _ => if job.waits then s.goto c (.creating job) else s.goto c .idle
  | .holding job i way seen =>
    match job, seen with
    | .update u, none => s.goto c (.holding (.update u) i way (some s.file))
    | .update u, some d => { s with
        file := env.apply u d
        log := s.log ++ [u] }.goto c (.unlinking i way)
    | _, _ => s.goto c (.unlinking i way)
  | .unlinking i _ => s.unlink.goto c (.closing i s.path.isSome)
  | .closing i unlinked =>
    (s.edit i (Inode.close c)).goto c (if unlinked then .idle else .unlinkingAgain)
  | .unlinkingAgain => s.unlink.goto c .idle

inductive Action (υ : Type) where
  | spawn (p : ℕ)
  | kill (p : ℕ)
  | start (c : ℕ) (job : Job υ)
  | advance (c : ℕ)
  /-- The wait of an acquire runs out, or an update fails before it writes. -/
  | giveUp (c : ℕ)
  deriving DecidableEq, Repr

def spawned (p : ℕ) (s : State δ υ) : State δ υ :=
  { s with
    alive := insert p s.alive
    used := insert p s.used }

def killed (p : ℕ) (s : State δ υ) : State δ υ :=
  { s with
    alive := s.alive.erase p
    inode := fun i => { s.inode i with
      lock := (s.inode i).lock.filter fun c => decide (env.process c ≠ p) } }

def exec (a : Action υ) (s : State δ υ) : Except Unit (State δ υ) :=
  match a with
  | .spawn p =>
    -- an id is free again once its process is gone
    if p ∈ s.used ∨ ∃ q ∈ s.alive, env.pid q = env.pid p then .error ()
    else .ok (spawned p s)
  | .kill p => if p ∈ s.alive then .ok (killed env p s) else .error ()
  | .start c job =>
    if env.process c ∈ s.alive then
      match s.pc c with
      | .idle => .ok (s.goto c (if job.reclaims then .inspecting job else .creating job))
      | _ => .error ()
    else .error ()
  | .advance c => if env.process c ∈ s.alive then .ok (advance env c s) else .error ()
  | .giveUp c =>
    if env.process c ∈ s.alive then
      match s.pc c with
      | .occupied _ => .ok (s.goto c .idle)
      | .holding _ i way _ => .ok (s.goto c (.unlinking i way))
      | _ => .error ()
    else .error ()

/-- No caller has begun; a sentinel may be there from before, with no lock on it. What it records
in a form that is read was recorded by a process of that id. -/
structure Initial (s : State δ υ) : Prop where
  idle : ∀ c, s.pc c = .idle
  path : ∀ i, s.path = some i → i < s.fresh
  alive : s.alive ⊆ s.used
  unlocked : ∀ i, (s.inode i).lock = none ∧ (s.inode i).claimed = false
  owner : ∀ i q, (s.inode i).owner = some q → q ∈ s.used
  recorded : ∀ i h, parsePoolWriteLockHolder (s.inode i).text = some h →
    ∃ q, (s.inode i).owner = some q ∧ env.pid q = h.pid
  file : s.file = env.first ∧ s.log = []

/-- The caller is in possession of a lock through the inode `i`, until its release unlinks the
sentinel. -/
def HoldsOn (s : State δ υ) (c i : ℕ) : Prop :=
  env.process c ∈ s.alive ∧
    match s.pc c with
    | .holding _ j _ _ => j = i
    | .unlinking j _ => j = i
    | _ => False

/-- The caller is in possession of a lock that it took over from `took`. -/
def TookOver (s : State δ υ) (c : ℕ) (took : Option ℕ) : Prop :=
  env.process c ∈ s.alive ∧
    match s.pc c with
    | .holding _ _ way _ => way = .reclaimed took
    | .unlinking _ way => way = .reclaimed took
    | _ => False

/-- A read-back that finds the claim of this caller finds it in the inode it has locked. -/
def toldApart (s : State δ υ) (a : Action υ) : Bool :=
  match a with
  | .advance c =>
    match s.pc c, s.path with
    | .confirming _ i recorded _, some j =>
      decide ((s.inode j).text = ours env c recorded → j = i)
    | _, _ => true
  | _ => true

def ToldApart (s : State δ υ) (a : Action υ) : Prop := toldApart env s a = true

instance (s : State δ υ) (a : Action υ) : Decidable (ToldApart env s a) :=
  inferInstanceAs (Decidable (_ = _))

end Steps

end PoolWriteLock
