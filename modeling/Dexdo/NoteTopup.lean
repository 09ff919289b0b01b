import Dexdo.TransactionSystem
import Mathlib.Data.Int.Notation
import Mathlib.Order.MinMax
import Mathlib.Tactic.Common

/-! # Topping a note up

`run_note_topup` of `crates/dexdo/src/cli/note_cmd.rs`: a run under the lock of the funding wallet
reads the note's ECC[2] level, and sends what is missing. Left out: the addresses, keys and texts,
and how the Hot wallet is funded. -/
namespace NoteTopup

/-! ## The decisions of a run -/

def noteTopupShortfallRaw (current toRaw : ℕ) : Option ℕ :=
  if toRaw ≤ current then none else some (toRaw - current)

inductive NoteTopupNoOpVerdict where
  | alreadyAtTarget
  | readsDisagree
  deriving DecidableEq, Repr

def noteTopupNoOpVerdict (first : ℕ) (confirming : Option ℕ) (toRaw : ℕ) : NoteTopupNoOpVerdict :=
  match confirming with
  | none => .readsDisagree
  | some confirming =>
    if (noteTopupShortfallRaw first toRaw).isNone ∧ (noteTopupShortfallRaw confirming toRaw).isNone then
      .alreadyAtTarget
    else .readsDisagree

def noteDeployWalletSubmits : ℕ := 2
def noteDeploySubmitNativeValue : ℕ := 100000000
def walletSubmitNativeFeeBoundRaw : ℕ := 153501000

def fundingWalletNativeFloorRaw : ℕ :=
  noteDeployWalletSubmits * (noteDeploySubmitNativeValue + walletSubmitNativeFeeBoundRaw)

def fundingWalletNativeShortfallRaw (native : ℕ) : Option ℕ :=
  if fundingWalletNativeFloorRaw ≤ native then none
  else some (fundingWalletNativeFloorRaw - native)

/-- `note_topup_preflight_wallet_ecc` on the wallet's account; without one it holds nothing. -/
def preflightWalletEcc (available native missing : ℕ) : Bool :=
  missing ≤ available && (fundingWalletNativeShortfallRaw native).isNone

structure Receipt where
  aborted : Bool
  actionResultCode : ℤ
  deriving DecidableEq, Repr

def noteDeployActionFailed (r : Receipt) : Bool := r.aborted || r.actionResultCode != 0

/-! ## States -/

structure Reading where
  level : ℕ
  raises : ℕ
  deriving DecidableEq, Repr

structure Sizing where
  reading : Reading
  missing : ℕ
  deriving DecidableEq, Repr

inductive Stage where
  | reading
  | confirming (first : ℕ)
  | funding (sizing : Sizing)
  | preflight (sizing : Sizing)
  | submitting (sizing : Sizing)
  | observing
  | waiting
  deriving DecidableEq, Repr

structure Message where
  sizing : Sizing
  levelAtSend : ℕ
  deriving DecidableEq, Repr

structure Landing where
  message : Message
  before : Reading
  deriving DecidableEq, Repr

inductive Outcome where
  | ok (level : ℕ)
  | err
  deriving DecidableEq, Repr

/-- `raises` counts the credits and landings so far, and `spent` tells whether the note ever paid
out of its level. -/
structure System where
  level : ℕ
  run : Option Stage
  inFlight : List Message
  landings : List Landing
  outcomes : List Outcome
  raises : ℕ
  spent : Bool
  deriving DecidableEq, Repr

def System.start (level : ℕ) : System where
  level := level
  run := none
  inFlight := []
  landings := []
  outcomes := []
  raises := 0
  spent := false

/-! ## Steps -/

inductive Action where
  | start
  | read
  | confirm
  | funded
  | preflight (available native : ℕ)
  /-- Whether the wallet took the message, and whether the endpoint said so. -/
  | submit (accepted reported : Bool)
  | observe (receipt : Option Receipt)
  | poll (deadlinePassed : Bool)
  /-- An await of the run fails. -/
  | fail
  | crash
  | land (i : ℕ)
  | credit (amount : ℕ)
  | spend (amount : ℕ)
  deriving DecidableEq, Repr

namespace System

variable (s : System)

def reading : Reading := ⟨s.level, s.raises⟩

def standing (stage : Stage) : System := { s with run := some stage }

def returns (outcome : Outcome) : System :=
  { s with run := none, outcomes := s.outcomes ++ [outcome] }

def raise (amount : ℕ) : System := { s with level := s.level + amount, raises := s.raises + 1 }

def sent (sizing : Sizing) (accepted : Bool) : System :=
  if accepted then { s with inFlight := s.inFlight ++ [⟨sizing, s.level⟩] } else s

def landed (i : ℕ) (message : Message) : System :=
  { s.raise message.sizing.missing with
    inFlight := s.inFlight.eraseIdx i
    landings := s.landings ++ [⟨message, s.reading⟩] }

end System

/-- A step of the run. -/
def advance (toRaw : ℕ) (s : System) : Stage → Action → Option System
  | .reading, .read =>
    match noteTopupShortfallRaw s.level toRaw with
    | none => some (s.standing (.confirming s.level))
    | some missing => some (s.standing (.funding ⟨s.reading, missing⟩))
  | .confirming first, .confirm =>
    match noteTopupNoOpVerdict first (some s.level) toRaw with
    | .alreadyAtTarget => some (s.returns (.ok s.level))
    | .readsDisagree => some (s.returns .err)
  | .funding sizing, .funded => some (s.standing (.preflight sizing))
  | .preflight sizing, .preflight available native =>
    if preflightWalletEcc available native sizing.missing then some (s.standing (.submitting sizing))
    else some (s.returns .err)
  | .submitting sizing, .submit accepted reported =>
    let s := s.sent sizing accepted
    if reported then some (s.standing .observing) else some (s.returns .err)
  | .observing, .observe receipt =>
    if receipt.any noteDeployActionFailed then some (s.returns .err) else some (s.standing .waiting)
  | .waiting, .poll deadlinePassed =>
    if toRaw ≤ s.level then some (s.returns (.ok s.level))
    else if deadlinePassed then some (s.returns .err)
    else some s
  | _, .fail => some (s.returns .err)
  | _, .crash => some { s with run := none }
  | _, _ => none

def next (toRaw : ℕ) (s : System) : Action → Option System
  | .start => if s.run = none then some (s.standing .reading) else none
  | .land i => s.inFlight[i]?.map (s.landed i)
  | .credit amount => if 0 < amount then some (s.raise amount) else none
  | .spend amount =>
    if amount ≤ s.level then some { s with level := s.level - amount, spent := true } else none
  | a => s.run.bind fun stage => advance toRaw s stage a

def exec (toRaw : ℕ) (a : Action) (s : System) : Except Unit System :=
  (next toRaw s a).elim (.error ()) .ok

def Reachable (toRaw : ℕ) : System → Prop :=
  TransactionSystem.Reachable (fun s => ∃ level, s = .start level) (exec toRaw) fun _ _ => True

/-! ## The property -/

def Landing.Fits (toRaw : ℕ) (l : Landing) : Prop :=
  l.before.level + l.message.sizing.missing ≤ max l.message.levelAtSend toRaw

def Landing.Undisturbed (l : Landing) : Prop :=
  l.before.raises = l.message.sizing.reading.raises

instance (toRaw : ℕ) (l : Landing) : Decidable (l.Fits toRaw) := inferInstanceAs (Decidable (_ ≤ _))

instance (l : Landing) : Decidable l.Undisturbed := inferInstanceAs (Decidable (_ = _))

/-! ## What every step keeps -/

structure Tracks (s : System) (r : Reading) : Prop where
  raises : r.raises ≤ s.raises
  unraised : s.raises = r.raises → s.level ≤ r.level
  unspent : s.spent = false → r.level + (s.raises - r.raises) ≤ s.level

structure Sized (toRaw : ℕ) (s : System) (z : Sizing) : Prop where
  tracks : Tracks s z.reading
  below : z.reading.level < toRaw
  missing : z.missing = toRaw - z.reading.level

structure Sent (toRaw : ℕ) (s : System) (m : Message) : Prop where
  sized : Sized toRaw s m.sizing
  level : s.spent = false → m.levelAtSend ≤ s.level

def Stage.sizing? : Stage → Option Sizing
  | funding sizing | preflight sizing | submitting sizing => some sizing
  | _ => none

structure Landed (toRaw : ℕ) (s : System) (l : Landing) : Prop where
  fits : l.Undisturbed → l.Fits toRaw
  disturbed : s.spent = false → l.Fits toRaw → l.Undisturbed

structure Sound (toRaw : ℕ) (s : System) : Prop where
  run : ∀ stage z, s.run = some stage → stage.sizing? = some z → Sized toRaw s z
  sent : ∀ m ∈ s.inFlight, Sent toRaw s m
  landed : ∀ l ∈ s.landings, Landed toRaw s l
  observed : ∀ level, .ok level ∈ s.outcomes → toRaw ≤ level

variable {toRaw : ℕ} {s t : System} {stage : Stage} {a : Action} {r : Reading} {z : Sizing}
  {m : Message} {l : Landing}

theorem sound_start (level : ℕ) : Sound toRaw (.start level) := by
  constructor
  all_goals
    intros
    simp_all [System.start]

theorem tracks_reading (s : System) : Tracks s s.reading :=
  ⟨le_rfl, fun _ => le_rfl, fun _ => by simp [System.reading]⟩

/-- What a step does to the level: it stays, it rises and that is counted, or it falls and that is
noted. -/
inductive LevelMoves (s t : System) : Prop where
  | stays (level : t.level = s.level) (raises : t.raises = s.raises) (spent : t.spent = s.spent)
  | rises (level : s.level < t.level) (raises : t.raises = s.raises + 1) (spent : t.spent = s.spent)
  | falls (level : t.level ≤ s.level) (raises : t.raises = s.raises) (spent : t.spent = true)

theorem LevelMoves.tracks (h : LevelMoves s t) (hr : Tracks s r) : Tracks t r := by
  obtain ⟨hraises, hunraised, hunspent⟩ := hr
  cases h with
  | stays hl hc hs =>
    constructor
    · omega
    · intro heq
      exact hl ▸ hunraised (hc ▸ heq)
    · intro hf
      have hold := hunspent (hs ▸ hf)
      omega
  | rises hl hc hs =>
    constructor
    · omega
    · intro heq
      omega
    · intro hf
      have hold := hunspent (hs ▸ hf)
      omega
  | falls hl hc hs =>
    constructor
    · omega
    · intro heq
      exact hl.trans (hunraised (hc ▸ heq))
    · intro hf
      rw [hs] at hf
      cases hf

theorem LevelMoves.sized (h : LevelMoves s t) (hz : Sized toRaw s z) : Sized toRaw t z :=
  ⟨h.tracks hz.tracks, hz.below, hz.missing⟩

theorem LevelMoves.unspent (h : LevelMoves s t) (ht : t.spent = false) :
    s.spent = false ∧ s.level ≤ t.level := by
  cases h with
  | stays hl _ hs => exact ⟨hs ▸ ht, hl.ge⟩
  | rises hl _ hs => exact ⟨hs ▸ ht, hl.le⟩
  | falls _ _ hs =>
    rw [hs] at ht
    cases ht

theorem LevelMoves.sent (h : LevelMoves s t) (hm : Sent toRaw s m) : Sent toRaw t m :=
  ⟨h.sized hm.sized, fun ht => (hm.level (h.unspent ht).1).trans (h.unspent ht).2⟩

theorem LevelMoves.landed (h : LevelMoves s t) (hl : Landed toRaw s l) : Landed toRaw t l :=
  ⟨hl.fits, fun ht => hl.disturbed (h.unspent ht).1⟩

theorem Sent.lands (hm : Sent toRaw s m) : Landed toRaw s ⟨m, s.reading⟩ := by
  obtain ⟨⟨⟨hraises, hunraised, hunspent⟩, hbelow, hmissing⟩, hlevel⟩ := hm
  constructor
  · intro hsame
    have hle : s.level ≤ m.sizing.reading.level := hunraised hsame
    have htoRaw := le_max_right m.levelAtSend toRaw
    simp only [Landing.Fits, System.reading]
    omega
  · intro hs hfits
    have hsent := hlevel hs
    have hgrown := hunspent hs
    by_contra hne
    have hless : m.sizing.reading.raises ≠ s.raises := fun heq => hne heq.symm
    simp only [Landing.Fits, System.reading] at hfits
    rcases le_max_iff.mp hfits with hfits | hfits <;> omega

/-! ## Steps, by what they leave -/

def Leads (toRaw : ℕ) (s : System) (stage : Stage) : Prop :=
  ∀ z, stage.sizing? = some z →
    (∃ before, s.run = some before ∧ before.sizing? = some z) ∨
      s.level < toRaw ∧ z = ⟨s.reading, toRaw - s.level⟩

inductive Step (toRaw : ℕ) (s : System) : System → Prop where
  | stands {stage : Stage} : Leads toRaw s stage → Step toRaw s (s.standing stage)
  | done : toRaw ≤ s.level → Step toRaw s (s.returns (.ok s.level))
  | failed : Step toRaw s (s.returns .err)
  | crashed : Step toRaw s { s with run := none }
  | submitted {z : Sizing} : s.run = some (.submitting z) →
      Step toRaw s ((s.sent z true).standing .observing)
  | unanswered {z : Sizing} : s.run = some (.submitting z) → Step toRaw s ((s.sent z true).returns .err)
  | landed {i : ℕ} {m : Message} : s.inFlight[i]? = some m → Step toRaw s (s.landed i m)
  | credited {amount : ℕ} : 0 < amount → Step toRaw s (s.raise amount)
  | spends {amount : ℕ} : amount ≤ s.level →
      Step toRaw s { s with level := s.level - amount, spent := true }

theorem shortfall_none {current : ℕ} : noteTopupShortfallRaw current toRaw = none ↔
    toRaw ≤ current := by
  unfold noteTopupShortfallRaw
  split <;> simp_all

theorem shortfall_some {current missing : ℕ}
    (h : noteTopupShortfallRaw current toRaw = some missing) :
    current < toRaw ∧ missing = toRaw - current := by
  unfold noteTopupShortfallRaw at h
  split at h
  · cases h
  · cases h
    exact ⟨Nat.not_le.mp ‹_›, rfl⟩

theorem leads_none (h : stage.sizing? = none) : Leads toRaw s stage := by
  intro z hz
  rw [h] at hz
  cases hz

theorem leads_same {before : Stage} (hrun : s.run = some before)
    (h : stage.sizing? = before.sizing?) : Leads toRaw s stage := by
  intro z hz
  exact .inl ⟨before, hrun, h ▸ hz⟩

theorem advance_step (hrun : s.run = some stage) (h : advance toRaw s stage a = some t) :
    Step toRaw s t := by
  cases a with
  | fail =>
    cases stage <;> cases h <;> exact .failed
  | crash =>
    cases stage <;> cases h <;> exact .crashed
  | read =>
    cases stage with
    | reading =>
      simp only [advance] at h
      split at h
      · cases h
        exact .stands (leads_none rfl)
      · rename_i missing hmissing
        obtain ⟨hbelow, rfl⟩ := shortfall_some hmissing
        cases h
        refine .stands fun z hz => .inr ⟨hbelow, ?_⟩
        cases hz
        rfl
    | _ => cases h
  | confirm =>
    cases stage with
    | confirming first =>
      simp only [advance, noteTopupNoOpVerdict] at h
      split at h
      · rename_i hverdict
        cases h
        split at hverdict
        · rename_i hboth
          exact .done (shortfall_none.mp (Option.isNone_iff_eq_none.mp hboth.2))
        · cases hverdict
      · cases h
        exact .failed
    | _ => cases h
  | funded =>
    cases stage with
    | funding sizing =>
      cases h
      exact .stands (leads_same hrun rfl)
    | _ => cases h
  | preflight available native =>
    cases stage with
    | preflight sizing =>
      simp only [advance] at h
      split at h
      · cases h
        exact .stands (leads_same hrun rfl)
      · cases h
        exact .failed
    | _ => cases h
  | submit accepted reported =>
    cases stage with
    | submitting sizing =>
      cases accepted <;> cases reported <;> cases h
      · exact .failed
      · exact .stands (leads_none rfl)
      · exact .unanswered hrun
      · exact .submitted hrun
    | _ => cases h
  | observe receipt =>
    cases stage with
    | observing =>
      simp only [advance] at h
      split at h
      · cases h
        exact .failed
      · cases h
        exact .stands (leads_none rfl)
    | _ => cases h
  | poll deadlinePassed =>
    cases stage with
    | waiting =>
      simp only [advance] at h
      split at h
      · cases h
        exact .done ‹_›
      · split at h
        · cases h
          exact .failed
        · cases h
          have hsame : s.standing .waiting = s := by
            unfold System.standing
            rw [← hrun]
          rw [← hsame]
          exact .stands (leads_none rfl)
    | _ => cases h
  | _ => cases stage <;> cases h

theorem exec_step (h : exec toRaw a s = .ok t) : Step toRaw s t := by
  have hnext : next toRaw s a = some t := by
    unfold exec at h
    cases hn : next toRaw s a with
    | none => simp [hn] at h
    | some u => simpa [hn] using h
  have through (hn : (s.run.bind fun stage => advance toRaw s stage a) = some t) :
      Step toRaw s t := by
    obtain ⟨stage, hrun, hadvance⟩ := Option.bind_eq_some_iff.mp hn
    exact advance_step hrun hadvance
  cases a with
  | start =>
    simp only [next] at hnext
    split at hnext
    · cases hnext
      exact .stands (leads_none rfl)
    · cases hnext
  | land i =>
    obtain ⟨m, hm, rfl⟩ := Option.map_eq_some_iff.mp hnext
    exact .landed hm
  | credit amount =>
    simp only [next] at hnext
    split at hnext
    · cases hnext
      exact .credited ‹_›
    · cases hnext
  | spend amount =>
    simp only [next] at hnext
    split at hnext
    · cases hnext
      exact .spends ‹_›
    · cases hnext
  | _ => exact through hnext

/-! ## Runs -/

theorem Sound.keeps (h : Sound toRaw s) (hl : LevelMoves s t)
    (hrun : ∀ stage z, t.run = some stage → stage.sizing? = some z →
      (∃ before, s.run = some before ∧ before.sizing? = some z) ∨ Sized toRaw t z)
    (hsent : ∀ m ∈ t.inFlight, m ∈ s.inFlight ∨ Sent toRaw t m)
    (hlanded : ∀ l ∈ t.landings, l ∈ s.landings ∨ Landed toRaw t l)
    (hobserved : ∀ level, .ok level ∈ t.outcomes → .ok level ∈ s.outcomes ∨ toRaw ≤ level) :
    Sound toRaw t where
  run := by
    intro stage z hstage hz
    rcases hrun stage z hstage hz with ⟨before, hbefore, hz⟩ | hnew
    · exact hl.sized (h.run before z hbefore hz)
    · exact hnew
  sent := by
    intro m hm
    rcases hsent m hm with hold | hnew
    · exact hl.sent (h.sent m hold)
    · exact hnew
  landed := by
    intro l hm
    rcases hlanded l hm with hold | hnew
    · exact hl.landed (h.landed l hold)
    · exact hnew
  observed := by
    intro level hm
    rcases hobserved level hm with hold | hnew
    · exact h.observed level hold
    · exact hnew

theorem Sound.step (h : Sound toRaw s) (hs : Step toRaw s t) : Sound toRaw t := by
  have now {stage} (hstage : s.run = some stage) {z} (hz : stage.sizing? = some z) :
      Sent toRaw s ⟨z, s.level⟩ := ⟨h.run stage z hstage hz, fun _ => le_rfl⟩
  cases hs with
  | @stands stage hleads =>
    have hl : LevelMoves s (s.standing stage) := .stays rfl rfl rfl
    refine h.keeps hl ?_ (fun m hm => .inl hm) (fun l hl => .inl hl)
      (fun level hm => .inl hm)
    intro stage' z hstage hz
    cases hstage
    rcases hleads z hz with hold | ⟨hbelow, rfl⟩
    · exact .inl hold
    · exact .inr (hl.sized ⟨tracks_reading s, hbelow, rfl⟩)
  | done hlevel =>
    refine h.keeps (.stays rfl rfl rfl) nofun (fun m hm => .inl hm) (fun l hl => .inl hl) ?_
    intro level hm
    rcases List.mem_append.mp hm with hold | hnew
    · exact .inl hold
    · cases List.mem_singleton.mp hnew
      exact .inr hlevel
  | failed =>
    refine h.keeps (.stays rfl rfl rfl) nofun (fun m hm => .inl hm) (fun l hl => .inl hl) ?_
    intro level hm
    rcases List.mem_append.mp hm with hold | hnew
    · exact .inl hold
    · cases List.mem_singleton.mp hnew
  | crashed =>
    exact h.keeps (.stays rfl rfl rfl) nofun (fun m hm => .inl hm) (fun l hl => .inl hl)
      (fun level hm => .inl hm)
  | @submitted z hrun =>
    have hl : LevelMoves s ((s.sent z true).standing .observing) := .stays rfl rfl rfl
    refine h.keeps hl ?_ ?_ (fun l hl => .inl hl) (fun level hm => .inl hm)
    · intro stage z hstage hz
      cases hstage
      cases hz
    · intro m hm
      rcases List.mem_append.mp hm with hold | hnew
      · exact .inl hold
      · cases List.mem_singleton.mp hnew
        exact .inr (hl.sent (now hrun rfl))
  | @unanswered z hrun =>
    have hl : LevelMoves s ((s.sent z true).returns .err) := .stays rfl rfl rfl
    refine h.keeps hl nofun ?_ (fun l hl => .inl hl) ?_
    · intro m hm
      rcases List.mem_append.mp hm with hold | hnew
      · exact .inl hold
      · cases List.mem_singleton.mp hnew
        exact .inr (hl.sent (now hrun rfl))
    · intro level hm
      rcases List.mem_append.mp hm with hold | hnew
      · exact .inl hold
      · cases List.mem_singleton.mp hnew
  | @landed i m hm =>
    have hsent := h.sent m (List.mem_of_getElem? hm)
    have hpositive : 0 < m.sizing.missing := by
      have hbelow := hsent.sized.below
      have hmissing := hsent.sized.missing
      omega
    have hl : LevelMoves s (s.landed i m) := .rises (Nat.lt_add_of_pos_right hpositive) rfl rfl
    refine h.keeps hl (fun stage z hstage hz => .inl ⟨stage, hstage, hz⟩)
      (fun k hk => .inl (List.mem_of_mem_eraseIdx hk)) ?_ (fun level hm => .inl hm)
    intro l hmem
    rcases List.mem_append.mp hmem with hold | hnew
    · exact .inl hold
    · cases List.mem_singleton.mp hnew
      exact .inr (hl.landed hsent.lands)
  | credited hpositive =>
    exact h.keeps (.rises (Nat.lt_add_of_pos_right hpositive) rfl rfl)
      (fun stage z hstage hz => .inl ⟨stage, hstage, hz⟩) (fun m hm => .inl hm)
      (fun l hl => .inl hl) (fun level hm => .inl hm)
  | spends _ =>
    exact h.keeps (.falls (Nat.sub_le _ _) rfl rfl)
      (fun stage z hstage hz => .inl ⟨stage, hstage, hz⟩) (fun m hm => .inl hm)
      (fun l hl => .inl hl) (fun level hm => .inl hm)

theorem reachable_sound (h : Reachable toRaw t) : Sound toRaw t := by
  refine TransactionSystem.Reachable.invariant ?_ ?_ h
  · rintro s ⟨level, rfl⟩
    exact sound_start level
  · intro s a t hs _ he
    exact hs.step (exec_step he)

/-- A run that returns `Ok` saw the target reached. No landing overshoots where each one finds the
level unraised since the reading its amount comes from; while nothing is spent, only there. -/
theorem topups_fit (h : Reachable toRaw t) :
    (∀ level, .ok level ∈ t.outcomes → toRaw ≤ level) ∧
      ((∀ l ∈ t.landings, l.Undisturbed) → ∀ l ∈ t.landings, l.Fits toRaw) ∧
      (t.spent = false → (∀ l ∈ t.landings, l.Fits toRaw) → ∀ l ∈ t.landings, l.Undisturbed) := by
  have hsound := reachable_sound h
  refine ⟨hsound.observed, ?_, ?_⟩
  · intro hall l hl
    exact (hsound.landed l hl).fits (hall l hl)
  · intro hs hall l hl
    exact (hsound.landed l hl).disturbed hs (hall l hl)

def sendingRun : List Action :=
  [.start, .read, .funded, .preflight 1000 fundingWalletNativeFloorRaw, .submit true true]

/-- One top-up of an empty note, from the reading to the poll that ends it. -/
theorem topups_fit_sample : ∃ t, Reachable 40 t ∧ t.landings.length = 1 ∧
    (∀ level, .ok level ∈ t.outcomes → 40 ≤ level) ∧ ∀ l ∈ t.landings, l.Fits 40 := by
  obtain ⟨t, hplay, hlength, hall⟩ : ∃ t, TransactionSystem.play (exec 40) (fun _ _ => True)
      (sendingRun ++ [Action.observe none, .land 0, .poll false]) (.start 0) = some t ∧
        t.landings.length = 1 ∧ ∀ l ∈ t.landings, l.Undisturbed :=
    ⟨_, rfl, rfl, by decide⟩
  have hreachable : Reachable 40 t := TransactionSystem.Reachable.play (.start ⟨0, rfl⟩) hplay
  have hfit := topups_fit hreachable
  exact ⟨t, hreachable, hlength, hfit.1, hfit.2.1 hall⟩

/-- The first run crashes after its POST, the second reads the level before that message lands, and
both messages land: a note that was to hold 40 holds 80. -/
theorem repeated_topup_overshoots : ∃ t, Reachable 40 t ∧ t.level = 80 ∧
    ¬∀ l ∈ t.landings, l.Fits 40 := by
  obtain ⟨t, hplay, hlevel, hnot⟩ : ∃ t, TransactionSystem.play (exec 40) (fun _ _ => True)
      (sendingRun ++ .crash :: sendingRun ++ [Action.land 0, .land 0]) (.start 0) = some t ∧
        t.level = 80 ∧ ¬∀ l ∈ t.landings, l.Fits 40 :=
    ⟨_, rfl, rfl, by decide⟩
  exact ⟨t, TransactionSystem.Reachable.play (.start ⟨0, rfl⟩) hplay, hlevel, hnot⟩

end NoteTopup
