import Mathlib.Data.Finset.Basic
import Mathlib.Logic.Function.Basic
import Dexdo.RunLatches

/-! # The buyer's continuity planner

The planner is given what the chain shows of the current deal and of a ready next one, and answers
with one action. -/
namespace BuyerContinuity

abbrev TokenContract := String

inductive DealOwner where
  | thisBuyer
  | wrongBuyer
  deriving DecidableEq, Repr

inductive DealPhase where
  | fundedNeverOpened (funded_age_secs : UInt64)
  | opened (idle_secs : UInt64)
  | handoverReady
  | closed
  deriving DecidableEq, Repr

structure DealFacts where
  token_contract : TokenContract
  owner : DealOwner
  phase : DealPhase
  remaining_tokens : Option UInt64
  deriving DecidableEq, Repr

inductive BuyerAction where
  | serveCurrent (token_contract : TokenContract)
  | prepareNextDeal (current : TokenContract)
  | switchToNextDeal (previous next : TokenContract)
  | cleanupUnopened (token_contract : TokenContract)
  | placeNextDeal (reason : String)
  | ignoreStale (token_contract : TokenContract)
  | failClosed (token_contract : TokenContract) (reason : String)
  | noop (reason : String)
  deriving DecidableEq, Repr

inductive ConsumerDemand where
  | idle
  | activeOrRecent
  deriving DecidableEq, Repr

def ConsumerDemand.isActiveOrRecent : ConsumerDemand → Bool
  | activeOrRecent => true
  | idle => false

structure ContinuityConfig where
  renewal_threshold_tokens : UInt64
  match_open_timeout_secs : UInt64

structure Planner where
  stale : Finset TokenContract
  pending_after : TokenContract → Option TokenContract

def default : Planner := ⟨∅, fun _ => none⟩

def Planner.notePendingNext (s : Planner) (current next : TokenContract) : Planner :=
  { s with pending_after := Function.update s.pending_after current (some next) }

def Planner.clearPendingNext (s : Planner) (current : TokenContract) : Planner :=
  { s with pending_after := Function.update s.pending_after current none }

def Planner.keepActive (s : Planner) (current : TokenContract) : Planner :=
  { s with stale := s.stale.erase current }

structure Tick where
  current : Option DealFacts
  ready_next : Option DealFacts
  cfg : ContinuityConfig
  consumer_demand : ConsumerDemand

/-- `HandoverReady` or `Opened`: as a next deal it takes over, as the current one it may run low. -/
def DealPhase.live : DealPhase → Bool
  | handoverReady => true
  | opened _ => true
  | _ => false

def DealFacts.low (d : DealFacts) (cfg : ContinuityConfig) : Bool :=
  d.remaining_tokens.any (· ≤ cfg.renewal_threshold_tokens)

/-- The purchase that a closed or a low deal asks for, unless one is pending. -/
def Planner.renew (s : Planner) (current : TokenContract) (demand : ConsumerDemand)
    (unwanted : String) (buy : BuyerAction) : BuyerAction × Planner :=
  if !demand.isActiveOrRecent then (.noop unwanted, s)
  else if (s.pending_after current).isSome then (.noop "next-deal-already-pending", s)
  else (buy, s.notePendingNext current "")

/-- A deal that serves or is about to: it is renewed when it runs low. -/
def Planner.serve (s : Planner) (d : DealFacts) (cfg : ContinuityConfig)
    (demand : ConsumerDemand) : BuyerAction × Planner :=
  if d.token_contract ∈ s.stale then (.ignoreStale d.token_contract, s)
  else if d.low cfg then
    s.renew d.token_contract demand "low-remaining-no-consumer-demand"
      (.prepareNextDeal d.token_contract)
  else (.serveCurrent d.token_contract, s)

/-- What the phase of the buyer's own current deal asks for. -/
def Planner.atPhase (s : Planner) (d : DealFacts) (cfg : ContinuityConfig)
    (demand : ConsumerDemand) : BuyerAction × Planner :=
  match d.phase with
  | .closed =>
    s.renew d.token_contract demand "closed-current-no-consumer-demand"
      (.placeNextDeal "closed-current")
  | .fundedNeverOpened age =>
    if d.token_contract ∈ s.stale then (.ignoreStale d.token_contract, s)
    else if cfg.match_open_timeout_secs ≤ age then
      (.cleanupUnopened d.token_contract, { s with stale := insert d.token_contract s.stale })
    else (.noop "waiting-for-handover", s)
  | .opened _ | .handoverReady => s.serve d cfg demand

def Planner.tickWithDemand (s : Planner) (t : Tick) : BuyerAction × Planner :=
  match t.current with
  | none =>
    if t.consumer_demand.isActiveOrRecent then (.placeNextDeal "no-current-deal", s)
    else (.noop "no-current-no-consumer-demand", s)
  | some current =>
    if current.owner ≠ .thisBuyer then (.failClosed current.token_contract "wrong-owner", s)
    else
      match t.ready_next with
      | none => s.atPhase current t.cfg t.consumer_demand
      | some next =>
        if next.owner ≠ .thisBuyer then (.failClosed next.token_contract "next-wrong-owner", s)
        else if next.phase.live then
          (.switchToNextDeal current.token_contract next.token_contract,
            s.clearPendingNext current.token_contract)
        else s.atPhase current t.cfg t.consumer_demand

def BuyerAction.purchase : BuyerAction → Bool
  | prepareNextDeal _ => true
  | placeNextDeal _ => true
  | _ => false

def BuyerAction.money : BuyerAction → Bool
  | prepareNextDeal _ => true
  | placeNextDeal _ => true
  | cleanupUnopened _ => true
  | _ => false

attribute [grind =] DealPhase.live BuyerAction.purchase BuyerAction.money

def Tick.Foreign (t : Tick) : Prop :=
  (∃ d, t.current = some d ∧ d.owner = .wrongBuyer) ∨
    ∃ n, t.ready_next = some n ∧ n.owner = .wrongBuyer

structure Stays (t : Tick) (d : DealFacts) : Prop where
  current : t.current = some d
  own : d.owner = .thisBuyer
  next : ∀ n, t.ready_next = some n → n.owner = .thisBuyer ∧ n.phase.live = false

structure Leaves (t : Tick) (d : DealFacts) : Prop where
  current : t.current = some d
  own : d.owner = .thisBuyer
  next : ∃ n, t.ready_next = some n ∧ n.owner = .thisBuyer ∧ n.phase.live = true

structure Due (s : Planner) (t : Tick) (d : DealFacts) : Prop where
  stays : Stays t d
  wanted : t.consumer_demand = .activeOrRecent
  needed : d.phase = .closed ∨
    d.token_contract ∉ s.stale ∧ d.phase.live = true ∧ d.low t.cfg = true

/-- Everything that a tick can do. -/
inductive Outcome (s : Planner) (t : Tick) : BuyerAction → Planner → Prop where
  | refill (hnone : t.current = none) (hd : t.consumer_demand = .activeOrRecent) :
      Outcome s t (.placeNextDeal "no-current-deal") s
  | lull (hnone : t.current = none) (hd : t.consumer_demand = .idle) :
      Outcome s t (.noop "no-current-no-consumer-demand") s
  | refused {d : DealFacts} {tc : TokenContract} {reason : String} (hcur : t.current = some d)
      (hf : t.Foreign) : Outcome s t (.failClosed tc reason) s
  | left {d n : DealFacts} (hl : Leaves t d) (hn : t.ready_next = some n) :
      Outcome s t (.switchToNextDeal d.token_contract n.token_contract)
        (s.clearPendingNext d.token_contract)
  | bought {d : DealFacts} {a : BuyerAction} (hdue : Due s t d)
      (hfree : s.pending_after d.token_contract = none) (ha : a.purchase = true) :
      Outcome s t a (s.notePendingNext d.token_contract "")
  | cleaned {d : DealFacts} (hs : Stays t d) (hnew : d.token_contract ∉ s.stale)
      {age : UInt64} (hp : d.phase = .fundedNeverOpened age) :
      Outcome s t (.cleanupUnopened d.token_contract)
        { s with stale := insert d.token_contract s.stale }
  | rested {d : DealFacts} {a : BuyerAction} (hs : Stays t d) (ha : a.money = false)
      (hn : Due s t d → s.pending_after d.token_contract ≠ none) : Outcome s t a s

variable {s : Planner} {t : Tick} {d : DealFacts} {c : TokenContract}

@[simp] theorem notePendingNext_self (n : TokenContract) :
    (s.notePendingNext c n).pending_after c = some n := Function.update_self _ _ _

@[simp] theorem clearPendingNext_self : (s.clearPendingNext c).pending_after c = none :=
  Function.update_self _ _ _

@[simp] theorem notePendingNext_stale (n : TokenContract) :
    (s.notePendingNext c n).stale = s.stale := rfl

@[simp] theorem clearPendingNext_stale : (s.clearPendingNext c).stale = s.stale := rfl

theorem owner_foreign {d : DealFacts} : d.owner ≠ .thisBuyer ↔ d.owner = .wrongBuyer := by
  cases d.owner <;> simp

theorem renew_outcome {unwanted : String} {buy : BuyerAction} (hs : Stays t d)
    (hneed : d.phase = .closed ∨
      d.token_contract ∉ s.stale ∧ d.phase.live = true ∧ d.low t.cfg = true)
    (hbuy : buy.purchase = true) :
    Outcome s t (s.renew d.token_contract t.consumer_demand unwanted buy).1
      (s.renew d.token_contract t.consumer_demand unwanted buy).2 := by
  unfold Planner.renew
  cases hk : t.consumer_demand with
  | idle =>
    refine .rested hs rfl fun hdue => ?_
    have hw := hdue.wanted
    rw [hk] at hw
    cases hw
  | activeOrRecent =>
    cases hp : s.pending_after d.token_contract with
    | none => exact .bought ⟨hs, hk, hneed⟩ hp hbuy
    | some n => exact .rested hs rfl fun _ => by simp [hp]

theorem stale_outcome (hs : Stays t d) (hmem : d.token_contract ∈ s.stale)
    (hopen : d.phase ≠ .closed) : Outcome s t (.ignoreStale d.token_contract) s := by
  refine .rested hs rfl fun hdue => ?_
  rcases hdue.needed with hc | ⟨hnew, -, -⟩
  · exact absurd hc hopen
  · exact absurd hmem hnew

theorem serve_outcome (hs : Stays t d) (hlive : d.phase.live = true) (hopen : d.phase ≠ .closed) :
    Outcome s t (s.serve d t.cfg t.consumer_demand).1 (s.serve d t.cfg t.consumer_demand).2 := by
  unfold Planner.serve
  by_cases hmem : d.token_contract ∈ s.stale
  · rw [if_pos hmem]
    exact stale_outcome hs hmem hopen
  · rw [if_neg hmem]
    by_cases hlow : d.low t.cfg = true
    · rw [if_pos hlow]
      exact renew_outcome hs (.inr ⟨hmem, hlive, hlow⟩) rfl
    · rw [if_neg hlow]
      refine .rested hs rfl fun hdue => ?_
      rcases hdue.needed with hc | ⟨-, -, hl⟩
      · exact absurd hc hopen
      · exact absurd hl hlow

theorem atPhase_outcome (hs : Stays t d) :
    Outcome s t (s.atPhase d t.cfg t.consumer_demand).1
      (s.atPhase d t.cfg t.consumer_demand).2 := by
  unfold Planner.atPhase
  cases hphase : d.phase with
  | closed => exact renew_outcome hs (.inl hphase) rfl
  | opened idle => exact serve_outcome hs (by rw [hphase]; rfl) (by simp [hphase])
  | handoverReady => exact serve_outcome hs (by rw [hphase]; rfl) (by simp [hphase])
  | fundedNeverOpened age =>
    by_cases hmem : d.token_contract ∈ s.stale
    · simp only [if_pos hmem]
      exact stale_outcome hs hmem (by simp [hphase])
    · simp only [if_neg hmem]
      by_cases hage : t.cfg.match_open_timeout_secs ≤ age
      · simp only [if_pos hage]
        exact .cleaned hs hmem hphase
      · simp only [if_neg hage]
        refine .rested hs rfl fun hdue => ?_
        rcases hdue.needed with hc | ⟨-, hl, -⟩
        · simp [hphase] at hc
        · simp [hphase, DealPhase.live] at hl

theorem tick_outcome (s : Planner) (t : Tick) :
    Outcome s t (s.tickWithDemand t).1 (s.tickWithDemand t).2 := by
  unfold Planner.tickWithDemand
  cases hcur : t.current with
  | none =>
    cases hk : t.consumer_demand with
    | idle => exact .lull hcur hk
    | activeOrRecent => exact .refill hcur hk
  | some d =>
    simp only
    by_cases hown : d.owner = .thisBuyer
    · rw [if_neg (not_not.mpr hown)]
      cases hnext : t.ready_next with
      | none => exact atPhase_outcome ⟨hcur, hown, by simp [hnext]⟩
      | some n =>
        simp only
        by_cases hn : n.owner = .thisBuyer
        · rw [if_neg (not_not.mpr hn)]
          cases hlive : n.phase.live with
          | true => exact .left ⟨hcur, hown, n, hnext, hn, hlive⟩ hnext
          | false =>
            refine atPhase_outcome ⟨hcur, hown, fun m hm => ?_⟩
            rw [hnext] at hm
            cases hm
            exact ⟨hn, hlive⟩
        · rw [if_pos hn]
          exact .refused hcur (.inr ⟨n, hnext, owner_foreign.mp hn⟩)
    · rw [if_pos hown]
      exact .refused hcur (.inl ⟨d, hcur, owner_foreign.mp hown⟩)

theorem Stays.not_leaves {e : DealFacts} (hs : Stays t d) : ¬ Leaves t e := by
  rintro ⟨-, -, n, hn, -, hlive⟩
  rw [(hs.next n hn).2] at hlive
  cases hlive

theorem Stays.not_foreign (hs : Stays t d) : ¬ t.Foreign := by
  rintro (⟨e, he, hw⟩ | ⟨n, hn, hw⟩)
  · rw [hs.current] at he
    cases he
    rw [hs.own] at hw
    cases hw
  · rw [(hs.next n hn).1] at hw
    cases hw

theorem Stays.unique {e : DealFacts} (hs : Stays t d) (he : Stays t e) : e = d :=
  Option.some.inj (he.current.symm.trans hs.current)

/-- With a current deal, a purchase is made just where one is due and none is pending. -/
theorem purchase_iff (hcur : t.current = some d) :
    (s.tickWithDemand t).1.purchase = true ↔
      Due s t d ∧ s.pending_after d.token_contract = none := by
  have hsame : ∀ {e : DealFacts}, t.current = some e → e = d := fun he =>
    Option.some.inj (he.symm.trans hcur)
  have hout := tick_outcome s t
  generalize s.tickWithDemand t = out at hout ⊢
  obtain ⟨a, s'⟩ := out
  cases hout with
  | refill hnone _ => simp [hnone] at hcur
  | lull hnone _ => simp [hnone] at hcur
  | refused _ hf =>
    refine iff_of_false (by simp [BuyerAction.purchase]) ?_
    rintro ⟨hdue, -⟩
    exact hdue.stays.not_foreign hf
  | left hl hn =>
    refine iff_of_false (by simp [BuyerAction.purchase]) ?_
    rintro ⟨hdue, -⟩
    exact hdue.stays.not_leaves hl
  | bought hdue hfree ha =>
    obtain rfl := hsame hdue.stays.current
    exact iff_of_true ha ⟨hdue, hfree⟩
  | cleaned hs hnew hp =>
    obtain rfl := hsame hs.current
    refine iff_of_false (by simp [BuyerAction.purchase]) ?_
    rintro ⟨hdue, -⟩
    rcases hdue.needed with hc | ⟨-, hl, -⟩
    · simp [hp] at hc
    · simp [hp, DealPhase.live] at hl
  | rested hs ha hn =>
    obtain rfl := hsame hs.current
    refine iff_of_false ?_ fun h => hn h.1 h.2
    intro hbuy
    cases a <;> simp_all [BuyerAction.purchase, BuyerAction.money]

theorem purchase_pending (hcur : t.current = some d)
    (hbuy : (s.tickWithDemand t).1.purchase = true) :
    (s.tickWithDemand t).2.pending_after d.token_contract ≠ none := by
  have hout := tick_outcome s t
  generalize s.tickWithDemand t = out at hout hbuy ⊢
  obtain ⟨a, s'⟩ := out
  cases hout with
  | refill hnone _ => simp [hnone] at hcur
  | lull hnone _ => simp [hnone] at hcur
  | refused _ _ => simp [BuyerAction.purchase] at hbuy
  | left _ _ => simp [BuyerAction.purchase] at hbuy
  | @bought e _ hdue _ _ =>
    obtain rfl : e = d := Option.some.inj (hdue.stays.current.symm.trans hcur)
    simp
  | cleaned _ _ _ => simp [BuyerAction.purchase] at hbuy
  | rested _ ha _ =>
    cases a <;> simp_all [BuyerAction.purchase, BuyerAction.money]

theorem cleanup_marks (h : (s.tickWithDemand t).1 = .cleanupUnopened c) :
    c ∉ s.stale ∧ c ∈ (s.tickWithDemand t).2.stale := by
  have hout := tick_outcome s t
  generalize s.tickWithDemand t = out at hout h ⊢
  obtain ⟨a, s'⟩ := out
  simp only at h
  subst h
  cases hout with
  | bought _ _ ha => simp [BuyerAction.purchase] at ha
  | cleaned _ hnew _ => exact ⟨hnew, Finset.mem_insert_self _ _⟩
  | rested _ ha _ => simp [BuyerAction.money] at ha

/-- A money action taken with a current deal is not taken again by the same tick, which then
changes nothing. -/
theorem repeat_idle (hcur : t.current ≠ none) (h : (s.tickWithDemand t).1.money = true) :
    ((s.tickWithDemand t).2.tickWithDemand t).1.money = false ∧
      ((s.tickWithDemand t).2.tickWithDemand t).2 = (s.tickWithDemand t).2 := by
  have hout := tick_outcome s t
  generalize s.tickWithDemand t = out at hout h ⊢
  obtain ⟨a, s'⟩ := out
  have hagain := tick_outcome s' t
  simp only
  generalize s'.tickWithDemand t = again at hagain ⊢
  obtain ⟨b, s''⟩ := again
  -- the first tick saw the buyer's own deal with no successor, so the second does
  have hrest : ∀ e, Stays t e →
      (∀ e', Due s' t e' → s'.pending_after e'.token_contract ≠ none) →
      (∀ e' age, Stays t e' → e'.phase = .fundedNeverOpened age → e'.token_contract ∈ s'.stale) →
      b.money = false ∧ s'' = s' := by
    intro e hs hpend hstale
    cases hagain with
    | refill hnone _ => exact absurd hnone hcur
    | lull hnone _ => exact absurd hnone hcur
    | refused _ hf => exact absurd hf hs.not_foreign
    | left hl _ => exact absurd hl hs.not_leaves
    | bought hdue hfree _ => exact absurd hfree (hpend _ hdue)
    | cleaned hs' hnew hp => exact absurd (hstale _ _ hs' hp) hnew
    | rested _ ha _ => exact ⟨ha, rfl⟩
  cases hout with
  | refill hnone _ => exact absurd hnone hcur
  | lull _ _ => simp [BuyerAction.money] at h
  | refused _ _ => simp [BuyerAction.money] at h
  | left _ _ => simp [BuyerAction.money] at h
  | bought hdue hfree _ =>
    refine hrest _ hdue.stays (fun e hdue' => ?_) fun e age hs hp => ?_
    · rw [hdue.stays.unique hdue'.stays]
      simp
    · rw [hdue.stays.unique hs] at hp
      rcases hdue.needed with hc | ⟨-, hl, -⟩
      · simp [hp] at hc
      · simp [hp, DealPhase.live] at hl
  | cleaned hs hnew hp =>
    refine hrest _ hs (fun e hdue' => ?_) fun e age hs' _ => ?_
    · have hneed := hdue'.needed
      rw [hs.unique hdue'.stays] at hneed
      rcases hneed with hc | ⟨-, hl, -⟩
      · simp [hp] at hc
      · simp [hp, DealPhase.live] at hl
    · rw [hs.unique hs']
      exact Finset.mem_insert_self _ _
  | rested _ ha _ =>
    rw [ha] at h
    cases h

theorem tick_keeps_pending (h : s.pending_after c ≠ none)
    (hl : ∀ d, Leaves t d → d.token_contract ≠ c) :
    (s.tickWithDemand t).2.pending_after c ≠ none := by
  have hout := tick_outcome s t
  generalize s.tickWithDemand t = out at hout ⊢
  obtain ⟨a, s'⟩ := out
  cases hout with
  | left hleft _ =>
    change Function.update s.pending_after _ none c ≠ none
    rwa [Function.update_of_ne (Ne.symm (hl _ hleft))]
  | @bought e _ _ _ _ =>
    by_cases he : c = e.token_contract
    · simp [he]
    · change Function.update s.pending_after _ (some "") c ≠ none
      rwa [Function.update_of_ne he]
  | _ => exact h

theorem tick_keeps_stale (h : c ∈ s.stale) : c ∈ (s.tickWithDemand t).2.stale := by
  have hout := tick_outcome s t
  generalize s.tickWithDemand t = out at hout ⊢
  obtain ⟨a, s'⟩ := out
  cases hout with
  | cleaned _ _ _ => exact Finset.mem_insert_of_mem h
  | _ => exact h

theorem foreign_fails (hcur : t.current ≠ none) (hf : t.Foreign) :
    ∃ tc reason, (s.tickWithDemand t).1 = .failClosed tc reason := by
  have hout := tick_outcome s t
  generalize s.tickWithDemand t = out at hout ⊢
  obtain ⟨a, s'⟩ := out
  cases hout with
  | refill hnone _ => exact absurd hnone hcur
  | lull hnone _ => exact absurd hnone hcur
  | refused _ _ => exact ⟨_, _, rfl⟩
  | left hl hn =>
    obtain ⟨hd, hown, m, hm, hmown, -⟩ := hl
    rcases hf with ⟨e, he, hw⟩ | ⟨k, hk, hw⟩
    · rw [hd] at he
      cases he
      rw [hown] at hw
      cases hw
    · rw [hm] at hk
      cases hk
      rw [hmown] at hw
      cases hw
  | bought hdue _ _ => exact absurd hf hdue.stays.not_foreign
  | cleaned hs _ _ => exact absurd hf hs.not_foreign
  | rested hs _ _ => exact absurd hf hs.not_foreign

theorem idle_buys_nothing (hk : t.consumer_demand = .idle) :
    (s.tickWithDemand t).1.purchase = false := by
  have hout := tick_outcome s t
  generalize s.tickWithDemand t = out at hout ⊢
  obtain ⟨a, s'⟩ := out
  cases hout with
  | refill _ hd => simp [hk] at hd
  | bought hdue _ _ =>
    have hw := hdue.wanted
    rw [hk] at hw
    cases hw
  | rested _ ha _ => cases a <;> simp_all [BuyerAction.purchase, BuyerAction.money]
  | _ => rfl

end BuyerContinuity
