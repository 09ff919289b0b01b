import Dexdo.BuyerContinuity

/-! # Runs of the continuity planner

Every history of ticks and of the monitor's notes. -/
namespace BuyerContinuity

inductive Op where
  | tickWithDemand (t : Tick)
  | notePendingNext (current next : TokenContract)
  | clearPendingNext (current : TokenContract)
  | keepActive (current : TokenContract)

def perform : Op → Planner → Planner
  | .tickWithDemand t, s => (s.tickWithDemand t).2
  | .notePendingNext current next, s => s.notePendingNext current next
  | .clearPendingNext current, s => s.clearPendingNext current
  | .keepActive current, s => s.keepActive current

abbrev exec (o : Op) (s : Planner) : Except Empty Planner := .ok (perform o s)

abbrev anyOp (_ : Planner) (_ : Op) : Prop := True

abbrev Record := TransactionSystem.Record Planner Op

def history (ops : List Op) : List Record := TransactionSystem.history perform ops default

theorem history_run (ops : List Op) :
    ∃ s, TransactionSystem.Run exec anyOp default (history ops) s :=
  TransactionSystem.Run.history (fun _ _ => rfl) (fun _ _ => trivial) ops .nil

def Buys (c : TokenContract) (r : Record) : Prop :=
  ∃ t d, r.act = .tickWithDemand t ∧ t.current = some d ∧ d.token_contract = c ∧
    (r.pre.tickWithDemand t).1.purchase = true

def CleansUp (c : TokenContract) (r : Record) : Prop :=
  ∃ t, r.act = .tickWithDemand t ∧ (r.pre.tickWithDemand t).1 = .cleanupUnopened c

def LeavesFor (c : TokenContract) (r : Record) : Prop :=
  ∃ t d, r.act = .tickWithDemand t ∧ Leaves t d ∧ d.token_contract = c

/-- A tick on which `c` asks for a purchase and none is pending for it. -/
def Wants (c : TokenContract) (r : Record) : Prop :=
  ∃ t d, r.act = .tickWithDemand t ∧ Due r.pre t d ∧ d.token_contract = c ∧
    r.pre.pending_after c = none

/-- No money action of the history is taken twice. -/
structure TakenOnce (l : List Record) : Prop where
  repeated : ∀ r ∈ l, ∀ t, r.act = .tickWithDemand t →
    (r.pre.tickWithDemand t).1.money = true →
      (r.post.tickWithDemand t).1.money = false ∧ (r.post.tickWithDemand t).2 = r.post
  bought : ∀ l₁ r₁ l₂ r₂ l₃ c, l = l₁ ++ r₁ :: l₂ ++ r₂ :: l₃ → Buys c r₁ → Buys c r₂ →
    ∃ r ∈ l₂, r.act = .clearPendingNext c
  cleaned : ∀ l₁ r₁ l₂ r₂ l₃ c, l = l₁ ++ r₁ :: l₂ ++ r₂ :: l₃ → CleansUp c r₁ →
    CleansUp c r₂ → ∃ r ∈ l₂, r.act = .keepActive c
  wanted : ∀ r ∈ l, ∀ t, r.act = .tickWithDemand t → t.consumer_demand = .idle →
    (r.pre.tickWithDemand t).1.purchase = false
  owned : ∀ r ∈ l, ∀ t, r.act = .tickWithDemand t → t.Foreign →
    ∃ tc reason, (r.pre.tickWithDemand t).1 = .failClosed tc reason

/-- A purchase for `c` was due, `c` was then left for a successor, and nothing has cleared `c`
since. -/
def Forgotten (l : List Record) (c : TokenContract) : Prop :=
  ∃ l₁ r₁ l₂ r₂ l₃, l = l₁ ++ r₁ :: l₂ ++ r₂ :: l₃ ∧ Wants c r₁ ∧ LeavesFor c r₂ ∧
    ∀ r ∈ l₂ ++ r₂ :: l₃, r.act ≠ .clearPendingNext c

structure Sound (l : List Record) (r : Record) (t : Tick) : Prop where
  present : t.current = none → t.consumer_demand = .idle ∧ ¬ t.Foreign
  remembered : ∀ c, Wants c r → ¬ Forgotten l c

def SoundRun (l : List Record) : Prop :=
  ∀ l₁ r l₂, l = l₁ ++ r :: l₂ → ∀ t, r.act = .tickWithDemand t → Sound l₁ r t

variable {r : Record} {c : TokenContract}

theorem buys_iff_wants : Buys c r ↔ Wants c r := by
  constructor
  · rintro ⟨t, d, hact, hcur, rfl, hbuy⟩
    obtain ⟨hdue, hfree⟩ := (purchase_iff hcur).mp hbuy
    exact ⟨t, d, hact, hdue, rfl, hfree⟩
  · rintro ⟨t, d, hact, hdue, rfl, hfree⟩
    exact ⟨t, d, hact, hdue.stays.current, rfl,
      (purchase_iff hdue.stays.current).mpr ⟨hdue, hfree⟩⟩

theorem performed (h : exec r.act r.pre = .ok r.post) : r.post = perform r.act r.pre :=
  (Except.ok.inj h).symm

theorem buys_sets (h : exec r.act r.pre = .ok r.post) (hb : Buys c r) :
    r.post.pending_after c ≠ none := by
  obtain ⟨t, d, hact, hcur, rfl, hbuy⟩ := hb
  rw [performed h, hact]
  exact purchase_pending hcur hbuy

theorem pending_kept (h : exec r.act r.pre = .ok r.post) (hp : r.pre.pending_after c ≠ none)
    (hn : ¬ (r.act = .clearPendingNext c ∨ LeavesFor c r)) : r.post.pending_after c ≠ none := by
  obtain ⟨hclear, hleave⟩ := not_or.mp hn
  rw [performed h]
  cases hact : r.act with
  | tickWithDemand t =>
    exact tick_keeps_pending hp fun d hl hd => hleave ⟨t, d, hact, hl, hd⟩
  | notePendingNext b n =>
    change Function.update r.pre.pending_after b (some n) c ≠ none
    by_cases hb : c = b
    · simp [hb]
    · rwa [Function.update_of_ne hb]
  | clearPendingNext b =>
    have hb : c ≠ b := by
      rintro rfl
      exact hclear hact
    change Function.update r.pre.pending_after b none c ≠ none
    rwa [Function.update_of_ne hb]
  | keepActive b => exact hp

theorem stale_kept (h : exec r.act r.pre = .ok r.post) (hp : c ∈ r.pre.stale)
    (hn : r.act ≠ .keepActive c) : c ∈ r.post.stale := by
  rw [performed h]
  cases hact : r.act with
  | tickWithDemand t => exact tick_keeps_stale hp
  | notePendingNext b n => exact hp
  | clearPendingNext b => exact hp
  | keepActive b =>
    have hb : c ≠ b := by
      rintro rfl
      exact hn hact
    exact Finset.mem_erase.mpr ⟨hb, hp⟩

variable {l l₁ l₂ l₃ : List Record} {r₁ r₂ : Record} {s : Planner}

theorem cleaned_once
    (h : TransactionSystem.Run exec anyOp default (l₁ ++ r₁ :: l₂ ++ r₂ :: l₃) s)
    (h₁ : CleansUp c r₁) (h₂ : CleansUp c r₂) : ∃ r ∈ l₂, r.act = .keepActive c := by
  obtain ⟨t₁, hact₁, hc₁⟩ := h₁
  obtain ⟨t₂, -, hc₂⟩ := h₂
  have hassoc : l₁ ++ r₁ :: l₂ ++ r₂ :: l₃ = l₁ ++ r₁ :: (l₂ ++ r₂ :: l₃) := by simp
  obtain ⟨-, -, he₁⟩ := h.split hassoc
  have hset : c ∈ r₁.post.stale := by
    rw [performed he₁, hact₁]
    exact (cleanup_marks hc₁).2
  exact h.cleared_between (I := fun s => c ∈ s.stale)
    (fun r he hp hn => stale_kept he hp hn) hset (cleanup_marks hc₂).1

theorem bought_again
    (h : TransactionSystem.Run exec anyOp default (l₁ ++ r₁ :: l₂ ++ r₂ :: l₃) s)
    (h₁ : Buys c r₁) (h₂ : Buys c r₂) :
    ∃ r ∈ l₂, r.act = .clearPendingNext c ∨ LeavesFor c r := by
  have hassoc : l₁ ++ r₁ :: l₂ ++ r₂ :: l₃ = l₁ ++ r₁ :: (l₂ ++ r₂ :: l₃) := by simp
  obtain ⟨-, -, he₁⟩ := h.split hassoc
  obtain ⟨-, -, -, -, -, hfree⟩ := buys_iff_wants.mp h₂
  exact h.cleared_between (I := fun s => s.pending_after c ≠ none)
    (fun r he hp hn => pending_kept he hp hn) (buys_sets he₁ h₁) (not_not.mpr hfree)

theorem no_current_money {t : Tick} (hcur : t.current = none)
    (hk : t.consumer_demand = .activeOrRecent) (s : Planner) :
    (s.tickWithDemand t).1.money = true := by
  unfold Planner.tickWithDemand
  simp [hcur, hk, ConsumerDemand.isActiveOrRecent, BuyerAction.money]

theorem no_current_open {t : Tick} (hcur : t.current = none) (s : Planner)
    (tc : TokenContract) (reason : String) : (s.tickWithDemand t).1 ≠ .failClosed tc reason := by
  unfold Planner.tickWithDemand
  cases hk : t.consumer_demand <;> simp [hcur, ConsumerDemand.isActiveOrRecent]

theorem TakenOnce.soundRun (h : TakenOnce l) : SoundRun l := by
  rintro l₁ r l₂ rfl t hact
  have hmem : r ∈ l₁ ++ r :: l₂ := by simp
  refine ⟨fun hcur => ⟨?_, fun hf => ?_⟩, ?_⟩
  · cases hk : t.consumer_demand with
    | idle => rfl
    | activeOrRecent =>
      obtain ⟨hidle, -⟩ := h.repeated r hmem t hact (no_current_money hcur hk r.pre)
      rw [no_current_money hcur hk r.post] at hidle
      cases hidle
  · obtain ⟨tc, reason, hfail⟩ := h.owned r hmem t hact hf
    exact no_current_open hcur r.pre tc reason hfail
  · rintro c hwant ⟨a, r₁, b, r₂, d, rfl, hfirst, -, hclear⟩
    obtain ⟨q, hq, hqc⟩ := h.bought a r₁ (b ++ r₂ :: d) r l₂ c (by simp)
      (buys_iff_wants.mpr hfirst) (buys_iff_wants.mpr hwant)
    exact hclear q hq hqc

theorem SoundRun.bought (h : TransactionSystem.Run exec anyOp default l s) (hs : SoundRun l)
    (hl : l = l₁ ++ r₁ :: l₂ ++ r₂ :: l₃) (h₁ : Buys c r₁) (h₂ : Buys c r₂) :
    ∃ r ∈ l₂, r.act = .clearPendingNext c := by
  subst hl
  by_contra hnone
  obtain ⟨q, hq, hclear | hleave⟩ := bought_again h h₁ h₂
  · exact hnone ⟨q, hq, hclear⟩
  -- the purchase was forgotten where `c` was left, so the second one is not sound
  · obtain ⟨a, b, rfl⟩ := List.append_of_mem hq
    obtain ⟨t, d, hact, -⟩ := buys_iff_wants.mp h₂
    refine (hs _ r₂ l₃ rfl t hact).remembered c (buys_iff_wants.mp h₂)
      ⟨l₁, r₁, a, q, b, by simp, buys_iff_wants.mp h₁, hleave, fun r hr hc => ?_⟩
    exact hnone ⟨r, hr, hc⟩

theorem SoundRun.takenOnce (h : TransactionSystem.Run exec anyOp default l s)
    (hs : SoundRun l) : TakenOnce l := by
  have hstep : ∀ r ∈ l, exec r.act r.pre = .ok r.post ∧
      ∀ t, r.act = .tickWithDemand t → t.current = none →
        t.consumer_demand = .idle ∧ ¬ t.Foreign := by
    intro r hr
    obtain ⟨a, b, hab⟩ := List.append_of_mem hr
    obtain ⟨-, -, he⟩ := h.split hab
    exact ⟨he, fun t hact => (hs a r b hab t hact).present⟩
  refine ⟨?_, ?_, ?_, ?_, ?_⟩
  · intro r hr t hact hmoney
    obtain ⟨he, hpresent⟩ := hstep r hr
    rw [performed he, hact]
    by_cases hcur : t.current = none
    · obtain ⟨hidle, -⟩ := hpresent t hact hcur
      unfold Planner.tickWithDemand at hmoney
      simp [hcur, hidle, ConsumerDemand.isActiveOrRecent, BuyerAction.money] at hmoney
    · exact repeat_idle hcur hmoney
  · intro l₁ r₁ l₂ r₂ l₃ c hl h₁ h₂
    exact hs.bought h hl h₁ h₂
  · rintro l₁ r₁ l₂ r₂ l₃ c rfl h₁ h₂
    exact cleaned_once h h₁ h₂
  · intro r _ t _ hidle
    exact idle_buys_nothing hidle
  · intro r hr t hact hf
    by_cases hcur : t.current = none
    · exact absurd hf ((hstep r hr).2 t hact hcur).2
    · exact foreign_fails hcur hf

/-- No money action of a history is taken twice just where every tick that could buy or that
shows another buyer's deal has a current deal, and no deal asks for a purchase again after it
was left for its successor. -/
theorem taken_once_iff (ops : List Op) : TakenOnce (history ops) ↔ SoundRun (history ops) := by
  obtain ⟨s, hrun⟩ := history_run ops
  exact ⟨TakenOnce.soundRun, SoundRun.takenOnce hrun⟩

section Violations

def threshold : ContinuityConfig := ⟨1000, 60⟩

def lowDeal : DealFacts := ⟨"tc-a", .thisBuyer, .opened 0, some 9⟩

def readyDeal : DealFacts := ⟨"tc-b", .thisBuyer, .handoverReady, some 5000⟩

def absentTick : Tick := ⟨none, none, threshold, .activeOrRecent⟩

def lowTick : Tick := ⟨some lowDeal, none, threshold, .activeOrRecent⟩

def readyTick : Tick := ⟨some lowDeal, some readyDeal, threshold, .activeOrRecent⟩

/-- A tick with no current deal buys again when it is repeated, and a deal that was left for its
successor and comes back as the current one is renewed again. -/
theorem absent_deal_bought_twice :
    ¬ TakenOnce (history [.tickWithDemand absentTick]) ∧
      ¬ TakenOnce (history [.tickWithDemand lowTick, .tickWithDemand readyTick,
        .tickWithDemand lowTick]) := by
  refine ⟨fun h => ?_, fun h => ?_⟩
  · obtain ⟨hidle, -⟩ := h.repeated _ (List.mem_singleton_self _) absentTick rfl (by decide)
    revert hidle
    decide
  · obtain ⟨r, hr, hc⟩ := h.bought [] _ [_] _ [] "tc-a" rfl
      ⟨lowTick, lowDeal, rfl, rfl, rfl, by decide⟩ ⟨lowTick, lowDeal, rfl, rfl, rfl, by decide⟩
    obtain rfl := List.mem_singleton.mp hr
    cases hc

end Violations

end BuyerContinuity
