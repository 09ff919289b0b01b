import Dexdo.WeeklyBudgetCeiling

/-! # What one step of a weekly route keeps

The anchor, the published ceiling and the deal move at different times; the invariant says which
state of the deal the published ceiling was computed from, and that nothing delivered or in flight
exceeds it. -/
namespace WeeklyBudget

open TokenContractState TokenContractCalls TokenContractGetters DealGetters RouteBudget
open TokenContractSteps TokenContractInvariant TokenContractStreaming TokenContractQuota
open SubscriptionKeeper SubscriptionKeeperPlan SubscriptionKeeperChain TokenContractLedger

variable {env : Env} {gate : ContentGate} {s₀ s t u v : Deal} {x y : System} {j k i n c q : ℕ}
  {past : List Deal} {last : Deal} {a : RouteBudget.Action} {route route' : RouteBudget.State}
  {anchor : ℕ}

/-! ## The states of the deal -/

structure Trail (past : List Deal) (last : Deal) : Prop where
  ends : past.getLast? = some last
  onward : ∀ (j k : ℕ) (u v : Deal), j ≤ k → past[j]? = some u → past[k]? = some v → Onward u v

theorem Trail.start (s : Deal) : Trail [s] s where
  ends := rfl
  onward := by
    intro j k u v _ hu hv
    have hju : u = s := by
      rw [List.getElem?_singleton] at hu
      split at hu <;> cases hu
      rfl
    have hkv : v = s := by
      rw [List.getElem?_singleton] at hv
      split at hv <;> cases hv
      rfl
    rw [hju, hkv]
    exact .refl s

theorem Trail.toLast (h : Trail past last) (hu : past[j]? = some u) : Onward u last := by
  have hlast := h.ends
  rw [List.getLast?_eq_getElem?] at hlast
  have hlt : j < past.length := (List.getElem?_eq_some_iff.mp hu).1
  exact h.onward j (past.length - 1) u last (by omega) hu hlast

theorem Trail.append (h : Trail past last) (hst : Onward last t) : Trail (past ++ [t]) t where
  ends := by simp
  onward := by
    intro j k u v hjk hu hv
    by_cases hk : k < past.length
    · rw [List.getElem?_append_left hk] at hv
      rw [List.getElem?_append_left (by omega)] at hu
      exact h.onward j k u v hjk hu hv
    · have hlt := (List.getElem?_eq_some_iff.mp hv).1
      rw [List.length_append, List.length_singleton] at hlt
      have hkeq : k = past.length := by omega
      subst hkeq
      rw [List.getElem?_concat_length] at hv
      cases hv
      by_cases hj : j < past.length
      · rw [List.getElem?_append_left hj] at hu
        exact (h.toLast hu).trans hst
      · have hjeq : j = past.length := by omega
        subst hjeq
        rw [List.getElem?_concat_length] at hu
        cases hu
        exact .refl _

/-! ## What the counters stay under -/

/-- A ceiling for everything delivered, in flight, or still to be admitted. -/
structure Bounded (route : RouteBudget.State) (anchor q : ℕ) : Prop where
  ceiling : route.tokenCeiling + anchor ≤ q
  delivered : route.deliveredTokens + anchor ≤ q
  charges : ∀ i r stage ch, route.at' i = .holding r stage (some ch) → ch.ceiling + anchor ≤ q

theorem Bounded.mono (h : Bounded route anchor q) (hq : q ≤ n) : Bounded route anchor n :=
  ⟨h.ceiling.trans hq, h.delivered.trans hq,
    fun i r stage ch hat => (h.charges i r stage ch hat).trans hq⟩

theorem charge_origin {r : RouteReservation} {stage : Stage} {ch : Charge}
    (hm : Move gate route a route') (hat : route'.at' j = .holding r stage (some ch)) :
    (route.at' j = .holding r stage (some ch) ∧ a ≠ .accept j) ∨
      ∃ n, a = .charge j n ∧ ch.ceiling = route.tokenCeiling := by
  by_cases ha : a.actor = some j
  · cases hm with
    | published | cutover => cases ha
    | overdrawn hold =>
      cases ha
      rw [hold] at hat
      cases hat
    | charging hold htakes hle =>
      cases ha
      rw [at_put] at hat
      cases hat
      exact .inr ⟨_, rfl, rfl⟩
    | anchored hold hflag | unanchored hold hflag | loadCeiling hold =>
      cases ha
      rw [at_put] at hat
      cases hat
    | _ =>
      cases ha
      rw [at_put] at hat
      cases hat
  · rw [hm.others ha] at hat
    refine .inl ⟨hat, ?_⟩
    rintro rfl
    exact ha rfl

theorem delivered_kept (hm : Move gate route a route') (ha : ∀ i, a ≠ .accept i) :
    route'.deliveredTokens = route.deliveredTokens := by
  cases hm with
  | accepted | rejected => exact absurd rfl (ha _)
  | _ => rfl

theorem delivered_le (hm : Move gate route a route') :
    route.deliveredTokens ≤ route'.deliveredTokens := by
  cases hm with
  | accepted hat hceil hlt => exact Nat.le_add_right _ _
  | _ => exact le_rfl

theorem Bounded.move (h : Bounded route anchor q) (hm : Move gate route a route')
    (ha : ¬ a.MovesCeiling) : Bounded route' anchor q where
  ceiling := by
    rw [hm.tokenCeiling_kept ha]
    exact h.ceiling
  delivered := by
    cases hm with
    | accepted hat hceil hlt =>
      have hbound := h.charges _ _ _ _ hat
      simp only [put_deliveredTokens] at hbound ⊢
      omega
    | _ => exact h.delivered
  charges := by
    intro i r stage ch hat
    rcases charge_origin hm hat with ⟨hold, -⟩ | ⟨n, -, hceil⟩
    · exact h.charges i r stage ch hold
    · rw [hceil]
      exact h.ceiling

/-! ## The invariant -/

def Taken (x : System) (v : KeeperSnapshot) : Prop :=
  ∃ u, x.past[x.cursor]? = some u ∧ v = keeperView u ∧ termIsOver v.subscription = false

def Cut (x : System) (v : KeeperSnapshot) (rebased : Bool) : Prop :=
  if rebased then x.anchorLock = some .cutover ∧ v.deal.probeAccepted = true ∧
    x.route.anchoredBeforeProbe = true
  else x.anchorLock ≠ some .cutover

def Rebased (x : System) (rebased : Bool) : Prop :=
  rebased = true → x.route.deliveredTokens + x.claimAnchor = tickSize

def Priced (x : System) (rebased : Bool) (ceiling : ℕ) : Prop :=
  rebased = true ∨ x.route.anchoredBeforeProbe = false →
    ∀ u, x.past[x.cursor]? = some u → ceiling + x.claimAnchor ≤ quota u

def Pass.Sound (x : System) : Pass → Prop
  | .finished _ => x.anchorLock ≠ some .cutover
  | .booking => x.anchorLock ≠ some .cutover
  | .reading _ => x.anchorLock ≠ some .cutover
  | .locking v republished => x.anchorLock ≠ some .cutover ∧ Taken x v ∧
    republished = (x.publishedWeek != v.subscription.weekIndex)
  | .sampling v republished rebased => Cut x v rebased ∧ Taken x v ∧
    republished = (x.publishedWeek != v.subscription.weekIndex)
  | .computing v republished rebased => Cut x v rebased ∧ Taken x v ∧
    republished = (x.publishedWeek != v.subscription.weekIndex) ∧ Rebased x rebased
  | .comparing v rebased ceiling => Cut x v rebased ∧ Taken x v ∧ Rebased x rebased ∧
    ceiling < u64 ∧ Priced x rebased ceiling
  | .storingCeiling v rebased ceiling drawn => Cut x v rebased ∧ Taken x v ∧ Rebased x rebased ∧
    ceiling < u64 ∧ Priced x rebased ceiling ∧
    (drawn = true → ceiling ≤ x.route.deliveredTokens)
  | .storingWeek v rebased _ => Cut x v rebased ∧ Taken x v ∧ Rebased x rebased ∧
    Priced x rebased x.route.tokenCeiling
  | .storingExpiry v rebased _ => Cut x v rebased ∧ Taken x v ∧ Rebased x rebased ∧
    Priced x rebased x.route.tokenCeiling ∧ x.publishedWeek = v.subscription.weekIndex
  | .clearing _ => ∃ v, Cut x v true ∧ Taken x v ∧ Rebased x true ∧
    Priced x true x.route.tokenCeiling ∧ x.publishedWeek = v.subscription.weekIndex

def Pass.midway : Pass → Bool
  | .storingWeek _ _ _ => true
  | _ => false

def Posted (x : System) : Prop :=
  ∃ k u, k ≤ x.cursor ∧ x.past[k]? = some u ∧
    (x.pass.midway = false → u.weekIndex = x.publishedWeek) ∧
    Bounded x.route x.claimAnchor (quota u)

/-- What was delivered when `acceptProbe` executed. -/
structure Metered (s₀ : Deal) (x : System) : Prop where
  built : s₀.probeAccepted = true → x.route.anchoredBeforeProbe = false ∧
    x.claimAnchor = s₀.tokensPend ∧ x.atAcceptance = none
  before : x.chain.probeAccepted = false →
    x.route.anchoredBeforeProbe = true ∧ x.atAcceptance = none
  after : s₀.probeAccepted = false → x.chain.probeAccepted = true →
    ∃ d, x.atAcceptance = some d ∧ d ≤ x.route.deliveredTokens ∧
      (x.route.anchoredBeforeProbe = true → x.route.deliveredTokens = d) ∧
      (x.route.anchoredBeforeProbe = false → d + x.claimAnchor = tickSize)

structure Tight (s₀ : Deal) (gate : ContentGate) (x : System) : Prop where
  sound : RouteBudget.Sound gate x.route
  early : x.route.anchoredBeforeProbe = true → Early x.route
  alive : ∀ (k : ℕ) (u : Deal), x.past[k]? = some u → OpenSubscription u
  trail : Trail x.past x.chain
  first : x.past[0]? = some s₀
  cursor : x.cursor < x.past.length
  charges : ∀ i r stage ch, x.route.at' i = .holding r stage (some ch) →
    x.anchorLock = some (.chunk i)
  pass : x.pass.Sound x
  posted : x.route.anchoredBeforeProbe = false → Posted x
  metered : Metered s₀ x

/-! ## What a pass relies on -/

/-- Whatever happens beside a pass leaves this as the pass needs it. -/
structure Beside (x y : System) : Prop where
  lock : y.anchorLock = some .cutover ↔ x.anchorLock = some .cutover
  held : x.anchorLock = some .cutover → y.route.deliveredTokens = x.route.deliveredTokens
  more : x.route.deliveredTokens ≤ y.route.deliveredTokens
  anchored : y.route.anchoredBeforeProbe = x.route.anchoredBeforeProbe
  ceiling : y.route.tokenCeiling = x.route.tokenCeiling
  anchor : y.claimAnchor = x.claimAnchor
  week : y.publishedWeek = x.publishedWeek
  read : y.past[y.cursor]? = x.past[x.cursor]?

variable {w : KeeperSnapshot} {rebased drawn : Bool} {p : Pass}

theorem Taken.beside (h : Taken x w) (hb : Beside x y) : Taken y w := by
  unfold Taken
  rw [hb.read]
  exact h

theorem Cut.beside (h : Cut x w rebased) (hb : Beside x y) : Cut y w rebased := by
  cases rebased with
  | true => exact ⟨hb.lock.mpr h.1, h.2.1, hb.anchored.trans h.2.2⟩
  | false => exact fun hl => h (hb.lock.mp hl)

theorem Rebased.beside (h : Rebased x rebased) (hc : Cut x w rebased) (hb : Beside x y) :
    Rebased y rebased := by
  rintro rfl
  rw [hb.held hc.1, hb.anchor]
  exact h rfl

theorem Priced.beside (h : Priced x rebased c) (hb : Beside x y) : Priced y rebased c := by
  unfold Priced
  rw [hb.anchored, hb.read, hb.anchor]
  exact h

theorem Pass.Sound.beside (h : p.Sound x) (hb : Beside x y) : p.Sound y := by
  cases p with
  | finished r => exact fun hl => h (hb.lock.mp hl)
  | booking => exact fun hl => h (hb.lock.mp hl)
  | reading b => exact fun hl => h (hb.lock.mp hl)
  | locking v republished =>
    obtain ⟨hlock, htaken, hrep⟩ := h
    exact ⟨fun hl => hlock (hb.lock.mp hl), htaken.beside hb, by rw [hb.week]; exact hrep⟩
  | sampling v republished rebased =>
    obtain ⟨hcut, htaken, hrep⟩ := h
    exact ⟨hcut.beside hb, htaken.beside hb, by rw [hb.week]; exact hrep⟩
  | computing v republished rebased =>
    obtain ⟨hcut, htaken, hrep, hreb⟩ := h
    exact ⟨hcut.beside hb, htaken.beside hb, by rw [hb.week]; exact hrep, hreb.beside hcut hb⟩
  | comparing v rebased ceiling =>
    obtain ⟨hcut, htaken, hreb, hlt, hpriced⟩ := h
    exact ⟨hcut.beside hb, htaken.beside hb, hreb.beside hcut hb, hlt, hpriced.beside hb⟩
  | storingCeiling v rebased ceiling drawn =>
    obtain ⟨hcut, htaken, hreb, hlt, hpriced, hdrawn⟩ := h
    exact ⟨hcut.beside hb, htaken.beside hb, hreb.beside hcut hb, hlt, hpriced.beside hb,
      fun hd => (hdrawn hd).trans hb.more⟩
  | storingWeek v rebased drawn =>
    obtain ⟨hcut, htaken, hreb, hpriced⟩ := h
    refine ⟨hcut.beside hb, htaken.beside hb, hreb.beside hcut hb, ?_⟩
    rw [hb.ceiling]
    exact hpriced.beside hb
  | storingExpiry v rebased drawn =>
    obtain ⟨hcut, htaken, hreb, hpriced, hweek⟩ := h
    refine ⟨hcut.beside hb, htaken.beside hb, hreb.beside hcut hb, ?_, hb.week.trans hweek⟩
    rw [hb.ceiling]
    exact hpriced.beside hb
  | clearing drawn =>
    obtain ⟨v, hcut, htaken, hreb, hpriced, hweek⟩ := h
    refine ⟨v, hcut.beside hb, htaken.beside hb, hreb.beside hcut hb, ?_, hb.week.trans hweek⟩
    rw [hb.ceiling]
    exact hpriced.beside hb

end WeeklyBudget
