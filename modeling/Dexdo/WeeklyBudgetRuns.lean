import Dexdo.WeeklyBudgetSteps

/-! # A weekly route over every run

Requests, passes of `reconcile` and callers of the deal interleave freely. -/
namespace WeeklyBudget

open TokenContractState TokenContractCalls TokenContractGetters DealGetters RouteBudget
open TokenContractSteps TokenContractInvariant TokenContractStreaming TokenContractQuota
open SubscriptionKeeper SubscriptionKeeperPlan SubscriptionKeeperChain TokenContractLedger

/-- What a request does to the anchor lock. -/
inductive Requested (x : System) (a : RouteBudget.Action) (route : RouteBudget.State) :
    System → Prop where
  | charging {i n} : a = .charge i n → x.anchorLock = none →
      Requested x a route { x with route := route, anchorLock := some (.chunk i) }
  | overdrawn {i n} : a = .charge i n → x.anchorLock = none →
      (∀ r stage ch, route.at' i ≠ .holding r stage (some ch)) →
      Requested x a route { x with route := route }
  | accepting {i} : a = .accept i →
      Requested x a route { x with route := route, anchorLock := none }
  | other : (∀ i n, a ≠ .charge i n) → (∀ i, a ≠ .accept i) →
      Requested x a route { x with route := route }

variable {env : Env} {gate : ContentGate} {s₀ s t u : Deal} {x y : System} {i k n c now : ℕ}
  {a : RouteBudget.Action} {route : RouteBudget.State} {w : KeeperSnapshot}
  {rebased drawn booked : Bool} {p : Pass}

/-! ## Requests -/

theorem request_spec (h : request gate x a = some y) :
    ∃ route, Move gate x.route a route ∧ ¬ a.MovesCeiling ∧ Requested x a route y := by
  unfold request at h
  split at h
  · cases h
  · rename_i route hroute
    have hmove : Move gate x.route a route := exec_move (by
      unfold RouteBudget.exec
      rw [hroute])
    refine ⟨route, hmove, ?_⟩
    cases a with
    | publish c | cutover => cases h
    | charge i n =>
      refine ⟨id, ?_⟩
      simp only at h
      split at h
      · cases h
      · rename_i hlock
        have hnone : x.anchorLock = none := by simpa using hlock
        split at h
        · cases h
          exact .charging rfl hnone
        · rename_i hat
          cases h
          exact .overdrawn rfl hnone fun r stage ch => hat r stage ch
    | accept i =>
      cases h
      exact ⟨id, .accepting rfl⟩
    | _ =>
      cases h
      exact ⟨id, .other nofun nofun⟩

/-- A request's action, with the anchor lock as it leaves it. -/
theorem Tight.routed {lock : Option Holder} (h : Tight s₀ gate x) (hm : Move gate x.route a route)
    (ha : ¬ a.MovesCeiling)
    (hlock : lock = some .cutover ↔ x.anchorLock = some .cutover)
    (hheld : x.anchorLock = some .cutover →
      route.deliveredTokens = x.route.deliveredTokens)
    (hcharges : ∀ i r stage ch, route.at' i = .holding r stage (some ch) → lock = some (.chunk i))
    (hwindow : x.chain.probeAccepted = true → x.route.anchoredBeforeProbe = true →
      route.deliveredTokens = x.route.deliveredTokens) :
    Tight s₀ gate { x with route := route, anchorLock := lock } := by
  have hkept := hm.anchored_kept ha
  have hmore := delivered_le hm
  refine { h with
    sound := h.sound.move hm
    early := ?_
    charges := hcharges
    pass := ?_
    posted := ?_
    metered := ?_ }
  · intro hanchored
    change route.anchoredBeforeProbe = true at hanchored
    have hold : x.route.anchoredBeforeProbe = true := hkept.symm.trans hanchored
    exact (h.early hold).move h.sound hold hm hanchored
  · exact h.pass.beside ⟨hlock, hheld, hmore, hkept, hm.tokenCeiling_kept ha, rfl, rfl, rfl⟩
  · intro hanchored
    obtain ⟨k, u, hk, hu, hweek, hbound⟩ := h.posted (hkept.symm.trans hanchored)
    exact ⟨k, u, hk, hu, hweek, hbound.move hm ha⟩
  · obtain ⟨hbuilt, hbefore, hafter⟩ := h.metered
    constructor
    · intro hs
      obtain ⟨hflag, hrest⟩ := hbuilt hs
      exact ⟨hkept.trans hflag, hrest⟩
    · intro hc
      obtain ⟨hflag, hnone⟩ := hbefore hc
      exact ⟨hkept.trans hflag, hnone⟩
    · intro hs hc
      obtain ⟨d, hd, hle, hsame, hsum⟩ := hafter hs hc
      refine ⟨d, hd, hle.trans hmore, fun hflag => ?_, fun hflag => hsum (hkept.symm.trans hflag)⟩
      have hold : x.route.anchoredBeforeProbe = true := hkept.symm.trans hflag
      exact (hwindow hc hold).trans (hsame hold)

def AcceptsChunk (x : System) (i : ℕ) : Prop :=
  match x.route.at' i with
  | .holding _ _ (some ch) =>
    0 < ch.tokens ∧ x.route.deliveredTokens + ch.tokens ≤ ch.ceiling
  | _ => False

/-- Between the block in which `acceptProbe` executed and the route's cutover. -/
def InWindow (x : System) : Prop :=
  x.chain.probeAccepted = true ∧ x.route.anchoredBeforeProbe = true

def OutsideWindow (x : System) : Action → Prop
  | .request (.accept i) => ¬ (InWindow x ∧ AcceptsChunk x i)
  | _ => True

instance : Decidable (AcceptsChunk x i) := by
  unfold AcceptsChunk
  split <;> infer_instance

instance : Decidable (InWindow x) := inferInstanceAs (Decidable (_ ∧ _))

instance (x : System) (a : Action) : Decidable (OutsideWindow x a) :=
  match a with
  | .request (.accept _) => inferInstanceAs (Decidable (¬ _))
  | .request (.begin _ _) | .request (.loadReserved _) | .request (.readAnchored _)
  | .request (.loadCeiling _) | .request (.readOwed _) | .request (.exchange _)
  | .request (.verify _) | .request (.finish _ _) | .request (.charge _ _)
  | .request (.resume _) | .request (.drop _) | .request (.publish _) | .request .cutover
  | .startPass | .booked _ | .unreadable | .snapshot _ _ | .lockAnchor | .sample | .compute
  | .compare | .storeCeiling | .storeWeek | .storeExpiry | .clear | .transact _ => .isTrue trivial

theorem accept_refused (hm : Move gate x.route (.accept i) route) (h : ¬ AcceptsChunk x i) :
    route.deliveredTokens = x.route.deliveredTokens := by
  cases hm with
  | @accepted _ n c r stage hat hceil hlt =>
    rcases Nat.eq_zero_or_pos n with rfl | hpos
    · rfl
    · refine absurd ?_ h
      unfold AcceptsChunk
      rw [hat]
      exact ⟨hpos, hceil⟩
  | rejected hat => rfl

theorem Tight.request (h : Tight s₀ gate x) (hΦ : OutsideWindow x (.request a))
    (hreq : WeeklyBudget.request gate x a = some y) : Tight s₀ gate y := by
  obtain ⟨route, hm, ha, hspec⟩ := request_spec hreq
  cases hspec with
  | @charging i n ha' hnone =>
    subst ha'
    have hsame := delivered_kept hm nofun
    refine h.routed hm ha (by rw [hnone]; simp) (fun _ => hsame) ?_ fun _ _ => hsame
    intro j r stage ch hat
    rcases charge_origin hm hat with ⟨hold, -⟩ | ⟨m, hm', -⟩
    · have hlock := h.charges j r stage ch hold
      rw [hnone] at hlock
      cases hlock
    · cases hm'
      rfl
  | @overdrawn i n ha' hnone hfree =>
    subst ha'
    have hsame := delivered_kept hm nofun
    refine h.routed hm ha Iff.rfl (fun _ => hsame) ?_ fun _ _ => hsame
    intro j r stage ch hat
    rcases charge_origin hm hat with ⟨hold, -⟩ | ⟨m, hm', -⟩
    · exact h.charges j r stage ch hold
    · cases hm'
      exact absurd hat (hfree r stage ch)
  | @accepting i ha' =>
    subst ha'
    -- the chunk holds the anchor until now
    have hmine : x.anchorLock = some (.chunk i) := by
      cases hm with
      | accepted hat _ _ => exact h.charges _ _ _ _ hat
      | rejected hat => exact h.charges _ _ _ _ hat
    refine h.routed hm ha ?_ ?_ ?_ fun hc hflag => accept_refused hm fun hacc => hΦ ⟨⟨hc, hflag⟩, hacc⟩
    · rw [hmine]
      simp
    · rw [hmine]
      nofun
    · intro j r stage ch hat
      rcases charge_origin hm hat with ⟨hold, hne⟩ | ⟨m, hm', -⟩
      · have hlock := h.charges j r stage ch hold
        rw [hmine] at hlock
        cases hlock
        exact absurd rfl hne
      · cases hm'
  | other hcharge haccept =>
    have hsame := delivered_kept hm haccept
    refine h.routed hm ha Iff.rfl (fun _ => hsame) ?_ fun _ _ => hsame
    intro j r stage ch hat
    rcases charge_origin hm hat with ⟨hold, -⟩ | ⟨m, hm', -⟩
    · exact h.charges j r stage ch hold
    · exact absurd hm' (hcharge j m)

/-! ## Passes -/

theorem Posted.keep (h : Posted x) (hmid : x.pass.midway = false) (hk : x.cursor ≤ y.cursor)
    (hpast : y.past = x.past) (hroute : y.route = x.route) (hanchor : y.claimAnchor = x.claimAnchor)
    (hweek : y.publishedWeek = x.publishedWeek) : Posted y := by
  obtain ⟨j, u, hj, hu, hold, hbound⟩ := h
  refine ⟨j, u, hj.trans hk, ?_, fun _ => ?_, ?_⟩
  · rw [hpast]
    exact hu
  · rw [hweek]
    exact hold hmid
  · rw [hroute, hanchor]
    exact hbound

theorem Tight.passed (h : Tight s₀ gate x) (hmid : x.pass.midway = false) (hk : x.cursor ≤ k)
    (hlt : k < x.past.length) {b : Bool}
    (hp : p.Sound { x with cursor := k, terminal := b, pass := p }) :
    Tight s₀ gate { x with cursor := k, terminal := b, pass := p } :=
  { h with
    cursor := hlt
    pass := hp
    posted := fun hflag => (h.posted hflag).keep hmid hk rfl rfl rfl rfl
    metered := ⟨h.metered.built, h.metered.before, h.metered.after⟩ }

theorem judge_cases :
    (∃ b r, judge x booked w now = { x with terminal := b, pass := .finished r }) ∨
    judge x booked w now =
      { x with pass := .locking w (x.publishedWeek != w.subscription.weekIndex) } ∧
      termIsOver w.subscription = false := by
  unfold judge
  simp only
  split
  · exact .inl ⟨x.terminal, _, rfl⟩
  split
  · exact .inl ⟨true, _, rfl⟩
  split
  · exact .inl ⟨true, _, rfl⟩
  rename_i hterm
  split
  · exact .inl ⟨x.terminal, _, rfl⟩
  split
  · exact .inl ⟨x.terminal, _, rfl⟩
  split
  · exact .inl ⟨x.terminal, _, rfl⟩
  exact .inr ⟨rfl, by simpa using hterm⟩

theorem Tight.snapshot (h : Tight s₀ gate x) (hpass : x.pass = .reading booked)
    (hk : x.cursor ≤ k) (hu : x.past[k]? = some u) :
    Tight s₀ gate (judge { x with cursor := k } booked (keeperView u) now) := by
  have hmid : x.pass.midway = false := by rw [hpass]; rfl
  have hfree : x.anchorLock ≠ some .cutover := by
    have hs := h.pass
    rw [hpass] at hs
    exact hs
  have hlt := (List.getElem?_eq_some_iff.mp hu).1
  have hjudge : (∃ b r, judge { x with cursor := k } booked (keeperView u) now = _) ∨ _ :=
    judge_cases
  rcases hjudge with ⟨b, r, heq⟩ | ⟨heq, hterm⟩
  · rw [heq]
    exact h.passed hmid hk hlt hfree
  · rw [heq]
    exact h.passed hmid hk hlt ⟨hfree, ⟨u, hu, rfl, hterm⟩, rfl⟩

theorem Tight.quiet (h : Tight s₀ gate x) (hlock : x.anchorLock = some .cutover) (r stage ch) :
    x.route.at' i ≠ .holding r stage (some ch) := by
  intro hat
  have hchunk := h.charges i r stage ch hat
  rw [hlock] at hchunk
  cases hchunk

theorem Tight.fail (h : Tight s₀ gate x) (hmid : x.pass.midway = false) (hcut : Cut x w rebased)
    {r : Refusal} : Tight s₀ gate (x.fail rebased r) := by
  cases rebased with
  | false => exact h.passed (k := x.cursor) hmid le_rfl h.cursor hcut
  | true =>
    exact { h with
      charges := fun i r stage ch hat => absurd hat (h.quiet hcut.1 r stage ch)
      pass := nofun
      posted := fun hflag => (h.posted hflag).keep hmid le_rfl rfl rfl rfl rfl
      metered := ⟨h.metered.built, h.metered.before, h.metered.after⟩ }

theorem Tight.lockAnchor {republished : Bool} (h : Tight s₀ gate x)
    (hpass : x.pass = .locking w republished) (hy : next env gate x .lockAnchor = some y) :
    Tight s₀ gate y := by
  have hmid : x.pass.midway = false := by rw [hpass]; rfl
  have hs := h.pass
  rw [hpass] at hs
  obtain ⟨hfree, htaken, hrep⟩ := hs
  simp only [next, hpass] at hy
  split at hy
  · rename_i hboth
    rw [Bool.and_eq_true] at hboth
    split at hy
    · cases hy
    · rename_i hlock
      cases hy
      have hnone : x.anchorLock = none := by simpa using hlock
      exact { h with
        charges := by
          intro i r stage ch hat
          have hchunk := h.charges i r stage ch hat
          rw [hnone] at hchunk
          cases hchunk
        pass := ⟨⟨rfl, hboth.1, hboth.2⟩, htaken, hrep⟩
        posted := fun hflag => (h.posted hflag).keep hmid le_rfl rfl rfl rfl rfl
        metered := ⟨h.metered.built, h.metered.before, h.metered.after⟩ }
  · cases hy
    exact h.passed (k := x.cursor) hmid le_rfl h.cursor ⟨hfree, htaken, hrep⟩

theorem Tight.sample {republished : Bool} (h : Tight s₀ gate x)
    (hpass : x.pass = .sampling w republished rebased) :
    Tight s₀ gate (WeeklyBudget.sample x w republished rebased) := by
  have hmid : x.pass.midway = false := by rw [hpass]; rfl
  have hs := h.pass
  rw [hpass] at hs
  obtain ⟨hcut, htaken, hrep⟩ := hs
  cases rebased with
  | false => exact h.passed (k := x.cursor) hmid le_rfl h.cursor ⟨hcut, htaken, hrep, nofun⟩
  | true =>
    obtain ⟨hlock, hacc, hflag⟩ := hcut
    simp only [WeeklyBudget.sample, if_true]
    split
    · rename_i hle
      refine { h with
        pass := ⟨⟨hlock, hacc, hflag⟩, htaken, hrep, ?_⟩
        posted := ?_
        metered := ?_ }
      · intro _
        change x.route.deliveredTokens + (tickSize - x.route.deliveredTokens) = tickSize
        omega
      · intro hfalse
        exact absurd (hflag.symm.trans hfalse) (by simp)
      · obtain ⟨hbuilt, hbefore, hafter⟩ := h.metered
        refine ⟨fun hs => ?_, hbefore, fun hs hc => ?_⟩
        · exact absurd (hflag.symm.trans (hbuilt hs).1) (by simp)
        · obtain ⟨d, hd, hle, hsame, -⟩ := hafter hs hc
          exact ⟨d, hd, hle, hsame, fun hfalse => absurd (hflag.symm.trans hfalse) (by simp)⟩
    · have hcut' : Cut x w true := ⟨hlock, hacc, hflag⟩
      exact h.fail hmid hcut'

theorem Tight.priced {republished : Bool} (h : Tight s₀ gate x)
    (hpass : x.pass = .computing w republished rebased)
    (hc : if republished || rebased then localCeiling w x.claimAnchor = some c
      else c = x.route.tokenCeiling) : c < u64 ∧ Priced x rebased c := by
  have hs := h.pass
  rw [hpass] at hs
  obtain ⟨hcut, ⟨u, hu, rfl, hterm⟩, hrep, -⟩ := hs
  split at hc
  · obtain ⟨hsum, hlt⟩ := localCeiling_quota hterm hc
    refine ⟨hlt, fun _ v hv => ?_⟩
    rw [hu] at hv
    cases hv
    exact hsum.le
  · rename_i hold
    rw [Bool.or_eq_true, not_or] at hold
    rw [hc]
    refine ⟨h.sound.ceiling, fun hlive v hv => ?_⟩
    rw [hu] at hv
    cases hv
    have hflag : x.route.anchoredBeforeProbe = false := hlive.resolve_left hold.2
    obtain ⟨k, u₀, hk, hu₀, -, hbound⟩ := h.posted hflag
    exact hbound.ceiling.trans (quota_le (h.trail.onward k x.cursor u₀ u hk hu₀ hu))

theorem Tight.compute {republished : Bool} (h : Tight s₀ gate x)
    (hpass : x.pass = .computing w republished rebased)
    (hy : WeeklyBudget.compute x w republished rebased = some y) : Tight s₀ gate y := by
  have hmid : x.pass.midway = false := by rw [hpass]; rfl
  have hs := h.pass
  rw [hpass] at hs
  obtain ⟨hcut, htaken, hrep, hreb⟩ := hs
  unfold WeeklyBudget.compute at hy
  split at hy
  · rename_i hnew
    split at hy
    · cases hy
    · split at hy
      · rename_i c hc
        cases hy
        obtain ⟨hlt, hpriced⟩ := h.priced (c := c) hpass (by rw [if_pos hnew]; exact hc)
        exact h.passed (k := x.cursor) hmid le_rfl h.cursor ⟨hcut, htaken, hreb, hlt, hpriced⟩
      · cases hy
        exact h.fail hmid hcut
  · rename_i hold
    cases hy
    obtain ⟨hlt, hpriced⟩ := h.priced (c := x.route.tokenCeiling) hpass (by rw [if_neg hold])
    exact h.passed (k := x.cursor) hmid le_rfl h.cursor ⟨hcut, htaken, hreb, hlt, hpriced⟩

theorem Tight.bounded (h : Tight s₀ gate x) (hflag : x.route.anchoredBeforeProbe = false)
    (hu : x.past[x.cursor]? = some u) : Bounded x.route x.claimAnchor (quota u) := by
  obtain ⟨k, u₀, hk, hu₀, -, hbound⟩ := h.posted hflag
  exact hbound.mono (quota_le (h.trail.onward k x.cursor u₀ u hk hu₀ hu))

theorem Tight.storeCeiling (h : Tight s₀ gate x)
    (hpass : x.pass = .storingCeiling w rebased c drawn) :
    Tight s₀ gate { x with
      route := { x.route with tokenCeiling := c }, pass := .storingWeek w rebased drawn } := by
  have hs := h.pass
  rw [hpass] at hs
  obtain ⟨hcut, htaken, hreb, hlt, hpriced, -⟩ := hs
  have hm : Move gate x.route (.publish c) { x.route with tokenCeiling := c } := .published hlt
  refine { h with
    sound := h.sound.move hm
    early := fun hflag => (h.early hflag).move h.sound hflag hm hflag
    pass := ⟨hcut, htaken, hreb, hpriced⟩
    posted := fun hflag => ?_
    metered := ⟨h.metered.built, h.metered.before, h.metered.after⟩ }
  obtain ⟨u, hu, -, -⟩ := htaken
  have hbound := h.bounded hflag hu
  exact ⟨x.cursor, u, le_rfl, hu, nofun,
    ⟨hpriced (.inr hflag) u hu, hbound.delivered, hbound.charges⟩⟩

theorem Tight.storeWeek (h : Tight s₀ gate x) (hpass : x.pass = .storingWeek w rebased drawn) :
    Tight s₀ gate { x with
      publishedWeek := w.subscription.weekIndex, pass := .storingExpiry w rebased drawn } := by
  have hs := h.pass
  rw [hpass] at hs
  obtain ⟨hcut, htaken, hreb, hpriced⟩ := hs
  refine { h with
    pass := ⟨hcut, htaken, hreb, hpriced, rfl⟩
    posted := fun hflag => ?_
    metered := ⟨h.metered.built, h.metered.before, h.metered.after⟩ }
  obtain ⟨u, hu, hw, -⟩ := htaken
  have hbound := h.bounded hflag hu
  refine ⟨x.cursor, u, le_rfl, hu, fun _ => ?_,
    ⟨hpriced (.inr hflag) u hu, hbound.delivered, hbound.charges⟩⟩
  rw [hw]
  rfl

theorem Tight.storeExpiry {b : ℕ} (h : Tight s₀ gate x)
    (hpass : x.pass = .storingExpiry w rebased drawn) :
    Tight s₀ gate (if rebased then { x with publishedWeekExpiresAt := b, pass := .clearing drawn }
      else { x with
        publishedWeekExpiresAt := b, pass := .finished (System.outcome drawn) }) := by
  have hmid : x.pass.midway = false := by rw [hpass]; rfl
  have hs := h.pass
  rw [hpass] at hs
  obtain ⟨hcut, htaken, hreb, hpriced, hweek⟩ := hs
  cases rebased with
  | true =>
    exact { h with
      pass := ⟨w, hcut, htaken, hreb, hpriced, hweek⟩
      posted := fun hflag => (h.posted hflag).keep hmid le_rfl rfl rfl rfl rfl
      metered := ⟨h.metered.built, h.metered.before, h.metered.after⟩ }
  | false =>
    exact { h with
      pass := hcut
      posted := fun hflag => (h.posted hflag).keep hmid le_rfl rfl rfl rfl rfl
      metered := ⟨h.metered.built, h.metered.before, h.metered.after⟩ }

theorem Tight.clear {r : Except Refusal Unit} (h : Tight s₀ gate x)
    (hpass : x.pass = .clearing drawn) :
    Tight s₀ gate { x with
      route := { x.route with anchoredBeforeProbe := false }
      anchorLock := none
      pass := .finished r } := by
  have hs := h.pass
  rw [hpass] at hs
  obtain ⟨v, ⟨hlock, hacc, hflag⟩, ⟨u, hu, hv, hterm⟩, hreb, hpriced, hweek⟩ := hs
  have htick := hreb rfl
  have haccepted : x.chain.probeAccepted = true := by
    rw [hv] at hacc
    exact (h.trail.toLast hu).accepted hacc
  have hm : Move gate x.route .cutover { x.route with anchoredBeforeProbe := false } := .cutover
  refine { h with
    sound := h.sound.move hm
    early := nofun
    charges := fun i r stage ch hat => absurd hat (h.quiet hlock r stage ch)
    pass := nofun
    posted := fun _ => ?_
    metered := ?_ }
  · refine ⟨x.cursor, u, le_rfl, hu, fun _ => ?_, hpriced (.inl rfl) u hu, ?_, ?_⟩
    · rw [hweek, hv]
      rfl
    · change x.route.deliveredTokens + x.claimAnchor ≤ quota u
      rw [htick]
      exact tick_le_quota (h.alive _ _ hu)
    · intro i r stage ch hat
      exact absurd hat (h.quiet hlock r stage ch)
  · obtain ⟨hbuilt, hbefore, hafter⟩ := h.metered
    refine ⟨fun hs => ?_, fun hc => ?_, fun hs hc => ?_⟩
    · exact absurd (hflag.symm.trans (hbuilt hs).1) (by simp)
    · change x.chain.probeAccepted = false at hc
      rw [haccepted] at hc
      cases hc
    · obtain ⟨d, hd, hle, hsame, -⟩ := hafter hs hc
      have hdelivered := hsame hflag
      exact ⟨d, hd, hle, nofun, fun _ => by
        change d + x.claimAnchor = tickSize
        omega⟩

/-! ## The deal -/

theorem Tight.transact {tx : Tx} (h : Tight s₀ gate x)
    (hy : WeeklyBudget.transact env x tx = some y) : Tight s₀ gate y := by
  unfold WeeklyBudget.transact at hy
  split at hy
  · rename_i hadm
    split at hy
    · cases hy
    · rename_i t hok
      split at hy
      · cases hy
      · rename_i hdead
        cases hy
        have hlast := h.trail.ends
        rw [List.getLast?_eq_getElem?] at hlast
        obtain ⟨hopen, hon⟩ := exec_onward (h.alive _ _ hlast) hadm.1 hadm.2 hok
          (by simpa using hdead)
        have hkeep : ∀ (k : ℕ) (u : Deal), x.past[k]? = some u → (x.past ++ [t])[k]? = some u := by
          intro k u hu
          rw [List.getElem?_append_left (List.getElem?_eq_some_iff.mp hu).1]
          exact hu
        have hread : (x.past ++ [t])[x.cursor]? = x.past[x.cursor]? :=
          List.getElem?_append_left h.cursor
        have hfirst := h.trail.toLast h.first
        exact { h with
          alive := by
            intro k u hu
            by_cases hk : k < x.past.length
            · rw [List.getElem?_append_left hk] at hu
              exact h.alive k u hu
            · have hmem : u ∈ (x.past ++ [t])[k]? := hu
              rw [List.getElem?_append_right (by omega), List.getElem?_singleton] at hmem
              split at hmem <;> cases hmem
              exact hopen
          trail := h.trail.append hon
          first := hkeep _ _ h.first
          cursor := by
            have hlt := h.cursor
            rw [List.length_append]
            exact Nat.lt_add_right _ hlt
          pass := h.pass.beside ⟨Iff.rfl, fun _ => rfl, le_rfl, rfl, rfl, rfl, rfl, hread⟩
          posted := by
            intro hflag
            obtain ⟨k, u, hk, hu, hweek, hbound⟩ := h.posted hflag
            exact ⟨k, u, hk, hkeep k u hu, hweek, hbound⟩
          metered := by
            obtain ⟨hbuilt, hbefore, hafter⟩ := h.metered
            refine ⟨fun hs => ?_, fun hc => ?_, fun hs hc => ?_⟩
            · obtain ⟨hflag, hanchor, hnone⟩ := hbuilt hs
              have hacc := hfirst.accepted hs
              refine ⟨hflag, hanchor, ?_⟩
              simp only [hacc, Bool.not_true, Bool.and_false, Bool.false_eq_true, if_false]
              exact hnone
            · change t.probeAccepted = false at hc
              have hold : x.chain.probeAccepted = false := by
                cases hx : x.chain.probeAccepted with
                | false => rfl
                | true => exact absurd ((hon.accepted hx).symm.trans hc) (by simp)
              obtain ⟨hflag, hnone⟩ := hbefore hold
              refine ⟨hflag, ?_⟩
              simp only [hc, Bool.false_and, Bool.false_eq_true, if_false]
              exact hnone
            · change t.probeAccepted = true at hc
              cases hx : x.chain.probeAccepted with
              | true =>
                obtain ⟨d, hd, hrest⟩ := hafter hs hx
                refine ⟨d, ?_, hrest⟩
                simp only [Bool.not_true, Bool.and_false, Bool.false_eq_true, if_false]
                exact hd
              | false =>
                obtain ⟨hflag, -⟩ := hbefore hx
                refine ⟨x.route.deliveredTokens, ?_, le_rfl, fun _ => rfl, fun hfalse => ?_⟩
                · simp only [hc, Bool.not_false, Bool.and_self, if_true]
                · exact absurd (hflag.symm.trans hfalse) (by simp) }
  · cases hy

/-! ## Runs -/

theorem Tight.step {act : Action} (h : Tight s₀ gate x) (hΦ : OutsideWindow x act)
    (hok : exec env gate act x = .ok y) : Tight s₀ gate y := by
  have hy : next env gate x act = some y := by
    unfold exec at hok
    split at hok
    · rename_i z hz
      rw [hz, Except.ok.inj hok]
    · cases hok
  clear hok
  cases act with
  | request a => exact h.request hΦ hy
  | startPass =>
    simp only [next] at hy
    split at hy
    · rename_i r hpass
      have hmid : x.pass.midway = false := by rw [hpass]; rfl
      have hs := h.pass
      rw [hpass] at hs
      split at hy
      · cases hy
        exact h.passed (k := x.cursor) hmid le_rfl h.cursor hs
      · cases hy
        exact h.passed (k := x.cursor) hmid le_rfl h.cursor hs
    · cases hy
  | booked ok =>
    simp only [next] at hy
    split at hy
    · rename_i hpass
      have hs := h.pass
      rw [hpass] at hs
      cases hy
      exact h.passed (k := x.cursor) (by rw [hpass]; rfl) le_rfl h.cursor hs
    · cases hy
  | unreadable =>
    simp only [next] at hy
    split at hy
    · rename_i b hpass
      have hs := h.pass
      rw [hpass] at hs
      cases hy
      exact h.passed (k := x.cursor) (by rw [hpass]; rfl) le_rfl h.cursor hs
    · cases hy
  | snapshot k now =>
    simp only [next] at hy
    split at hy
    · rename_i b hpass
      split at hy
      · rename_i hk
        split at hy
        · rename_i u hu
          cases hy
          exact h.snapshot hpass hk hu
        · cases hy
      · cases hy
    · cases hy
  | lockAnchor =>
    cases hpass : x.pass with
    | locking v republished => exact h.lockAnchor hpass hy
    | _ =>
      simp only [next, hpass] at hy
      cases hy
  | sample =>
    simp only [next] at hy
    split at hy
    · rename_i v republished rebased hpass
      cases hy
      exact h.sample hpass
    · cases hy
  | compute =>
    simp only [next] at hy
    split at hy
    · rename_i v republished rebased hpass
      exact h.compute hpass hy
    · cases hy
  | compare =>
    simp only [next] at hy
    split at hy
    · rename_i v rebased ceiling hpass
      have hs := h.pass
      rw [hpass] at hs
      obtain ⟨hcut, htaken, hreb, hlt, hpriced⟩ := hs
      cases hy
      exact h.passed (k := x.cursor) (by rw [hpass]; rfl) le_rfl h.cursor
        ⟨hcut, htaken, hreb, hlt, hpriced, of_decide_eq_true⟩
    · cases hy
  | storeCeiling =>
    simp only [next] at hy
    split at hy
    · rename_i v rebased ceiling drawn hpass
      cases hy
      exact h.storeCeiling hpass
    · cases hy
  | storeWeek =>
    simp only [next] at hy
    split at hy
    · rename_i v rebased drawn hpass
      cases hy
      exact h.storeWeek hpass
    · cases hy
  | storeExpiry =>
    simp only [next] at hy
    split at hy
    · rename_i v rebased drawn hpass
      cases hy
      exact h.storeExpiry hpass
    · cases hy
  | clear =>
    simp only [next] at hy
    split at hy
    · rename_i drawn hpass
      cases hy
      exact h.clear hpass
    · cases hy
  | transact tx => exact h.transact hy

/-- A route built from a coherent snapshot: its budget is at most the headroom of that snapshot. -/
structure Buildable (env : Env) (s₀ : Deal) (maxTokens : ℕ) : Prop where
  reachable : Reachable env (BookFill env) s₀
  live : s₀.destroyed = false
  opened : s₀.opened = true
  sub : s₀.subWeeks ≠ 0
  fits : maxTokens < u64
  room : ∃ room, currentWeekHeadroom (chainState s₀) (subscription s₀) = some room ∧
    maxTokens ≤ room

theorem Tight.built {verdict : Option Bool} (h : Buildable env s₀ n) :
    Tight s₀ gate (built s₀ n verdict) := by
  have hopen : OpenSubscription s₀ := ⟨reachable_kept h.reachable h.live, h.opened, h.sub⟩
  obtain ⟨room, hroom, hle⟩ := h.room
  have hquota := headroom_quota hopen hroom
  refine ⟨Sound.opened h.fits, fun _ => ⟨Nat.zero_le _, fun _ => trivial⟩, ?_, .start s₀, rfl,
    Nat.zero_lt_one, nofun, nofun, fun _ => ?_, ?_⟩
  · intro k u hu
    have hmem : [s₀][k]? = some u := hu
    rw [List.getElem?_singleton] at hmem
    split at hmem <;> cases hmem
    exact hopen
  · refine ⟨0, s₀, le_rfl, rfl, fun _ => rfl, ?_, ?_, nofun⟩
    · change n + s₀.tokensPend ≤ quota s₀
      omega
    · change 0 + s₀.tokensPend ≤ quota s₀
      omega
  · refine ⟨fun ha => ⟨?_, rfl, rfl⟩, fun ha => ⟨?_, rfl⟩, fun ha hb => ?_⟩
    · change (!s₀.probeAccepted) = false
      rw [ha]
      rfl
    · change (!s₀.probeAccepted) = true
      rw [show s₀.probeAccepted = false from ha]
      rfl
    · exact absurd (ha.symm.trans hb) (by simp)

def consumed (s₀ : Deal) (x : System) : ℕ :=
  match x.atAcceptance with
  | none => s₀.tokensPend + x.route.deliveredTokens
  | some d => tickSize + (x.route.deliveredTokens - d)

theorem Tight.consumed_anchor (h : Tight s₀ gate x) (hflag : x.route.anchoredBeforeProbe = false) :
    consumed s₀ x = x.route.deliveredTokens + x.claimAnchor := by
  have hacc : x.chain.probeAccepted = true := by
    cases hc : x.chain.probeAccepted with
    | true => rfl
    | false => exact absurd ((h.metered.before hc).1.symm.trans hflag) (by simp)
  unfold consumed
  cases hs : s₀.probeAccepted with
  | true =>
    obtain ⟨-, hanchor, hnone⟩ := h.metered.built hs
    rw [hnone, hanchor]
    exact Nat.add_comm _ _
  | false =>
    obtain ⟨d, hd, hle, -, hsum⟩ := h.metered.after hs hacc
    have htotal := hsum hflag
    simp only [hd]
    omega

theorem Tight.consumed_le (h : Tight s₀ gate x) (hacc : x.chain.probeAccepted = true) :
    consumed s₀ x ≤ quota x.chain := by
  cases hflag : x.route.anchoredBeforeProbe with
  | false =>
    obtain ⟨k, u, hk, hu, -, hbound⟩ := h.posted hflag
    rw [h.consumed_anchor hflag]
    exact hbound.delivered.trans (quota_le (h.trail.toLast hu))
  | true =>
    have hlast := h.trail.ends
    rw [List.getLast?_eq_getElem?] at hlast
    cases hs : s₀.probeAccepted with
    | true => exact absurd (hflag.symm.trans (h.metered.built hs).1) (by simp)
    | false =>
      obtain ⟨d, hd, -, hsame, -⟩ := h.metered.after hs hacc
      have hnone : consumed s₀ x = tickSize := by
        simp only [consumed, hd, hsame hflag, Nat.sub_self, Nat.add_zero]
      rw [hnone]
      exact tick_le_quota (h.alive _ _ hlast)

theorem run_tight {verdict : Option Bool} {l : List (TransactionSystem.Record System Action)}
    (h : Buildable env s₀ n)
    (hrun : TransactionSystem.Run (exec env gate) OutsideWindow (built s₀ n verdict) l x) :
    Tight s₀ gate x :=
  hrun.invariant (I := fun _ x => Tight s₀ gate x) (.built h)
    fun _ _ _ _ ih hΦ hok => ih.step hΦ hok

/-- While no chunk is accepted between the block of `acceptProbe` and the cutover: before
acceptance the route delivers at most the trial tick; after it, what the books attribute to the
route stays within what a claim would be allowed, and within one quota on top of what was declared
when the published week was opened; a pass that will return an error publishes no room. -/
theorem weekly_ceiling_kept (env : Env) (gate : ContentGate) (verdict : Option Bool) (s₀ : Deal)
    (maxTokens : ℕ) (l : List (TransactionSystem.Record System Action)) (x : System)
    (h : Buildable env s₀ maxTokens)
    (hrun : TransactionSystem.Run (exec env gate) OutsideWindow (built s₀ maxTokens verdict) l x) :
    (x.chain.probeAccepted = false → x.route.deliveredTokens ≤ tickSize) ∧
    (x.chain.probeAccepted = true → ∀ now, x.chain.now ≤ now → now < 2 ^ 63 →
      weeksElapsedAt now x.chain < x.chain.subWeeks →
      consumed s₀ x ≤ claimCeiling env now x.chain) ∧
    (x.route.anchoredBeforeProbe = false → ∃ u ∈ x.past,
      (x.pass.midway = false → u.weekIndex = x.publishedWeek) ∧
      consumed s₀ x ≤ u.weekBaseTokens + u.tokensPerWeek) ∧
    (∀ v rebased ceiling, x.pass = .storingCeiling v rebased ceiling true →
      ceiling ≤ x.route.deliveredTokens) := by
  have ht := run_tight h hrun
  refine ⟨?_, ?_, ?_, ?_⟩
  · intro hacc
    exact delivered_le_tick ht.sound (ht.early (ht.metered.before hacc).1)
  · intro hacc now hnow hclock hterm
    have hlast := ht.trail.ends
    rw [List.getLast?_eq_getElem?] at hlast
    exact (ht.consumed_le hacc).trans
      (quota_le_claimCeiling (ht.alive _ _ hlast) hacc hnow hclock hterm)
  · intro hflag
    obtain ⟨k, u, hk, hu, hweek, hbound⟩ := ht.posted hflag
    refine ⟨u, List.mem_of_getElem? hu, hweek, ?_⟩
    rw [ht.consumed_anchor hflag]
    exact hbound.delivered.trans (min_le_left _ _)
  · intro v rebased ceiling hpass
    have hs := ht.pass
    rw [hpass] at hs
    exact hs.2.2.2.2.2 rfl

def trialSchedule (paid : ℕ) : List Tx :=
  [noteTx 10 (.postFromNote 1 1 0 0 0), bookTx 20 (.fundFromOrderBook paid 8 4 0x40),
    noteTx 31 (.fundDeal 2000000000 none), sellerTx 40 (.openDeal [1])]

def servingSchedule : List Action :=
  [.request (.begin 0 none), .request (.loadReserved 0), .request (.readAnchored 0),
    .request (.readOwed 0), .request (.exchange 0), .request (.verify 0), .request (.resume 0)]

def chunkSchedule (n : ℕ) : List Action := [.request (.charge 0 n), .request (.accept 0)]

/-- A pass that reads the state after `acceptProbe` and makes the cutover. -/
def cutoverSchedule : List Action :=
  [.startPass, .booked false, .snapshot 1 400, .lockAnchor, .sample, .compute, .compare,
    .storeCeiling, .storeWeek, .storeExpiry, .clear]

def sampleGate : ContentGate := ⟨.skip, false, contentProbeMaxTokens⟩

def buildable (s : Deal) (n : ℕ) : Bool :=
  !s.destroyed && s.opened && decide (s.subWeeks ≠ 0) && decide (n < u64) &&
    (currentWeekHeadroom (chainState s) (subscription s)).any fun room => decide (n ≤ room)

theorem buildable_spec (hs : Reachable sampleEnv (BookFill sampleEnv) s)
    (h : buildable s n = true) : Buildable sampleEnv s n := by
  simp only [buildable, Bool.and_eq_true, Bool.not_eq_true', decide_eq_true_eq,
    Option.any_eq_true] at h
  obtain ⟨⟨⟨⟨hlive, hopen⟩, hsub⟩, hfits⟩, room, hroom, hle⟩ := h
  exact ⟨hs, hlive, hopen, hsub, hfits, room, hroom, hle⟩

/-- Part of the trial tick before acceptance, more after the cutover. -/
theorem weekly_ceiling_after_cutover : ∃ s₀ l x, Buildable sampleEnv s₀ 2000000 ∧
    TransactionSystem.Run (exec sampleEnv sampleGate) OutsideWindow (built s₀ 2000000 none) l x ∧
    consumed s₀ x = 1500000 ∧ consumed s₀ x ≤ claimCeiling sampleEnv x.chain.now x.chain := by
  have hplay : (played (BookFill sampleEnv) (trialSchedule 10200000000)).any (fun s =>
      buildable s 2000000 && (TransactionSystem.play (exec sampleEnv sampleGate) OutsideWindow
        (servingSchedule ++ chunkSchedule 400000 ++ [Action.transact (sellerTx 300 .acceptProbe)] ++
          cutoverSchedule ++ chunkSchedule 500000) (built s 2000000 none)).any (fun x =>
        x.chain.probeAccepted && decide (consumed s x = 1500000) &&
          decide (x.chain.now < 2 ^ 63) &&
          decide (weeksElapsedAt x.chain.now x.chain < x.chain.subWeeks))) = true := by
    decide
  obtain ⟨s, hs, hp⟩ := played_reachable hplay
  rw [Bool.and_eq_true] at hp
  have hbuild := buildable_spec hs hp.1
  obtain ⟨x, hx, hq⟩ := (Option.any_eq_true _ _).mp hp.2
  simp only [Bool.and_eq_true, decide_eq_true_eq] at hq
  obtain ⟨⟨⟨hacc, hconsumed⟩, hclock⟩, hterm⟩ := hq
  obtain ⟨l, hrun, -⟩ := TransactionSystem.Run.play .nil hx
  exact ⟨s, _, x, hbuild, hrun, hconsumed,
    (weekly_ceiling_kept sampleEnv sampleGate none s 2000000 _ x hbuild hrun).2.1 hacc
      x.chain.now le_rfl hclock hterm⟩

def anyStep (_ : System) (_ : Action) : Prop := True

instance : ∀ x a, Decidable (anyStep x a) := fun _ _ => .isTrue trivial

/-- Four ticks over four weeks: the seeded tick is the whole first week, and a chunk accepted
before the route has seen the acceptance goes on top of it. -/
theorem chunk_before_cutover_exceeds_claim :
    ¬ ∀ env gate verdict s₀ maxTokens l x, Buildable env s₀ maxTokens →
      TransactionSystem.Run (exec env gate) anyStep (built s₀ maxTokens verdict) l x →
      x.chain.probeAccepted = true → ∀ now, x.chain.now ≤ now → now < 2 ^ 63 →
        weeksElapsedAt now x.chain < x.chain.subWeeks →
        consumed s₀ x ≤ claimCeiling env now x.chain := by
  intro hall
  have hplay : (played (BookFill sampleEnv) (trialSchedule 6100000000)).any (fun s =>
      buildable s 1000000 && (TransactionSystem.play (exec sampleEnv sampleGate) anyStep
        (servingSchedule ++ [Action.transact (sellerTx 300 .acceptProbe)] ++ chunkSchedule 7)
        (built s 1000000 none)).any (fun x =>
        x.chain.probeAccepted && decide (x.chain.now < 2 ^ 63) &&
          decide (weeksElapsedAt x.chain.now x.chain < x.chain.subWeeks) &&
          decide (claimCeiling sampleEnv x.chain.now x.chain = 1000000) &&
          decide (consumed s x = 1000007))) = true := by
    decide
  obtain ⟨s, hs, hp⟩ := played_reachable hplay
  rw [Bool.and_eq_true] at hp
  obtain ⟨x, hx, hq⟩ := (Option.any_eq_true _ _).mp hp.2
  simp only [Bool.and_eq_true, decide_eq_true_eq] at hq
  obtain ⟨⟨⟨⟨hacc, hclock⟩, hterm⟩, hceiling⟩, hconsumed⟩ := hq
  obtain ⟨l, hrun, -⟩ := TransactionSystem.Run.play .nil hx
  have hle := hall sampleEnv sampleGate none s 1000000 _ x (buildable_spec hs hp.1) hrun hacc
    x.chain.now le_rfl hclock hterm
  omega

end WeeklyBudget
