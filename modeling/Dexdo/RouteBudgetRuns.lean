import Dexdo.RouteBudgetMoves

/-! # The route budget over every run

The counters balance in every state, and each grant and each accepted chunk stays under the
ceiling that its own call read. -/
namespace RouteBudget

open SolidityMapping TokenContractState TransactionSystem

def Covers (gate : ContentGate) (verdict : Option Bool) (granted : ℕ) : Prop :=
  0 < granted ∧ (gate.check = .skip ∨ verdict ≠ none ∨ 2 * gate.probeMax < granted)

def Layer.spent (gate : ContentGate) : Layer → ℕ
  | .b8 => gate.probeMax
  | .b7 => 2 * gate.probeMax

def Stage.Sound (gate : ContentGate) (initializer : Option ℕ) (i : ℕ) (r : RouteReservation) :
    Stage → Prop
  | .admitted => r.used = 0
  | .probing layer left =>
    gate.check = .probe ∧ initializer = some i ∧ r.used + left ≤ layer.spent gate
  | .verified => r.used < r.granted
  | .serving | .ended => True
  | .zeroGrant => False

def Phase.Sound (gate : ContentGate) (verdict : Option Bool) (initializer : Option ℕ) (i : ℕ) :
    Phase → Prop
  | .sized _ _ c => c < u64
  | .exchanging _ res c g => res + g ≤ c ∧ c < u64 ∧ Covers gate verdict g
  | .holding r stage charge =>
    r.used ≤ r.granted ∧ Covers gate verdict r.granted ∧ stage.Sound gate initializer i r ∧
      ∀ c, charge = some c → stage.takes c.tokens = true ∧ r.used + c.tokens ≤ r.granted
  | _ => True

structure Sound (gate : ContentGate) (s : State) : Prop where
  balanced : s.reservedTokens = s.deliveredTokens + s.heldTokens
  fits : s.reservedTokens < u64
  ceiling : s.tokenCeiling < u64
  running : ∀ i, s.initializer = some i → s.verdict = none
  phases : ∀ i, (s.at' i).Sound gate s.verdict s.initializer i

variable {gate : ContentGate} {s t : State} {a : Action} {i j n c g res : ℕ}
  {asked : Option ℕ} {r : RouteReservation} {stage : Stage} {layer : Layer} {left : ℕ}
  {verdict : Option Bool} {initializer : Option ℕ} {p : Phase}

/-! ## Phases -/

theorem Covers.cached {v : Option Bool} (h : Covers gate verdict g)
    (hv : verdict ≠ none → v ≠ none) : Covers gate v g := by
  obtain ⟨hpos, hskip | hverdict | hbig⟩ := h
  · exact ⟨hpos, .inl hskip⟩
  · exact ⟨hpos, .inr (.inl (hv hverdict))⟩
  · exact ⟨hpos, .inr (.inr hbig)⟩

theorem Phase.Sound.frame {v : Option Bool} {k : Option ℕ}
    (h : p.Sound gate verdict initializer i) (hv : verdict ≠ none → v ≠ none)
    (hk : initializer = some i → k = some i) : p.Sound gate v k i := by
  cases p with
  | exchanging asked res c g => exact ⟨h.1, h.2.1, h.2.2.cached hv⟩
  | holding r stage charge =>
    obtain ⟨hle, hcov, hstage, hcharge⟩ := h
    refine ⟨hle, hcov.cached hv, ?_, hcharge⟩
    cases stage with
    | probing layer left => exact ⟨hstage.1, hk hstage.2.1, hstage.2.2⟩
    | _ => exact hstage
  | sized asked res c => exact h
  | _ => exact trivial

theorem covers_of_floor (hg : s.outstandingVerificationTokens gate < g) (hlt : g < u64) :
    Covers gate s.verdict g := by
  unfold State.outstandingVerificationTokens at hg
  split at hg
  · exact ⟨by omega, .inl ‹_›⟩
  · rename_i hv
    exact ⟨by omega, .inr (.inl (by rw [hv]; simp))⟩
  · unfold saturatingMul at hg
    exact ⟨by omega, .inr (.inr (by omega))⟩

theorem unspent (hcov : Covers gate none r.granted) (hcheck : gate.check = .probe)
    (hused : r.used ≤ 2 * gate.probeMax) : r.used < r.granted := by
  obtain ⟨-, hskip | hv | hbig⟩ := hcov
  · rw [hcheck] at hskip
    cases hskip
  · exact absurd rfl hv
  · omega

theorem spend_sound (hs : stage.Sound gate initializer i r) (ht : stage.takes n = true) :
    (stage.spend n).Sound gate initializer i { r with used := r.used + n } := by
  cases stage with
  | probing layer left =>
    obtain ⟨hcheck, hinit, hle⟩ := hs
    have hn : n ≤ left := by simpa [Stage.takes] using ht
    refine ⟨hcheck, hinit, ?_⟩
    change r.used + n + (left - n) ≤ _
    omega
  | serving => trivial
  | _ => cases ht

theorem probeTick_lt : probeTickTokens < u64 := by decide

/-! ## One action -/

theorem phases_put {u : State} (h : Sound gate s) (hreq : u.requests = s.requests)
    (hi : p.Sound gate u.verdict u.initializer i) (hv : s.verdict ≠ none → u.verdict ≠ none)
    (hk : ∀ j, j ≠ i → s.initializer = some j → u.initializer = some j) :
    ∀ j, ((u.put i p).at' j).Sound gate u.verdict u.initializer j := by
  intro j
  by_cases hj : j = i
  · subst hj
    rw [at_put]
    exact hi
  · rw [at_put_ne hj, State.at', hreq]
    exact (h.phases j).frame hv (hk j hj)

theorem Sound.holding {charge : Option Charge} (h : Sound gate s)
    (hat : s.at' i = .holding r stage charge) :
    (Phase.holding r stage charge).Sound gate s.verdict s.initializer i := by
  have hown := h.phases i
  rwa [hat] at hown

theorem Sound.alone {charge : Option Charge} (h : Sound gate s)
    (hat : s.at' i = .holding r (.probing layer left) charge) (hj : j ≠ i) :
    s.initializer ≠ some j := by
  have hinit := (h.holding hat).2.2.1.2.1
  rw [hinit]
  exact fun hk => hj (Option.some.inj hk).symm

theorem Sound.put (h : Sound gate s) (hi : p.Sound gate s.verdict s.initializer i)
    (hheld : p.held = (s.at' i).held) : Sound gate (s.put i p) where
  balanced := by
    have hsum := held_put (s := s) (i := i) (p := p)
    have hbal := h.balanced
    change s.reservedTokens = s.deliveredTokens + _
    omega
  fits := h.fits
  ceiling := h.ceiling
  running := h.running
  phases := phases_put h rfl hi id fun _ _ hk => hk

theorem Sound.granted (h : Sound gate s) (hat : s.at' i = .exchanging asked res c g)
    (hres : s.reservedTokens = res) :
    Sound gate ({ s with reservedTokens := saturatingAdd res g }.put i
      (.holding ⟨g, 0⟩ .admitted none)) := by
  have hown := h.phases i
  rw [hat] at hown
  obtain ⟨hle, hlt, hcov⟩ := hown
  have hsum := held_put (s := s) (i := i) (p := .holding ⟨g, 0⟩ .admitted none)
  have hbal := h.balanced
  rw [hat] at hsum
  simp only [Phase.held, RouteReservation.remaining] at hsum
  rw [saturatingAdd_exact (by omega)]
  constructor
  · change res + g = s.deliveredTokens + (s.put i _).heldTokens
    omega
  · change res + g < u64
    omega
  · exact h.ceiling
  · exact h.running
  · exact phases_put (p := .holding ⟨g, 0⟩ .admitted none) h rfl
      ⟨Nat.zero_le _, hcov, rfl, nofun⟩ id fun _ _ hk => hk

/-- The request that starts the body of the cell. -/
theorem Sound.initializes (h : Sound gate s) (hat : s.at' i = .holding r .admitted none)
    (hcheck : gate.check = .probe) (hv : s.verdict = none) (hk : s.initializer = none) :
    Sound gate ({ s with initializer := some i }.put i
      (.holding r (.probing .b8 (min r.remaining gate.probeMax)) none)) := by
  obtain ⟨hle, hcov, hused, -⟩ := h.holding hat
  change r.used = 0 at hused
  have hsum := held_put (s := s) (i := i)
    (p := .holding r (.probing .b8 (min r.remaining gate.probeMax)) none)
  have hbal := h.balanced
  rw [hat] at hsum
  simp only [Phase.held] at hsum
  have hcap : r.used + min r.remaining gate.probeMax ≤ gate.probeMax := by omega
  constructor
  · change s.reservedTokens = s.deliveredTokens + (s.put i _).heldTokens
    omega
  · exact h.fits
  · exact h.ceiling
  · exact fun _ _ => hv
  · refine phases_put (p := .holding r (.probing .b8 (min r.remaining gate.probeMax)) none) h rfl
      ⟨hle, hcov, ⟨hcheck, rfl, hcap⟩, nofun⟩ id fun j _ hj => ?_
    rw [hk] at hj
    cases hj

theorem Sound.finished {v : Option Bool} (h : Sound gate s)
    (hat : s.at' i = .holding r (.probing layer left) none)
    (hi : (Phase.holding r stage none).Sound gate v none i)
    (hv : s.verdict ≠ none → v ≠ none) :
    Sound gate ({ s with initializer := none, verdict := v }.put i (.holding r stage none)) where
  balanced := by
    have hsum := held_put (s := s) (i := i) (p := .holding r stage none)
    have hbal := h.balanced
    rw [hat] at hsum
    simp only [Phase.held] at hsum
    change s.reservedTokens = s.deliveredTokens + (s.put i (.holding r stage none)).heldTokens
    omega
  fits := h.fits
  ceiling := h.ceiling
  running := nofun
  phases := phases_put h rfl hi hv fun _ hj hk => absurd hk (h.alone hat hj)

theorem Sound.verified (h : Sound gate s) (hat : s.at' i = .holding r (.probing .b7 left) none) :
    (Phase.holding r .verified none).Sound gate (some true) none i := by
  obtain ⟨hle, hcov, ⟨hcheck, hinit, hspent⟩, -⟩ := h.holding hat
  rw [h.running i hinit] at hcov
  simp only [Layer.spent] at hspent
  have hleft := unspent hcov hcheck (by omega)
  exact ⟨hle, hcov.cached fun _ => nofun, hleft, nofun⟩

theorem Sound.accepted (h : Sound gate s) (hat : s.at' i = .holding r stage (some ⟨n, c⟩)) :
    Sound gate ({ s with deliveredTokens := s.deliveredTokens + n }.put i
      (.holding { r with used := r.used + n } (stage.spend n) none)) := by
  obtain ⟨hused, hcov, hstage, hcharge⟩ := h.holding hat
  obtain ⟨htakes, hle⟩ := hcharge _ rfl
  have hsum := held_put (s := s) (i := i)
    (p := .holding { r with used := r.used + n } (stage.spend n) none)
  have hbal := h.balanced
  rw [hat] at hsum
  simp only [Phase.held, RouteReservation.remaining] at hsum hle
  constructor
  · change s.reservedTokens = s.deliveredTokens + n + (s.put i _).heldTokens
    omega
  · exact h.fits
  · exact h.ceiling
  · exact h.running
  · exact phases_put (p := .holding { r with used := r.used + n } (stage.spend n) none) h rfl
      ⟨hle, hcov, spend_sound hstage htakes, nofun⟩ id fun _ _ hk => hk

/-- A guard dropped, with or without the body it was running. -/
theorem Sound.released {k : Option ℕ} (h : Sound gate s)
    (hat : s.at' i = .holding r stage none)
    (hk : ∀ j, j ≠ i → s.initializer = some j → k = some j)
    (hrun : ∀ j, k = some j → s.initializer = some j) :
    Sound gate ({ s with
      reservedTokens := wrappingSub s.reservedTokens r.remaining
      initializer := k }.put i .idle) := by
  have hle := held_le (s := s) (i := i)
  have hsum := held_put (s := s) (i := i) (p := .idle)
  have hbal := h.balanced
  have hfits := h.fits
  rw [hat] at hle hsum
  simp only [Phase.held] at hle hsum
  have hsub : wrappingSub s.reservedTokens r.remaining = s.reservedTokens - r.remaining :=
    wrappingSub_exact (by omega) hfits
  rw [hsub]
  constructor
  · change s.reservedTokens - r.remaining = s.deliveredTokens + (s.put i .idle).heldTokens
    omega
  · change s.reservedTokens - r.remaining < u64
    omega
  · exact h.ceiling
  · exact fun j hj => h.running j (hrun j hj)
  · exact phases_put (p := .idle) h rfl trivial id hk

theorem Sound.move (h : Sound gate s) (hm : Move gate s a t) : Sound gate t := by
  cases hm with
  | begin hat => exact h.put trivial (by rw [hat]; rfl)
  | loadReserved hat => exact h.put trivial (by rw [hat]; rfl)
  | anchored hat => exact h.put probeTick_lt (by rw [hat]; rfl)
  | unanchored hat => exact h.put trivial (by rw [hat]; rfl)
  | loadCeiling hat => exact h.put h.ceiling (by rw [hat]; rfl)
  | tooLittle hat => exact h.put trivial (by rw [hat]; rfl)
  | @sized i asked res c g hat hfloor hle =>
    have hown := h.phases i
    rw [hat] at hown
    change c < u64 at hown
    exact h.put ⟨by omega, hown, covers_of_floor hfloor (by omega)⟩ (by rw [hat]; rfl)
  | granted hat hres => exact h.granted hat hres
  | lost hat => exact h.put trivial (by rw [hat]; rfl)
  | @passed i r hat =>
    obtain ⟨hle, hcov, hused, -⟩ := h.holding hat
    have hleft : r.used < r.granted := by
      have hpos := hcov.1
      change r.used = 0 at hused
      omega
    exact h.put ⟨hle, hcov, hleft, nofun⟩ (by rw [hat]; rfl)
  | refused hat =>
    obtain ⟨hle, hcov, -, -⟩ := h.holding hat
    exact h.put ⟨hle, hcov, trivial, nofun⟩ (by rw [hat]; rfl)
  | initializes hat hcheck hv hk => exact h.initializes hat hcheck hv hk
  | failed hat =>
    obtain ⟨hle, hcov, -, -⟩ := h.holding hat
    exact h.finished hat ⟨hle, hcov, trivial, nofun⟩ id
  | bailed hat =>
    obtain ⟨hle, hcov, -, -⟩ := h.holding hat
    exact h.finished hat ⟨hle, hcov.cached fun _ => nofun, trivial, nofun⟩ fun _ => nofun
  | @layered i r left hat =>
    obtain ⟨hle, hcov, ⟨hcheck, hinit, hspent⟩, -⟩ := h.holding hat
    have hcap : r.used + min r.remaining gate.probeMax ≤ Layer.spent gate .b7 := by
      simp only [Layer.spent] at hspent ⊢
      omega
    exact h.put ⟨hle, hcov, ⟨hcheck, hinit, hcap⟩, nofun⟩ (by rw [hat]; rfl)
  | cached hat => exact h.finished hat (h.verified hat) fun _ => nofun
  | overdrawn hat => exact h
  | charging hat htakes hle =>
    obtain ⟨hused, hcov, hstage, -⟩ := h.holding hat
    refine h.put ⟨hused, hcov, hstage, ?_⟩ (by rw [hat]; rfl)
    rintro ch hch
    cases hch
    exact ⟨htakes, hle⟩
  | accepted hat hceil hlt => exact h.accepted hat
  | rejected hat =>
    obtain ⟨hle, hcov, hstage, -⟩ := h.holding hat
    exact h.put ⟨hle, hcov, hstage, nofun⟩ (by rw [hat]; rfl)
  | resumed hat =>
    obtain ⟨hle, hcov, -, -⟩ := h.holding hat
    exact h.put ⟨hle, hcov, trivial, nofun⟩ (by rw [hat]; rfl)
  | @emptied i r hat hzero =>
    have hleft : r.used < r.granted := (h.holding hat).2.2.1
    unfold RouteReservation.remaining at hzero
    omega
  | dropped hat hstage => exact h.released hat (fun _ _ hk => hk) fun _ hk => hk
  | droppedBody hat =>
    exact h.released hat (fun _ hj hk => absurd hk (h.alone hat hj)) nofun
  | published hlt => exact ⟨h.balanced, h.fits, hlt, h.running, h.phases⟩
  | cutover => exact ⟨h.balanced, h.fits, h.ceiling, h.running, h.phases⟩

theorem Sound.opened (hlt : n < u64) {anchored : Bool} :
    Sound gate (opened n anchored verdict) where
  balanced := rfl
  fits := by
    change 0 < u64
    decide
  ceiling := hlt
  running := nofun
  phases := fun _ => trivial

/-! ## What a call has read -/

/-- The load after which a call of request `i` decides against a ceiling. -/
def Action.ReadsCeiling (i : ℕ) : Action → Prop
  | .readAnchored j => j = i
  | .loadCeiling j => j = i
  | .charge j _ => j = i
  | _ => False

def Action.MovesCeiling : Action → Prop
  | .publish _ => True
  | .cutover => True
  | _ => False

abbrev History := List (Record State Action)

/-- `c` is what `f` was when request `i` last read a ceiling, and still is unless one was
published since. -/
def LastRead (l : History) (s : State) (i : ℕ) (f : State → ℕ) (c : ℕ) : Prop :=
  ∃ before load since, l = before ++ load :: since ∧ load.act.ReadsCeiling i ∧
    (∀ b ∈ since, ¬ b.act.ReadsCeiling i) ∧ f load.pre = c ∧
    ((∀ b ∈ since, ¬ b.act.MovesCeiling) → f s = c)

variable {l : History} {f : State → ℕ}

theorem LastRead.here (ha : a.ReadsCeiling i) (hs : f s = c) (ht : f t = c) :
    LastRead (l ++ [⟨s, a, t⟩]) t i f c := by
  refine ⟨l, ⟨s, a, t⟩, [], rfl, ha, ?_, hs, fun _ => ht⟩
  intro b hb
  cases hb

theorem LastRead.snoc (h : LastRead l s i f c) (ha : ¬ a.ReadsCeiling i)
    (hf : ¬ a.MovesCeiling → f t = f s) : LastRead (l ++ [⟨s, a, t⟩]) t i f c := by
  obtain ⟨before, load, since, hl, hload, hsince, hc, hnow⟩ := h
  refine ⟨before, load, since ++ [⟨s, a, t⟩], ?_, hload, ?_, hc, ?_⟩
  · rw [hl]
    simp
  · intro b hb
    rcases List.mem_append.mp hb with hb | hb
    · exact hsince b hb
    · rw [List.mem_singleton.mp hb]
      exact ha
  · intro hstill
    have hlast : ¬ a.MovesCeiling := hstill ⟨s, a, t⟩ (by simp)
    rw [hf hlast]
    exact hnow fun b hb => hstill b (List.mem_append_left _ hb)

/-- The request an action belongs to. -/
def Action.actor : Action → Option ℕ
  | .begin i _ | .loadReserved i | .readAnchored i | .loadCeiling i | .readOwed i | .exchange i
  | .verify i | .finish i _ | .charge i _ | .accept i | .resume i | .drop i => some i
  | .publish _ | .cutover => none

theorem Move.others (hm : Move gate s a t) (ha : a.actor ≠ some j) : t.at' j = s.at' j := by
  cases hm with
  | overdrawn | published | cutover => rfl
  | _ => exact at_put_ne fun h => ha (by rw [h]; rfl)

theorem Move.tokenCeiling_kept (hm : Move gate s a t) (ha : ¬ a.MovesCeiling) :
    t.tokenCeiling = s.tokenCeiling := by
  cases hm with
  | published => exact absurd trivial ha
  | _ => rfl

theorem Move.anchored_kept (hm : Move gate s a t) (ha : ¬ a.MovesCeiling) :
    t.anchoredBeforeProbe = s.anchoredBeforeProbe := by
  cases hm with
  | cutover => exact absurd trivial ha
  | _ => rfl

theorem Move.anchored_false (hm : Move gate s a t) (h : s.anchoredBeforeProbe = false) :
    t.anchoredBeforeProbe = false := by
  cases hm with
  | cutover => rfl
  | _ => exact h

theorem Move.admissionCeiling_kept (hm : Move gate s a t) (ha : ¬ a.MovesCeiling) :
    t.admissionCeiling = s.admissionCeiling := by
  unfold State.admissionCeiling
  rw [hm.tokenCeiling_kept ha, hm.anchored_kept ha]

theorem ReadsCeiling.actor (h : a.ReadsCeiling i) : a.actor = some i := by
  cases a with
  | readAnchored j | loadCeiling j | charge j n =>
    rw [← (h : j = i)]
    rfl
  | _ => exact h.elim

/-- The ceilings in a request's locals are ceilings that it read itself. -/
def Phase.Read (l : History) (s : State) (i : ℕ) : Phase → Prop
  | .unanchored _ _ => s.anchoredBeforeProbe = false
  | .sized _ _ c => LastRead l s i State.admissionCeiling c
  | .exchanging _ _ c _ => LastRead l s i State.admissionCeiling c
  | .holding _ _ (some ch) => LastRead l s i State.tokenCeiling ch.ceiling
  | _ => True

theorem Phase.Read.frame (h : p.Read l s i) (hm : Move gate s a t)
    (ha : ¬ a.ReadsCeiling i) : p.Read (l ++ [⟨s, a, t⟩]) t i := by
  cases p with
  | unanchored asked res => exact hm.anchored_false h
  | sized asked res c => exact LastRead.snoc h ha hm.admissionCeiling_kept
  | exchanging asked res c g => exact LastRead.snoc h ha hm.admissionCeiling_kept
  | holding r stage charge =>
    cases charge with
    | none => exact trivial
    | some ch => exact LastRead.snoc h ha hm.tokenCeiling_kept
  | _ => exact trivial

theorem read_move (h : ∀ i, (s.at' i).Read l s i) (hm : Move gate s a t) :
    ∀ i, (t.at' i).Read (l ++ [⟨s, a, t⟩]) t i := by
  intro i
  by_cases ha : a.actor = some i
  · have hown := h i
    cases hm with
    | published | cutover => cases ha
    | overdrawn hat =>
      cases ha
      rw [hat]
      trivial
    | anchored hat hflag =>
      cases ha
      rw [at_put]
      have hc : s.admissionCeiling = probeTickTokens := if_pos hflag
      exact LastRead.here (f := State.admissionCeiling) rfl hc hc
    | unanchored hat hflag =>
      cases ha
      rw [at_put]
      exact hflag
    | loadCeiling hat =>
      cases ha
      rw [at_put]
      rw [hat] at hown
      have hc : s.admissionCeiling = s.tokenCeiling := by
        unfold State.admissionCeiling
        rw [show s.anchoredBeforeProbe = false from hown]
        rfl
      exact LastRead.here (f := State.admissionCeiling) rfl hc hc
    | @sized j asked res c g hat hfloor hle =>
      cases ha
      rw [at_put]
      rw [hat] at hown
      exact LastRead.snoc hown (a := .readOwed i) id
        (Move.sized hat hfloor hle).admissionCeiling_kept
    | charging hat htakes hle =>
      cases ha
      rw [at_put]
      exact LastRead.here (f := State.tokenCeiling) rfl rfl rfl
    | _ =>
      cases ha
      rw [at_put]
      trivial
  · rw [hm.others ha]
    exact (h i).frame hm fun hr => ha (ReadsCeiling.actor hr)

/-! ## Runs -/

/-- A total under the ceiling that the call of request `i` decided against, which is the one in
force unless a ceiling was published inside that call. -/
def Within (l : History) (s : State) (i : ℕ) (f : State → ℕ) (total : ℕ) : Prop :=
  ∃ c, LastRead l s i f c ∧ total ≤ c

/-- What one action did, given the history before it. -/
def Judged (l : History) (x : Record State Action) : Prop :=
  match x.act with
  | .exchange i => ∀ r stage charge, x.post.at' i = .holding r stage charge →
    x.post.reservedTokens = x.pre.reservedTokens + r.granted ∧
      Within l x.pre i State.admissionCeiling x.post.reservedTokens
  | .charge i n => x.post = x.pre ∨ ∃ r stage, x.pre.at' i = .holding r stage none ∧
    x.post = x.pre.put i (.holding r stage (some ⟨n, x.pre.tokenCeiling⟩))
  | .accept i => ∃ r stage charge, x.pre.at' i = .holding r stage (some charge) ∧
    ((x.post = { x.pre with deliveredTokens := x.pre.deliveredTokens + charge.tokens }.put i
        (.holding { r with used := r.used + charge.tokens } (stage.spend charge.tokens) none) ∧
      Within l x.pre i State.tokenCeiling x.post.deliveredTokens) ∨
    x.post = x.pre.put i (.holding r stage none))
  | _ => True

theorem judged_granted (hs : Sound gate s) (h : ∀ i, (s.at' i).Read l s i)
    (hat : s.at' i = .exchanging asked res c g) (hres : s.reservedTokens = res) :
    Judged l ⟨s, .exchange i, { s with reservedTokens := saturatingAdd res g }.put i
      (.holding ⟨g, 0⟩ .admitted none)⟩ := by
  have hread := h i
  have hown := hs.phases i
  rw [hat] at hread hown
  obtain ⟨hle, hlt, -⟩ := hown
  intro r stage charge hpost
  rw [at_put] at hpost
  cases hpost
  simp only [put_reservedTokens]
  rw [saturatingAdd_exact (by omega), hres]
  exact ⟨rfl, c, hread, hle⟩

theorem judged_move (hs : Sound gate s) (h : ∀ i, (s.at' i).Read l s i) (hm : Move gate s a t) :
    Judged l ⟨s, a, t⟩ := by
  cases hm with
  | granted hat hres => exact judged_granted hs h hat hres
  | lost hat =>
    intro r stage charge hpost
    rw [at_put] at hpost
    cases hpost
  | overdrawn hat => exact .inl rfl
  | charging hat htakes hle => exact .inr ⟨_, _, hat, rfl⟩
  | @accepted i n c r stage hat hceil hlt =>
    have hread := h i
    rw [hat] at hread
    exact ⟨r, stage, ⟨n, c⟩, hat, .inl ⟨rfl, c, hread, hceil⟩⟩
  | rejected hat => exact ⟨_, _, _, hat, .inr rfl⟩
  | _ => exact trivial

def anyTime (_ : State) (_ : Action) : Prop := True

instance : ∀ s a, Decidable (anyTime s a) := fun _ _ => .isTrue trivial

theorem run_sound {m : ℕ} {flag : Bool} (hm : m < u64)
    (h : Run (exec gate) anyTime (opened m flag verdict) l s) :
    Sound gate s ∧ ∀ i, (s.at' i).Read l s i := by
  refine h.invariant (I := fun l s => Sound gate s ∧ ∀ i, (s.at' i).Read l s i)
    ⟨Sound.opened hm, fun _ => trivial⟩ fun l s a t ih _ hexec => ?_
  have hmove := exec_move hexec
  exact ⟨ih.1.move hmove, read_move ih.2 hmove⟩

theorem not_held (h : ∀ i r stage charge, s.at' i ≠ .holding r stage charge) :
    s.heldTokens = 0 := by
  refine Finset.sum_eq_zero fun i _ => ?_
  change (s.at' i).held = 0
  cases hat : s.at' i with
  | holding r stage charge => exact absurd hat (h i r stage charge)
  | _ => rfl

/-- A request that verifies and is served, beside one that is dropped while it waits. -/
def servedSchedule : List Action :=
  [.begin 0 (some 100), .begin 1 none, .loadReserved 0, .loadReserved 1, .readAnchored 0,
    .loadCeiling 0, .readOwed 0, .readAnchored 1, .publish 900, .exchange 0, .loadCeiling 1,
    .readOwed 1, .exchange 1, .readAnchored 1, .loadCeiling 1, .readOwed 1, .exchange 1,
    .verify 0, .charge 0 60, .accept 0, .drop 1, .finish 0 .pass, .charge 0 30, .accept 0,
    .finish 0 .pass, .resume 0, .charge 0 50, .accept 0, .charge 0 90]

/-- A total under the ceiling in force at the instant it is written. -/
def InForce (x : Record State Action) : Prop :=
  match x.act with
  | .exchange _ => x.post.reservedTokens ≠ x.pre.reservedTokens →
    x.post.reservedTokens ≤ x.pre.admissionCeiling
  | .accept _ => x.post.deliveredTokens ≠ x.pre.deliveredTokens →
    x.post.deliveredTokens ≤ x.pre.tokenCeiling
  | _ => True

def overtakenSchedule : List Action :=
  [.begin 0 (some 100), .loadReserved 0, .readAnchored 0, .loadCeiling 0, .readOwed 0,
    .exchange 0, .verify 0, .charge 0 50, .publish 30]

end RouteBudget
