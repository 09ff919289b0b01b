import Dexdo.RouteBudget

/-! # What one action of a route can do

Every accepted action, with its guards, and the invariant of the counters: what is reserved is
what was delivered and what live reservations still hold. -/
namespace RouteBudget

open SolidityMapping TokenContractState

/-- The accepted actions with their guards. -/
inductive Move (gate : ContentGate) (s : State) : Action → State → Prop where
  | begin {i asked} : s.at' i = .idle → Move gate s (.begin i asked) (s.put i (.reserving asked))
  | loadReserved {i asked} : s.at' i = .reserving asked →
      Move gate s (.loadReserved i) (s.put i (.attempting asked s.reservedTokens))
  | anchored {i asked res} : s.at' i = .attempting asked res → s.anchoredBeforeProbe = true →
      Move gate s (.readAnchored i) (s.put i (.sized asked res probeTickTokens))
  | unanchored {i asked res} : s.at' i = .attempting asked res → s.anchoredBeforeProbe = false →
      Move gate s (.readAnchored i) (s.put i (.unanchored asked res))
  | loadCeiling {i asked res} : s.at' i = .unanchored asked res →
      Move gate s (.loadCeiling i) (s.put i (.sized asked res s.tokenCeiling))
  | tooLittle {i asked res c} : s.at' i = .sized asked res c →
      Move gate s (.readOwed i) (s.put i .idle)
  | sized {i asked res c g} : s.at' i = .sized asked res c →
      s.outstandingVerificationTokens gate < g → g ≤ c - res →
      Move gate s (.readOwed i) (s.put i (.exchanging asked res c g))
  | granted {i asked res c g} : s.at' i = .exchanging asked res c g → s.reservedTokens = res →
      Move gate s (.exchange i) ({ s with reservedTokens := saturatingAdd res g }.put i
        (.holding ⟨g, 0⟩ .admitted none))
  | lost {i asked res c g} : s.at' i = .exchanging asked res c g →
      Move gate s (.exchange i) (s.put i (.attempting asked s.reservedTokens))
  | passed {i r} : s.at' i = .holding r .admitted none →
      Move gate s (.verify i) (s.put i (.holding r .verified none))
  | refused {i r} : s.at' i = .holding r .admitted none →
      Move gate s (.verify i) (s.put i (.holding r .ended none))
  | initializes {i r} : s.at' i = .holding r .admitted none → gate.check = .probe →
      s.verdict = none → s.initializer = none →
      Move gate s (.verify i) ({ s with initializer := some i }.put i
        (.holding r (.probing .b8 (min r.remaining gate.probeMax)) none))
  | failed {i r layer left} : s.at' i = .holding r (.probing layer left) none →
      Move gate s (.finish i .transportError)
        ({ s with initializer := none }.put i (.holding r .ended none))
  | bailed {i r layer left} : s.at' i = .holding r (.probing layer left) none →
      Move gate s (.finish i .bail)
        ({ s with initializer := none, verdict := some false }.put i (.holding r .ended none))
  | layered {i r left} : s.at' i = .holding r (.probing .b8 left) none →
      Move gate s (.finish i .pass)
        (s.put i (.holding r (.probing .b7 (min r.remaining gate.probeMax)) none))
  | cached {i r left} : s.at' i = .holding r (.probing .b7 left) none →
      Move gate s (.finish i .pass)
        ({ s with initializer := none, verdict := some true }.put i (.holding r .verified none))
  | overdrawn {i n r stage} : s.at' i = .holding r stage none → Move gate s (.charge i n) s
  | charging {i n r stage} : s.at' i = .holding r stage none → stage.takes n = true →
      r.used + n ≤ r.granted →
      Move gate s (.charge i n) (s.put i (.holding r stage (some ⟨n, s.tokenCeiling⟩)))
  | accepted {i n c r stage} : s.at' i = .holding r stage (some ⟨n, c⟩) →
      s.deliveredTokens + n ≤ c → s.deliveredTokens + n < u64 →
      Move gate s (.accept i) ({ s with deliveredTokens := s.deliveredTokens + n }.put i
        (.holding { r with used := r.used + n } (stage.spend n) none))
  | rejected {i n c r stage} : s.at' i = .holding r stage (some ⟨n, c⟩) →
      Move gate s (.accept i) (s.put i (.holding r stage none))
  | resumed {i r} : s.at' i = .holding r .verified none → 0 < r.remaining →
      Move gate s (.resume i) (s.put i (.holding r .serving none))
  | emptied {i r} : s.at' i = .holding r .verified none → r.remaining = 0 →
      Move gate s (.resume i) (s.put i (.holding r .zeroGrant none))
  | dropped {i r stage} : s.at' i = .holding r stage none →
      (∀ layer left, stage ≠ .probing layer left) →
      Move gate s (.drop i)
        ({ s with reservedTokens := wrappingSub s.reservedTokens r.remaining }.put i .idle)
  | droppedBody {i r layer left} : s.at' i = .holding r (.probing layer left) none →
      Move gate s (.drop i) ({ s with
        reservedTokens := wrappingSub s.reservedTokens r.remaining
        initializer := none }.put i .idle)
  | published {c} : c < u64 → Move gate s (.publish c) { s with tokenCeiling := c }
  | cutover : Move gate s .cutover { s with anchoredBeforeProbe := false }

variable {gate : ContentGate} {s t : State} {a : Action} {i j n c g res : ℕ}
  {asked : Option ℕ} {r : RouteReservation} {stage : Stage} {layer : Layer} {left : ℕ}

/-! ## Machine arithmetic -/

theorem saturatingAdd_exact (h : i + j < u64) : saturatingAdd i j = i + j := by
  unfold saturatingAdd
  omega

theorem wrappingSub_exact (h : j ≤ i) (hi : i < u64) : wrappingSub i j = i - j := by
  unfold wrappingSub
  have hsum : i + (u64 - j) = (i - j) + u64 := by omega
  rw [hsum, Nat.add_mod_right, Nat.mod_eq_of_lt (by omega)]

theorem checkedUsedAfter_some (h : r.checkedUsedAfter n = some c) :
    c = r.used + n ∧ r.used + n ≤ r.granted := by
  unfold RouteReservation.checkedUsedAfter at h
  split at h
  · rename_i hle
    exact ⟨(Option.some.inj h).symm, hle.2⟩
  · cases h

/-! ## The table of requests -/

@[simp] theorem put_tokenCeiling {p : Phase} : (s.put i p).tokenCeiling = s.tokenCeiling := rfl
@[simp] theorem put_deliveredTokens {p : Phase} :
    (s.put i p).deliveredTokens = s.deliveredTokens := rfl
@[simp] theorem put_reservedTokens {p : Phase} :
    (s.put i p).reservedTokens = s.reservedTokens := rfl
@[simp] theorem put_anchored {p : Phase} :
    (s.put i p).anchoredBeforeProbe = s.anchoredBeforeProbe := rfl
@[simp] theorem put_verdict {p : Phase} : (s.put i p).verdict = s.verdict := rfl
@[simp] theorem put_initializer {p : Phase} : (s.put i p).initializer = s.initializer := rfl

@[simp] theorem at_put {p : Phase} : (s.put i p).at' i = p := Mapping.get_set

theorem at_put_ne {p : Phase} (h : j ≠ i) : (s.put i p).at' j = s.at' j := Mapping.get_set_ne h

theorem held_put {p : Phase} :
    (s.put i p).heldTokens + (s.at' i).held = s.heldTokens + p.held :=
  Mapping.total_write rfl

theorem held_le : (s.at' i).held ≤ s.heldTokens := by
  have h := held_put (s := s) (i := i) (p := .idle)
  have h0 : Phase.held .idle = 0 := rfl
  omega

/-! ## Actions -/

theorem grantOf_le {free floor : ℕ} : grantOf asked free floor ≤ free := by
  cases asked with
  | none => exact le_refl _
  | some asked => exact min_le_right _ _

theorem verify_move (h : s.at' i = .holding r .admitted none)
    (ht : verify gate i r s = some t) : Move gate s (.verify i) t := by
  unfold verify at ht
  split at ht
  · cases ht
    exact .passed h
  · cases ht
    exact .refused h
  · cases ht
    exact .passed h
  · cases ht
    exact .refused h
  · cases ht
  · rename_i hcheck hmodels hverdict hinit
    cases ht
    exact .initializes h hcheck hverdict hinit

theorem finish_move {outcome : Outcome} (h : s.at' i = .holding r (.probing layer left) none) :
    Move gate s (.finish i outcome) (finish gate i r layer s outcome) := by
  cases outcome with
  | transportError => exact .failed h
  | bail => exact .bailed h
  | pass =>
    cases layer with
    | b8 => exact .layered h
    | b7 => exact .cached h

theorem charge_move (h : s.at' i = .holding r stage none) (htakes : stage.takes n = true) :
    Move gate s (.charge i n) (charge i n r stage s) := by
  unfold charge
  split
  · exact .overdrawn h
  · rename_i used hused
    exact .charging h htakes (checkedUsedAfter_some hused).2

theorem accept_move {ch : Charge} (h : s.at' i = .holding r stage (some ch)) :
    Move gate s (.accept i) (accept i r stage ch s) := by
  unfold accept
  split
  · rename_i hle
    exact .accepted h hle.2 hle.1
  · exact .rejected h

theorem drop_move (h : s.at' i = .holding r stage none) :
    Move gate s (.drop i) (drop i r stage s) := by
  cases stage with
  | probing layer left => exact .droppedBody h
  | _ => exact .dropped h (by simp)

theorem exec_move (h : exec gate a s = .ok t) : Move gate s a t := by
  have hnext : next gate s a = some t := by
    unfold exec at h
    split at h
    · rename_i u hu
      rw [hu, Except.ok.inj h]
    · cases h
  clear h
  cases a with
  | begin i asked =>
    simp only [next] at hnext
    split at hnext <;> cases hnext
    exact .begin ‹_›
  | loadReserved i =>
    simp only [next] at hnext
    split at hnext <;> cases hnext
    exact .loadReserved ‹_›
  | readAnchored i =>
    simp only [next] at hnext
    split at hnext <;> cases hnext
    rename_i hat
    split
    · exact .anchored hat ‹_›
    · rename_i hflag
      exact .unanchored hat (Bool.eq_false_iff.mpr hflag)
  | loadCeiling i =>
    simp only [next] at hnext
    split at hnext <;> cases hnext
    exact .loadCeiling ‹_›
  | readOwed i =>
    simp only [next] at hnext
    split at hnext <;> cases hnext
    rename_i hat
    split
    · exact .tooLittle hat
    · exact .sized hat (not_le.mp ‹¬ _›) grantOf_le
  | exchange i =>
    simp only [next] at hnext
    split at hnext
    · rename_i hat
      split at hnext <;> cases hnext
      · exact .granted hat ‹_›
      · exact .lost hat
    · cases hnext
  | verify i =>
    simp only [next] at hnext
    split at hnext
    · exact verify_move ‹_› hnext
    · cases hnext
  | finish i outcome =>
    simp only [next] at hnext
    split at hnext <;> cases hnext
    exact finish_move ‹_›
  | charge i n =>
    simp only [next] at hnext
    split at hnext
    · rename_i hat
      split at hnext <;> cases hnext
      exact charge_move hat ‹_›
    · cases hnext
  | accept i =>
    simp only [next] at hnext
    split at hnext <;> cases hnext
    exact accept_move ‹_›
  | resume i =>
    simp only [next] at hnext
    split at hnext <;> cases hnext
    rename_i hat
    split
    · exact .emptied hat ‹_›
    · exact .resumed hat (Nat.pos_of_ne_zero ‹_›)
  | drop i =>
    simp only [next] at hnext
    split at hnext <;> cases hnext
    exact drop_move ‹_›
  | publish c =>
    simp only [next] at hnext
    split at hnext <;> cases hnext
    exact .published ‹_›
  | cutover =>
    cases hnext
    exact .cutover

end RouteBudget
