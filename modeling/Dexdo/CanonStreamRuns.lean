import Dexdo.CanonStream
import Dexdo.GrantedPrefix

/-! # Where the loop of a renderer stops

A run serves chunks one after another and stops for one reason; what the run leaves is what the
chunks and the reason leave. -/
namespace CanonStream

open TextForms TokenContractState RouteBudget GrantedPrefix

theorem accountedTokens_pos (chunk : CanonChunk) : 0 < accountedTokens chunk :=
  lt_of_lt_of_le Nat.zero_lt_one (le_max_right _ _)

/-! ## What the upstream offers -/

/-- The chunks before the first thing that is not a verified chunk, read or not. -/
def verified (v : StreamVerifier) : List Turn → List CanonChunk
  | [] => []
  | t :: ts =>
    match t.item with
    | some (.ok chunk) =>
      match v.verify chunk with
      | (v, .pass) => chunk :: verified v ts
      | (_, .bail) => []
    | _ => []

/-- What follows these chunks is the end of the stream. -/
def endsByItself (v : StreamVerifier) : List Turn → Bool
  | [] => true
  | t :: ts =>
    match t.item with
    | some (.ok chunk) =>
      match v.verify chunk with
      | (v, .pass) => endsByItself v ts
      | (_, .bail) => false
    | some (.error _) => false
    | none => true

def HasEnded (turns : List Turn) : Prop := ∀ t, turns.head? = some t → t.item = none

/-! ## Serving -/

structure Front where
  verifier : StreamVerifier
  received : ℕ
  reservation : Option RouteReservation

def Front.start (model : String) (reservation : Option RouteReservation) : Front :=
  ⟨.withExpectedModel model, 0, reservation⟩

structure Front.Offers (f : Front) (t : Turn) (chunk : CanonChunk) (v : StreamVerifier) : Prop
    where
  isOpen : t.sessionClosed = false
  item : t.item = some (.ok chunk)
  verified : f.verifier.verify chunk = (v, .pass)

def Front.Refuses (g : ℕ) (f : Front) (t : Turn) (message : Text) : Prop :=
  ∃ chunk v, f.Offers t chunk v ∧ f.received + accountedTokens chunk ≤ g ∧
    recordDelivered f.reservation t.route (accountedTokens chunk) = .error message

/-- The chunks of the turns are charged one after another. None of them finds the grant met. -/
inductive Served (g : ℕ) : Front → List Turn → List CanonChunk → Front → Prop
  | nil {f} : Served g f [] [] f
  | cons {f f' t ts chunk chunks v reservation} : f.received < g → f.Offers t chunk v →
      f.received + accountedTokens chunk ≤ g →
      recordDelivered f.reservation t.route (accountedTokens chunk) = .ok reservation →
      Served g ⟨v, f.received + accountedTokens chunk, some reservation⟩ ts chunks f' →
      Served g f (t :: ts) (chunk :: chunks) f'

variable {g : ℕ} {f f' : Front} {t : Turn} {ts taken rest turns : List Turn}
  {chunk : CanonChunk} {shown : List CanonChunk} {v : StreamVerifier}

theorem Served.received (h : Served g f taken shown f') :
    f'.received = f.received + total accountedTokens shown := by
  induction h with
  | nil => simp
  | cons _ _ _ _ _ ih => rw [ih, total_cons, Nat.add_assoc]

theorem Served.length (h : Served g f taken shown f') : taken.length = shown.length := by
  induction h with
  | nil => rfl
  | cons _ _ _ _ _ ih => rw [List.length_cons, List.length_cons, ih]

theorem Served.le (h : Served g f taken shown f') (hf : f.received ≤ g) : f'.received ≤ g := by
  induction h with
  | nil => exact hf
  | cons _ _ hfit _ _ ih => exact ih hfit

theorem Front.Offers.verified_cons (h : f.Offers t chunk v) :
    CanonStream.verified f.verifier (t :: ts) = chunk :: CanonStream.verified v ts := by
  simp only [CanonStream.verified, h.item, h.verified]

theorem Front.Offers.endsByItself_cons (h : f.Offers t chunk v) :
    endsByItself f.verifier (t :: ts) = endsByItself v ts := by
  simp only [endsByItself, h.item, h.verified]

theorem Served.verified_append (h : Served g f taken shown f') :
    verified f.verifier (taken ++ rest) = shown ++ verified f'.verifier rest := by
  induction h with
  | nil => rfl
  | cons _ ho _ _ _ ih => rw [List.cons_append, ho.verified_cons, ih, List.cons_append]

theorem Served.endsByItself_append (h : Served g f taken shown f') :
    endsByItself f.verifier (taken ++ rest) = endsByItself f'.verifier rest := by
  induction h with
  | nil => rfl
  | cons _ ho _ _ _ ih => rw [List.cons_append, ho.endsByItself_cons, ih]

theorem HasEnded.verified (h : HasEnded rest) : verified v rest = [] := by
  cases rest with
  | nil => rfl
  | cons t ts => simp only [CanonStream.verified, h t rfl]

theorem HasEnded.endsByItself (h : HasEnded rest) : endsByItself v rest = true := by
  cases rest with
  | nil => rfl
  | cons t ts => simp only [CanonStream.endsByItself, h t rfl]

theorem hasEnded_of (hv : verified v rest = []) (he : endsByItself v rest = true) :
    HasEnded rest := by
  cases rest with
  | nil => nofun
  | cons t ts =>
    intro u hu
    cases hu
    cases hitem : t.item with
    | none => rfl
    | some item =>
      exfalso
      cases item with
      | error status => simp [CanonStream.endsByItself, hitem] at he
      | ok chunk =>
        rcases hverdict : v.verify chunk with ⟨v', verdict⟩
        cases verdict with
        | pass => simp [CanonStream.verified, hitem, hverdict] at hv
        | bail => simp [CanonStream.endsByItself, hitem, hverdict] at he

/-! ## Stopping -/

inductive Stop where
  | met
  | ended
  | sessionClosed
  | failed (status : Status)
  | bailed (v : StreamVerifier)
  | overGrant (v : StreamVerifier)
  | refused (v : StreamVerifier) (tokens : ℕ) (message : Text)

/-- The next turn stops the run. -/
inductive Stops (g : ℕ) (f : Front) : List Turn → Stop → Prop
  | met {rest : List Turn} : f.received = g → Stops g f rest .met
  | exhausted : f.received < g → Stops g f [] .ended
  | ended {t : Turn} {ts : List Turn} : f.received < g → t.sessionClosed = false → t.item = none →
      Stops g f (t :: ts) .ended
  | sessionClosed {t : Turn} {ts : List Turn} : f.received < g → t.sessionClosed = true →
      Stops g f (t :: ts) .sessionClosed
  | failed {t : Turn} {ts : List Turn} {status : Status} : f.received < g → t.sessionClosed = false →
      t.item = some (.error status) → Stops g f (t :: ts) (.failed status)
  | bailed {t : Turn} {ts : List Turn} {chunk : CanonChunk} {v : StreamVerifier} : f.received < g → t.sessionClosed = false →
      t.item = some (.ok chunk) → f.verifier.verify chunk = (v, .bail) →
      Stops g f (t :: ts) (.bailed v)
  | overGrant {t : Turn} {ts : List Turn} {chunk : CanonChunk} {v : StreamVerifier} : f.received < g → f.Offers t chunk v →
      g < f.received + accountedTokens chunk → Stops g f (t :: ts) (.overGrant v)
  | refused {t : Turn} {ts : List Turn} {chunk : CanonChunk} {v : StreamVerifier}
      {message : Text} : f.received < g → f.Offers t chunk v →
      f.received + accountedTokens chunk ≤ g →
      recordDelivered f.reservation t.route (accountedTokens chunk) = .error message →
      Stops g f (t :: ts) (.refused v (accountedTokens chunk) message)

/-! ## The loop -/

namespace Loop

def eventsOf (streamed : Bool) (chunk : CanonChunk) : List Event :=
  .charged (accountedTokens chunk) :: expose streamed chunk.text

structure At (g : ℕ) (f : Front) (l : Loop) : Prop where
  driver : l.driver = ⟨f.verifier, f.received, g, false⟩
  reservation : l.reservation = f.reservation

/-- The loop after chunks were served. -/
def after (streamed : Bool) (g : ℕ) (f : Front) (shown : List CanonChunk) (l : Loop) : Loop :=
  { l with
    driver := ⟨f.verifier, f.received, g, false⟩
    reservation := f.reservation
    events := l.events ++ shown.flatMap (eventsOf streamed) }

/-- What the reason to stop changes. -/
def halt (l : Loop) : Stop → Loop
  | .met | .ended => l
  | .sessionClosed =>
    { l with
      streamError :=
        some (.localFailure "deal session closed after accepted-output deadline".toList) }
  | .failed status => { l with streamError := some (.upstream status) }
  | .bailed v => { l with driver := { l.driver with verifier := v, bailed := true } }
  | .overGrant v => { l with driver := { l.driver with verifier := v }, capped := true }
  | .refused v tokens message =>
    { l with
      driver := { l.driver with verifier := v, received := l.driver.received + tokens }
      streamError := some (.localFailure message) }

variable {l : Loop} {streamed : Bool} {stop : Stop}

theorem At.after_nil (h : At g f l) : l.after streamed g f [] = l := by
  cases l
  cases h.driver
  cases h.reservation
  simp [after]

theorem after_at : At g f (l.after streamed g f shown) := ⟨rfl, rfl⟩

theorem after_after (k : Front) (more : List CanonChunk) :
    (l.after streamed g f shown).after streamed g k more = l.after streamed g k (shown ++ more) := by
  simp [after]

theorem run_nil : run streamed l [] = l := rfl

theorem run_more {l' : Loop} (h : l.round streamed t = (l', true)) :
    run streamed l (t :: ts) = run streamed l' ts := by
  rw [run, h]

theorem run_last {l' : Loop} (h : l.round streamed t = (l', false)) :
    run streamed l (t :: ts) = l' := by
  rw [run, h]

theorem saturatingAdd_le {a b : ℕ} (hg : g < 2 ^ 32) :
    saturatingAdd a b ≤ g ↔ a + b ≤ g := by
  unfold saturatingAdd u64
  omega

theorem saturatingAdd_eq {a b : ℕ} (hg : g < 2 ^ 32) (h : a + b ≤ g) :
    saturatingAdd a b = a + b := by
  unfold saturatingAdd u64
  omega

theorem next_offers (h : At g f l) (ho : f.Offers t chunk v) :
    l.driver.next t = (⟨v, f.received, g, false⟩, .chunk chunk) := by
  simp [CanonStreamDriver.next, h.driver, ho.isOpen, ho.item, ho.verified]

theorem round_served (hg : g < 2 ^ 32) (h : At g f l) (ho : f.Offers t chunk v)
    (hfit : f.received + accountedTokens chunk ≤ g) {reservation : RouteReservation}
    (hr : recordDelivered f.reservation t.route (accountedTokens chunk) = .ok reservation) :
    l.round streamed t =
      (l.after streamed g ⟨v, f.received + accountedTokens chunk, some reservation⟩ [chunk],
        !decide (g ≤ f.received + accountedTokens chunk)) := by
  have hsum := saturatingAdd_eq hg hfit
  unfold round
  rw [next_offers h ho]
  simp [CanonStreamDriver.admits, CanonStreamDriver.accountRendered, hsum, hfit, h.reservation,
    hr, after, eventsOf]

theorem round_stops (hg : g < 2 ^ 32) (h : At g f l) (hstop : Stops g f (t :: ts) stop)
    (hmet : f.received < g) : l.round streamed t = (l.halt stop, false) := by
  have hdriver := h.driver
  have hreservation := h.reservation
  cases hstop with
  | met heq => omega
  | ended _ hopen hitem =>
    simp [round, CanonStreamDriver.next, halt, hopen, hitem]
  | sessionClosed _ hclosed => simp [round, CanonStreamDriver.next, halt, hclosed]
  | failed _ hopen hitem => simp [round, CanonStreamDriver.next, halt, hopen, hitem]
  | bailed _ hopen hitem hv =>
    simp [round, CanonStreamDriver.next, halt, hopen, hitem, hdriver, hv]
  | overGrant _ ho hover =>
    have hadmits : ¬saturatingAdd f.received (accountedTokens _) ≤ g := fun hle =>
      absurd ((saturatingAdd_le hg).mp hle) (Nat.not_le.mpr hover)
    unfold round
    rw [next_offers h ho]
    simp [CanonStreamDriver.admits, hadmits, halt, hdriver]
  | refused _ ho hfit hr =>
    have hsum := saturatingAdd_eq hg hfit
    unfold round
    rw [next_offers h ho]
    simp [CanonStreamDriver.admits, CanonStreamDriver.accountRendered, hsum, hfit,
      hreservation, hr, halt, hdriver]

theorem run_stops (hg : g < 2 ^ 32) (h : At g f l) (hlt : f.received < g)
    (hstop : Stops g f rest stop) : run streamed l rest = l.halt stop := by
  cases rest with
  | nil =>
    cases hstop with
    | met heq => exact absurd heq hlt.ne
    | exhausted => rfl
  | cons t ts => exact run_last (round_stops hg h hstop hlt)

theorem run_served (hg : g < 2 ^ 32) (hs : Served g f taken shown f') (hlt : f.received < g)
    (hstop : Stops g f' rest stop) : ∀ {l : Loop}, At g f l →
      run streamed l (taken ++ rest) = (l.after streamed g f' shown).halt stop := by
  induction hs with
  | nil =>
    intro l h
    rw [h.after_nil]
    exact run_stops hg h hlt hstop
  | @cons f f' t ts chunk chunks v reservation _ ho hfit hr hs ih =>
    intro l h
    have hround : l.round streamed _ = _ := round_served hg h ho hfit hr
    rw [List.cons_append]
    by_cases hmet : f.received + accountedTokens chunk < g
    · rw [decide_eq_false (Nat.not_le.mpr hmet)] at hround
      rw [run_more hround, ih hmet hstop after_at, after_after]
      rfl
    · rw [decide_eq_true (Nat.not_lt.mp hmet)] at hround
      rw [run_last hround]
      cases hs with
      | cons hlt' => exact absurd hlt' hmet
      | nil =>
        cases hstop with
        | met => rfl
        | _ => exact absurd ‹_› hmet

/-- Every run serves some turns and stops at the next. -/
theorem exists_served : ∀ (turns : List Turn) {f : Front}, f.received < g →
    ∃ taken shown f' rest stop,
      turns = taken ++ rest ∧ Served g f taken shown f' ∧ Stops g f' rest stop
  | [], f, hlt => ⟨[], [], f, [], .ended, rfl, .nil, .exhausted hlt⟩
  | t :: ts, f, hlt => by
    have here {stop} (hstop : Stops g f (t :: ts) stop) : ∃ taken shown f' rest stop,
        t :: ts = taken ++ rest ∧ Served g f taken shown f' ∧ Stops g f' rest stop :=
      ⟨[], [], f, t :: ts, stop, rfl, .nil, hstop⟩
    cases hclosed : t.sessionClosed with
    | true => exact here (.sessionClosed hlt hclosed)
    | false =>
      rcases hitem : t.item with _ | status | chunk
      · exact here (.ended hlt hclosed hitem)
      · exact here (.failed hlt hclosed hitem)
      · rcases hverdict : f.verifier.verify chunk with ⟨v, verdict⟩
        cases verdict with
        | bail => exact here (.bailed hlt hclosed hitem hverdict)
        | pass =>
          have ho : f.Offers t chunk v := ⟨hclosed, hitem, hverdict⟩
          by_cases hfit : f.received + accountedTokens chunk ≤ g
          · cases hr : recordDelivered f.reservation t.route (accountedTokens chunk) with
            | error message => exact here (.refused hlt ho hfit hr)
            | ok reservation =>
              by_cases hmet : f.received + accountedTokens chunk = g
              · exact ⟨[t], [chunk], _, ts, .met, rfl, .cons hlt ho hfit hr .nil, .met hmet⟩
              · obtain ⟨taken, shown, f', rest, stop, rfl, hs, hstop⟩ :=
                  exists_served ts
                    (show (Front.mk v _ (some reservation)).received < g from
                      lt_of_le_of_ne hfit hmet)
                exact ⟨t :: taken, chunk :: shown, f', rest, stop, rfl,
                  .cons hlt ho hfit hr hs, hstop⟩
          · exact here (.overGrant hlt ho (Nat.not_le.mp hfit))

end Loop

end CanonStream
