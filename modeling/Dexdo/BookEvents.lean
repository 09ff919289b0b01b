import Mathlib.Data.List.Induction
import Dexdo.InferenceOrderBookCalls

/-! # The event fold of the market view

`crates/core/src/chain/book_events.rs`: the live orders of a book, rebuilt from what it emits. Maps
are functions; the paging cursor is left out, and so is decoding, except where a value may not fit
the type it is read into. -/
namespace BookEvents

open TokenContractState hiding Out Err Sent
open InferenceOrderBookState

structure LiveBookOrder where
  orderId : ℕ
  isBuy : Bool
  price : ℕ
  ticksRemaining : ℕ
  note : Address
  tokenContract : Address
  deadline : ℕ
  flags : ℕ
  expiredByEvent : Bool := false
  deriving DecidableEq

inductive BookEvent where
  | placed (order : LiveBookOrder)
  | cancelled (orderId : ℕ)
  | cancelRejected (orderId : ℕ) (reason : CancelRej) (note : Address)
  | filled (makerId takerId ticks : ℕ)
  | expired (orderId : ℕ) (isBuy : Bool) (note tokenContract : Address)

structure BookEventFold where
  orders : ℕ → Option LiveBookOrder := fun _ => none
  cancelRejections : ℕ × Address → Option CancelRej := fun _ => none

namespace BookEventFold

/-- One side of a fill: an ask leaves whole, a bid is reduced. -/
def fill (orderId ticks : ℕ) (f : BookEventFold) : BookEventFold :=
  match f.orders orderId with
  | none => f
  | some order =>
    if !order.isBuy then { f with orders := Function.update f.orders orderId none }
    else
      let left := order.ticksRemaining - ticks
      { f with
        orders := Function.update f.orders orderId
          (if left = 0 then none else some { order with ticksRemaining := left }) }

def apply (f : BookEventFold) : BookEvent → BookEventFold
  | .placed order => { f with orders := Function.update f.orders order.orderId (some order) }
  | .cancelled orderId => { f with orders := Function.update f.orders orderId none }
  | .cancelRejected orderId reason note =>
    { f with cancelRejections := Function.update f.cancelRejections (orderId, note) (some reason) }
  | .filled makerId takerId ticks => (f.fill makerId ticks).fill takerId ticks
  | .expired orderId _ _ _ =>
    { f with
      orders := Function.update f.orders orderId
        ((f.orders orderId).map fun order => { order with expiredByEvent := true }) }

end BookEventFold

/-- The price of a placement is a `uint256` read into a `u128`. -/
def decodeBookEvent : Out → Except String (Option BookEvent)
  | .inferenceOrderPlaced orderId isBuy price ticks note tokenContract deadline flags =>
    if price < u128 then
      .ok (some (.placed ⟨orderId, isBuy, price, ticks, note, tokenContract, deadline, flags, false⟩))
    else .error "event body missing or invalid price"
  | .inferenceOrderCancelled orderId _ _ => .ok (some (.cancelled orderId))
  | .inferenceOrderCancelRejected orderId reason note =>
    .ok (some (.cancelRejected orderId reason note))
  | .inferenceFilled makerId takerId ticks _ _ _ _ => .ok (some (.filled makerId takerId ticks))
  | .inferenceOrderExpired orderId isBuy note tokenContract =>
    .ok (some (.expired orderId isBuy note tokenContract))
  | _ => .ok none

def foldEvent (f : BookEventFold) (o : Out) : Except String BookEventFold := do
  match ← decodeBookEvent o with
  | some event => return f.apply event
  | none => return f

def foldEvents (log : List Out) : Except String BookEventFold := log.foldlM foldEvent {}

/-- What leaves the chain; the rest goes to other contracts. -/
def isEvent : Out → Bool
  | .inferenceOrderBookDeployed .. | .inferenceOrderPlaced .. | .inferenceOrderCancelled ..
  | .inferenceOrderCancelRejected .. | .inferenceFilled .. | .inferenceExecuted ..
  | .inferenceRefunded .. | .inferenceOrderRejected .. | .inferenceOrderExpired .. => true
  | _ => false

def events (l : List Sent) : List Out :=
  (l.map fun m => m.body).filter isEvent

/-! ## What a log shows

The view a log should give, kept beside it: orders that were announced and have not ended. `drop`
is the end of an order that only a refund announces, and `dropped` lists those. -/

abbrev View := ℕ → Option LiveBookOrder

def placedTicks (log : List Out) (id : ℕ) : ℕ :=
  (log.map fun
    | .inferenceOrderPlaced orderId _ _ ticks _ _ _ _ => if orderId = id then ticks else 0
    | _ => 0).sum

def filledTicks (log : List Out) (id : ℕ) : ℕ :=
  (log.map fun
    | .inferenceFilled makerId takerId ticks _ _ _ _ =>
      if makerId = id ∨ takerId = id then ticks else 0
    | _ => 0).sum

def fillRow (n : ℕ) (r : LiveBookOrder) : Option LiveBookOrder :=
  if r.isBuy then
    if r.ticksRemaining - n = 0 then none
    else some { r with ticksRemaining := r.ticksRemaining - n }
  else none

def idle : Out → Bool
  | .inferenceOrderBookDeployed .. | .inferenceOrderCancelRejected .. | .inferenceExecuted ..
  | .inferenceOrderRejected .. => true
  | _ => false

def announce (r : LiveBookOrder) : Out :=
  .inferenceOrderPlaced r.orderId r.isBuy r.price r.ticksRemaining r.note r.tokenContract
    r.deadline r.flags

inductive Trace : List Out → View → ℕ → List ℕ → Prop where
  | start (n : ℕ) : Trace [] (fun _ => none) n []
  | idle {l v n d} (o : Out) : Trace l v n d → idle o = true → Trace (l ++ [o]) v n d
  | place {l v n d} (r : LiveBookOrder) : Trace l v n d → r.orderId = n →
      r.expiredByEvent = false → 0 < r.ticksRemaining → (r.isBuy = true → 0 < r.price) →
      Trace (l ++ [announce r]) (Function.update v n (some r)) (n + 1) d
  | fill {l v n d} (m t k c : ℕ) (tc bn sn : Address) (a b : LiveBookOrder) : Trace l v n d →
      v m = some a → v t = some b → m ≠ t → k ≤ a.ticksRemaining → k ≤ b.ticksRemaining →
      Trace (l ++ [Out.inferenceFilled m t k c tc bn sn])
        (Function.update (Function.update v m (fillRow k a)) t (fillRow k b)) n d
  | cancel {l v n d} (id refunded : ℕ) (note : Address) : Trace l v n d → v id ≠ none →
      Trace (l ++ [Out.inferenceOrderCancelled id refunded note]) (Function.update v id none) n d
  | expire {l v n d} (id : ℕ) (paid : List Out) (side : Bool) (note tc : Address) :
      Trace l v n d → v id ≠ none →
      paid = [] ∨ (∃ amount, paid = [Out.inferenceRefunded id note amount]) →
      Trace (l ++ (paid ++ [Out.inferenceOrderExpired id side note tc])) (Function.update v id none)
        n d
  | drop {l v n d} (id : ℕ) (note : Address) (amount : ℕ) : Trace l v n d → v id ≠ none →
      Trace (l ++ [Out.inferenceRefunded id note amount]) (Function.update v id none) n (id :: d)
  | spare {l v n d} (id : ℕ) (note : Address) (amount : ℕ) : Trace l v n d →
      placedTicks l id ≤ filledTicks l id → Trace (l ++ [Out.inferenceRefunded id note amount]) v n d

variable {l : List Out} {v : View} {n : ℕ} {d : List ℕ} {f : BookEventFold}

theorem Trace.fills (h : Trace l v n d) (m t k c cost : ℕ) (tc bn sn : Address)
    {x y : LiveBookOrder} (hm : v m = some x) (ht : v t = some y) (hne : m ≠ t)
    (hx : k ≤ x.ticksRemaining) (hy : k ≤ y.ticksRemaining) :
    Trace (l ++ [Out.inferenceFilled m t k c tc bn sn, Out.inferenceExecuted k c cost])
      (Function.update (Function.update v m (fillRow k x)) t (fillRow k y)) n d := by
  have hfill := h.fill m t k c tc bn sn x y hm ht hne hx hy
  have hidle := hfill.idle (.inferenceExecuted k c cost) rfl
  rwa [List.append_assoc] at hidle

@[simp] theorem placedTicks_append {l' : List Out} {id : ℕ} :
    placedTicks (l ++ l') id = placedTicks l id + placedTicks l' id := by
  simp [placedTicks]

@[simp] theorem filledTicks_append {l' : List Out} {id : ℕ} :
    filledTicks (l ++ l') id = filledTicks l id + filledTicks l' id := by
  simp [filledTicks]

/-- What a trace knows of its view. -/
structure Tallied (l : List Out) (v : View) (n : ℕ) (d : List ℕ) : Prop where
  rows : ∀ id r, v id = some r → r.orderId = id ∧ r.expiredByEvent = false ∧ id < n ∧
    0 < r.ticksRemaining ∧ placedTicks l id = filledTicks l id + r.ticksRemaining
  priced : ∀ id r, v id = some r → r.isBuy = true → 0 < r.price
  fresh : ∀ id, n ≤ id → placedTicks l id = 0 ∧ filledTicks l id = 0
  dropped : ∀ id ∈ d, id < n ∧ v id = none

theorem Tallied.ended {l' : List Out} (h : Tallied l v n d) (id : ℕ)
    (hp : ∀ i, placedTicks l' i = 0) (hf : ∀ i, filledTicks l' i = 0) :
    Tallied (l ++ l') (Function.update v id none) n d := by
  have hold : ∀ i r, Function.update v id none i = some r → v i = some r := by
    intro i r hr
    by_cases hi : i = id
    · rw [hi, Function.update_self] at hr
      cases hr
    · rw [Function.update_of_ne hi] at hr
      exact hr
  refine ⟨?_, fun i r hr => h.priced i r (hold i r hr), ?_, ?_⟩
  · intro i r hr
    simpa [hp, hf] using h.rows i r (hold i r hr)
  · simpa [hp, hf] using h.fresh
  · intro i hi
    obtain ⟨h1, h2⟩ := h.dropped i hi
    refine ⟨h1, ?_⟩
    by_cases hid : i = id
    · rw [hid, Function.update_self]
    · rw [Function.update_of_ne hid, h2]

theorem Trace.tallied (h : Trace l v n d) : Tallied l v n d := by
  induction h with
  | start n => exact ⟨by simp, by simp, by simp [placedTicks, filledTicks], by simp⟩
  | idle o _ ho ih =>
    have hp : ∀ id, placedTicks [o] id = 0 := by
      intro id
      cases o <;> first | rfl | cases ho
    have hf : ∀ id, filledTicks [o] id = 0 := by
      intro id
      cases o <;> first | rfl | cases ho
    exact ⟨by simpa [hp, hf] using ih.rows, ih.priced, by simpa [hp, hf] using ih.fresh, ih.dropped⟩
  | @place l v n d r _ hid hexp hpos hprice ih =>
    subst hid
    have hf : ∀ id, filledTicks [announce r] id = 0 := fun id => rfl
    have hp : ∀ id, placedTicks [announce r] id = if r.orderId = id then r.ticksRemaining else 0 := by
      intro id
      simp [placedTicks, announce]
    refine ⟨?_, ?_, ?_, ?_⟩
    · intro id x hx
      by_cases hid : id = r.orderId
      · subst hid
        rw [Function.update_self] at hx
        cases hx
        obtain ⟨h1, h2⟩ := ih.fresh r.orderId (Nat.le_refl _)
        simp [hexp, hpos, hf, hp, h1, h2]
      · rw [Function.update_of_ne hid] at hx
        obtain ⟨h1, h2, h3, h4, h5⟩ := ih.rows id x hx
        simp only [placedTicks_append, filledTicks_append, hf, hp, if_neg (Ne.symm hid)]
        exact ⟨h1, h2, by omega, h4, by omega⟩
    · intro id x hx
      by_cases hid : id = r.orderId
      · rw [hid, Function.update_self] at hx
        cases hx
        exact hprice
      · rw [Function.update_of_ne hid] at hx
        exact ih.priced id x hx
    · intro id hid
      obtain ⟨h1, h2⟩ := ih.fresh id (by omega)
      have hne : r.orderId ≠ id := by omega
      simp [hf, hp, h1, h2, hne]
    · intro id hid
      obtain ⟨h1, h2⟩ := ih.dropped id hid
      exact ⟨by omega, by rw [Function.update_of_ne (by omega), h2]⟩
  | @fill l v n d m t k c tc bn sn a b _ hm ht hne hka hkb ih =>
    have hp : ∀ id, placedTicks [Out.inferenceFilled m t k c tc bn sn] id = 0 := fun id => rfl
    have hf : ∀ id, filledTicks [Out.inferenceFilled m t k c tc bn sn] id =
        if m = id ∨ t = id then k else 0 := by
      intro id
      simp [filledTicks]
    -- a row that a fill leaves
    have hleft : ∀ id x r, v id = some x → fillRow k x = some r → k ≤ x.ticksRemaining →
        m = id ∨ t = id → (r.isBuy = true → 0 < r.price) ∧ r.orderId = id ∧ r.expiredByEvent = false ∧ id < n ∧
          0 < r.ticksRemaining ∧ placedTicks (l ++ [Out.inferenceFilled m t k c tc bn sn]) id =
            filledTicks (l ++ [Out.inferenceFilled m t k c tc bn sn]) id + r.ticksRemaining := by
      intro id x r hx hr hk hnamed
      obtain ⟨h1, h2, h3, h4, h5⟩ := ih.rows id x hx
      unfold fillRow at hr
      split_ifs at hr with hb hz
      cases hr
      simp only [placedTicks_append, filledTicks_append, hf, hp, if_pos hnamed]
      exact ⟨ih.priced id x hx, h1, h2, h3, by omega, by omega⟩
    have hrow : ∀ id r,
        Function.update (Function.update v m (fillRow k a)) t (fillRow k b) id = some r →
        (r.isBuy = true → 0 < r.price) ∧ r.orderId = id ∧ r.expiredByEvent = false ∧ id < n ∧
          0 < r.ticksRemaining ∧ placedTicks (l ++ [Out.inferenceFilled m t k c tc bn sn]) id =
            filledTicks (l ++ [Out.inferenceFilled m t k c tc bn sn]) id + r.ticksRemaining := by
      intro id r hr
      by_cases hidt : id = t
      · subst hidt
        rw [Function.update_self] at hr
        exact hleft id b r ht hr hkb (Or.inr rfl)
      · rw [Function.update_of_ne hidt] at hr
        by_cases hidm : id = m
        · subst hidm
          rw [Function.update_self] at hr
          exact hleft id a r hm hr hka (Or.inl rfl)
        · rw [Function.update_of_ne hidm] at hr
          have hnot : ¬ (m = id ∨ t = id) := by
            rintro (h | h)
            · exact hidm h.symm
            · exact hidt h.symm
          refine ⟨ih.priced id r hr, ?_⟩
          simpa [hp, hf, hnot] using ih.rows id r hr
    refine ⟨fun id r hr => (hrow id r hr).2, fun id r hr => (hrow id r hr).1, ?_, ?_⟩
    · intro id hid
      obtain ⟨h1, h2⟩ := ih.fresh id hid
      have hm' := (ih.rows m a hm).2.2.1
      have ht' := (ih.rows t b ht).2.2.1
      have hnot : ¬ (m = id ∨ t = id) := by omega
      simp [hp, hf, h1, h2, hnot]
    · intro id hid
      obtain ⟨h1, h2⟩ := ih.dropped id hid
      refine ⟨h1, ?_⟩
      rw [Function.update_of_ne, Function.update_of_ne, h2]
      · rintro rfl
        rw [h2] at hm
        cases hm
      · rintro rfl
        rw [h2] at ht
        cases ht
  | cancel id refunded note _ hid ih => exact ih.ended id (fun _ => rfl) fun _ => rfl
  | expire id paid side note tc _ hid hpaid ih =>
    rcases hpaid with rfl | ⟨amount, rfl⟩
    · exact ih.ended id (fun _ => rfl) fun _ => rfl
    · exact ih.ended id (fun _ => rfl) fun _ => rfl
  | @drop l v n d id note amount _ hid ih =>
    have hend : Tallied (l ++ [Out.inferenceRefunded id note amount]) (Function.update v id none) n d :=
      ih.ended id (fun _ => rfl) fun _ => rfl
    refine ⟨hend.rows, hend.priced, hend.fresh, ?_⟩
    intro i hi
    rcases List.mem_cons.mp hi with rfl | hi
    · obtain ⟨r, hr⟩ := Option.ne_none_iff_exists'.mp hid
      exact ⟨(ih.rows i r hr).2.2.1, Function.update_self ..⟩
    · exact hend.dropped i hi
  | spare id note amount _ hle ih =>
    exact ⟨fun i r hr => by simpa [placedTicks, filledTicks] using ih.rows i r hr, ih.priced,
      fun i hi => by simpa [placedTicks, filledTicks] using ih.fresh i hi, ih.dropped⟩

/-! ## What the fold makes of it -/

def Fits (log : List Out) : Prop :=
  ∀ id isBuy price ticks note tc deadline flags,
    .inferenceOrderPlaced id isBuy price ticks note tc deadline flags ∈ log → price < u128

/-- The fold holds what is in view, what was dropped, and rows marked as expired. -/
structure Holds (f : BookEventFold) (v : View) (d : List ℕ) : Prop where
  inView : ∀ id r, v id = some r → f.orders id = some r
  dropped : ∀ id ∈ d, ∃ r, f.orders id = some r ∧ r.expiredByEvent = false
  gone : ∀ id, v id = none → id ∉ d → ∀ r, f.orders id = some r → r.expiredByEvent = true

theorem foldEvents_snoc (log : List Out) (o : Out) :
    foldEvents (log ++ [o]) = (foldEvents log >>= fun f => foldEvent f o) := by
  unfold foldEvents
  rw [List.foldlM_append]
  simp

theorem Fits.snoc {o : Out} : Fits (l ++ [o]) ↔ Fits l ∧ Fits [o] := by
  constructor
  · intro h
    exact ⟨fun id b p k note tc dl fl hm => h id b p k note tc dl fl (by simp [hm]),
      fun id b p k note tc dl fl hm => h id b p k note tc dl fl (by simp_all)⟩
  · rintro ⟨h1, h2⟩ id b p k note tc dl fl hm
    rcases List.mem_append.mp hm with hm | hm
    · exact h1 id b p k note tc dl fl hm
    · exact h2 id b p k note tc dl fl hm

theorem foldEvents_fits (log : List Out) : (∃ f, foldEvents log = .ok f) ↔ Fits log := by
  induction log using List.reverseRecOn with
  | nil => exact ⟨fun _ => by simp [Fits], fun _ => ⟨{}, rfl⟩⟩
  | append_singleton log o ih =>
    rw [foldEvents_snoc, Fits.snoc, ← ih]
    constructor
    · rintro ⟨f, hf⟩
      cases hl : foldEvents log with
      | error e =>
        rw [hl] at hf
        cases hf
      | ok g =>
        refine ⟨⟨g, rfl⟩, ?_⟩
        intro id b p k note tc dl fl hm
        cases List.mem_singleton.mp hm
        by_contra hp
        rw [hl] at hf
        simp [bind, Except.bind, foldEvent, decodeBookEvent, hp] at hf
    · rintro ⟨⟨g, hg⟩, hfit⟩
      rw [hg]
      cases o with
      | inferenceOrderPlaced id b p k note tc dl fl =>
        have hp := hfit id b p k note tc dl fl (by simp)
        exact ⟨_, by simp only [bind, Except.bind, foldEvent, decodeBookEvent, if_pos hp]; rfl⟩
      | _ => exact ⟨_, rfl⟩

/-- The event of a message, with no question about its price. -/
def eventOf : Out → Option BookEvent
  | .inferenceOrderPlaced orderId isBuy price ticks note tokenContract deadline flags =>
    some (.placed ⟨orderId, isBuy, price, ticks, note, tokenContract, deadline, flags, false⟩)
  | .inferenceOrderCancelled orderId _ _ => some (.cancelled orderId)
  | .inferenceOrderCancelRejected orderId reason note => some (.cancelRejected orderId reason note)
  | .inferenceFilled makerId takerId ticks _ _ _ _ => some (.filled makerId takerId ticks)
  | .inferenceOrderExpired orderId isBuy note tokenContract =>
    some (.expired orderId isBuy note tokenContract)
  | _ => none

def readEvent (f : BookEventFold) (o : Out) : BookEventFold :=
  match eventOf o with
  | some event => f.apply event
  | none => f

def foldAll (log : List Out) : BookEventFold := log.foldl readEvent {}

theorem foldAll_snoc (log : List Out) (o : Out) :
    foldAll (log ++ [o]) = readEvent (foldAll log) o := by
  simp [foldAll]

theorem foldEvent_ok {g : BookEventFold} {o : Out} (h : foldEvent f o = .ok g) :
    g = readEvent f o := by
  cases o with
  | inferenceOrderPlaced =>
    simp only [foldEvent, decodeBookEvent] at h
    split at h
    · cases h
      rfl
    · cases h
  | _ =>
    cases h
    rfl

theorem foldEvents_snoc_ok {o : Out} (h : foldEvents (l ++ [o]) = .ok f) :
    ∃ g, foldEvents l = .ok g ∧ foldEvent g o = .ok f := by
  rw [foldEvents_snoc] at h
  cases hl : foldEvents l with
  | error e =>
    rw [hl] at h
    cases h
  | ok g =>
    rw [hl] at h
    exact ⟨g, rfl, h⟩

theorem foldEvents_ok (h : foldEvents l = .ok f) : f = foldAll l := by
  induction l using List.reverseRecOn generalizing f with
  | nil =>
    cases h
    rfl
  | append_singleton l o ih =>
    obtain ⟨g, hg, hstep⟩ := foldEvents_snoc_ok h
    rw [foldAll_snoc, ← ih hg]
    exact foldEvent_ok hstep

theorem fill_orders (f : BookEventFold) (id k : ℕ) : (f.fill id k).orders =
    Function.update f.orders id ((f.orders id).bind (fillRow k)) := by
  unfold BookEventFold.fill
  cases h : f.orders id with
  | none =>
    have hsame : Function.update f.orders id none = f.orders := by rw [← h, Function.update_eq_self]
    exact hsame.symm
  | some r =>
    cases hb : r.isBuy <;> simp [hb, fillRow]

theorem Holds.ended (h : Holds f v d) {id : ℕ} {g : BookEventFold} {x : Option LiveBookOrder}
    (hid : id ∉ d) (hg : g.orders = Function.update f.orders id x)
    (hx : ∀ r, x = some r → r.expiredByEvent = true) : Holds g (Function.update v id none) d := by
  refine ⟨?_, ?_, ?_⟩
  · intro i r hr
    by_cases hi : i = id
    · rw [hi, Function.update_self] at hr
      cases hr
    · rw [Function.update_of_ne hi] at hr
      rw [hg, Function.update_of_ne hi]
      exact h.inView i r hr
  · intro i hi
    have hne : i ≠ id := by
      rintro rfl
      exact hid hi
    rw [hg, Function.update_of_ne hne]
    exact h.dropped i hi
  · intro i hnone hi r hr
    by_cases hne : i = id
    · rw [hg, hne, Function.update_self] at hr
      exact hx r hr
    · rw [Function.update_of_ne hne] at hnone
      rw [hg, Function.update_of_ne hne] at hr
      exact h.gone i hnone hi r hr

theorem Holds.row (h : Holds f v d) {id : ℕ} {g : BookEventFold} {x : Option LiveBookOrder}
    (hid : id ∉ d) (hg : g.orders = Function.update f.orders id x) :
    Holds g (Function.update v id x) d := by
  refine ⟨?_, ?_, ?_⟩
  · intro i r hr
    by_cases hi : i = id
    · rw [hi, Function.update_self] at hr
      rw [hg, hi, Function.update_self, hr]
    · rw [Function.update_of_ne hi] at hr
      rw [hg, Function.update_of_ne hi]
      exact h.inView i r hr
  · intro i hi
    have hne : i ≠ id := by
      rintro rfl
      exact hid hi
    rw [hg, Function.update_of_ne hne]
    exact h.dropped i hi
  · intro i hnone hi r hr
    by_cases hne : i = id
    · rw [hne, Function.update_self] at hnone
      rw [hg, hne, Function.update_self, hnone] at hr
      cases hr
    · rw [Function.update_of_ne hne] at hnone
      rw [hg, Function.update_of_ne hne] at hr
      exact h.gone i hnone hi r hr

theorem Trace.holds (h : Trace l v n d) : Holds (foldAll l) v d := by
  induction h with
  | start n => exact ⟨by simp, by simp, by simp [foldAll]⟩
  | @idle l v n d o _ ho ih =>
    have hsame : (readEvent (foldAll l) o).orders = (foldAll l).orders := by
      cases o <;> first | rfl | cases ho
    rw [foldAll_snoc]
    exact ⟨by rw [hsame]; exact ih.inView, by rw [hsame]; exact ih.dropped,
      by rw [hsame]; exact ih.gone⟩
  | @place l v n d r htrace hid hexp hpos _ ih =>
    rw [foldAll_snoc]
    subst hid
    have hfresh : r.orderId ∉ d := fun hmem => absurd (htrace.tallied.dropped _ hmem).1 (by omega)
    apply ih.row hfresh
    have hr : r = ⟨r.orderId, r.isBuy, r.price, r.ticksRemaining, r.note, r.tokenContract,
        r.deadline, r.flags, false⟩ := by rw [← hexp]
    exact congrArg (fun x => Function.update (foldAll l).orders r.orderId (some x)) hr.symm
  | @fill l v n d m t k c tc bn sn a b htrace hm ht hne hka hkb hold =>
    rw [foldAll_snoc]
    have hin : ∀ id r, v id = some r → id ∉ d := by
      intro id r hr hmem
      rw [(htrace.tallied.dropped id hmem).2] at hr
      cases hr
    have hmaker : Holds ((foldAll l).fill m k) (Function.update v m (fillRow k a)) d := by
      apply hold.row (hin m a hm)
      rw [fill_orders, hold.inView m a hm]
      rfl
    have htaker : ((foldAll l).fill m k).orders t = some b :=
      hmaker.inView t b (by rw [Function.update_of_ne (Ne.symm hne)]; exact ht)
    apply hmaker.row (hin t b ht)
    calc (((foldAll l).fill m k).fill t k).orders
        = Function.update ((foldAll l).fill m k).orders t
            ((((foldAll l).fill m k).orders t).bind (fillRow k)) := fill_orders _ _ _
      _ = Function.update ((foldAll l).fill m k).orders t (fillRow k b) := by rw [htaker]; rfl
  | @cancel l v n d id refunded note htrace hid ih =>
    have hnot : id ∉ d := fun hmem => hid (htrace.tallied.dropped id hmem).2
    rw [foldAll_snoc]
    exact ih.ended hnot rfl (by simp)
  | @expire l v n d id paid side note tc htrace hid hpaid ih =>
    have hnot : id ∉ d := fun hmem => hid (htrace.tallied.dropped id hmem).2
    have hpre : foldAll (l ++ paid) = foldAll l := by
      rcases hpaid with rfl | ⟨amount, rfl⟩
      · rw [List.append_nil]
      · exact foldAll_snoc _ _
    rw [← List.append_assoc, foldAll_snoc, hpre]
    refine ih.ended hnot rfl ?_
    intro r hr
    obtain ⟨x, -, rfl⟩ := Option.map_eq_some_iff.mp hr
    rfl
  | @drop l v n d id note amount htrace hid hold =>
    rw [foldAll_snoc]
    refine ⟨?_, ?_, ?_⟩
    · intro i r hr
      by_cases hi : i = id
      · rw [hi, Function.update_self] at hr
        cases hr
      · rw [Function.update_of_ne hi] at hr
        exact hold.inView i r hr
    · intro i hi
      rcases List.mem_cons.mp hi with rfl | hi
      · obtain ⟨r, hr⟩ := Option.ne_none_iff_exists'.mp hid
        exact ⟨r, hold.inView i r hr, (htrace.tallied.rows i r hr).2.1⟩
      · exact hold.dropped i hi
    · intro i hnone hi r hr
      rw [List.mem_cons, not_or] at hi
      rw [Function.update_of_ne hi.1] at hnone
      exact hold.gone i hnone hi.2 r hr
  | spare id note amount _ hle ih =>
    rw [foldAll_snoc]
    exact ih

def Shows (f : BookEventFold) (v : View) : Prop :=
  ∀ id r, (f.orders id = some r ∧ r.expiredByEvent = false) ↔ v id = some r

theorem Trace.shows_iff (h : Trace l v n d) (hf : foldEvents l = .ok f) : Shows f v ↔ d = [] := by
  have hold := foldEvents_ok hf ▸ h.holds
  constructor
  · intro hshow
    by_contra hne
    obtain ⟨id, hid⟩ := List.exists_mem_of_ne_nil d hne
    obtain ⟨r, hr⟩ := hold.dropped id hid
    have hv := (hshow id r).mp hr
    rw [(h.tallied.dropped id hid).2] at hv
    cases hv
  · rintro rfl id r
    constructor
    · rintro ⟨hr, hexp⟩
      cases hv : v id with
      | none =>
        rw [hold.gone id hv (by simp) r hr] at hexp
        cases hexp
      | some x =>
        rw [hold.inView id x hv] at hr
        exact hr
    · intro hv
      exact ⟨hold.inView id r hv, (h.tallied.rows id r hv).2.1⟩

def Closes (log : List Out) : Prop :=
  ∀ a b id note amount, log = a ++ .inferenceRefunded id note amount :: b →
    placedTicks a id ≤ filledTicks a id ∨
      ∃ side note tc, .inferenceOrderExpired id side note tc ∈ b

def Open (log : List Out) (id : ℕ) : Prop :=
  ∃ a b note amount, log = a ++ .inferenceRefunded id note amount :: b ∧
    filledTicks a id < placedTicks a id ∧
    ∀ side note tc, .inferenceOrderExpired id side note tc ∉ b

theorem closes_iff_open : Closes l ↔ ∀ id, ¬Open l id := by
  constructor
  · rintro hclose id ⟨a, b, note, amount, e, hopen, hb⟩
    rcases hclose a b id note amount e with hle | ⟨side, note', tc, hmem⟩
    · omega
    · exact hb side note' tc hmem
  · intro hopen a b id note amount e
    by_contra hnot
    rw [not_or] at hnot
    refine hopen id ⟨a, b, note, amount, e, Nat.not_le.mp hnot.1, ?_⟩
    intro side note' tc hmem
    exact hnot.2 ⟨side, note', tc, hmem⟩

theorem Open.append {l' : List Out} {id : ℕ} (h : Open l id)
    (hl : ∀ side note tc, .inferenceOrderExpired id side note tc ∉ l') : Open (l ++ l') id := by
  obtain ⟨a, b, note, amount, rfl, hopen, hb⟩ := h
  refine ⟨a, b ++ l', note, amount, by simp, hopen, ?_⟩
  intro side note' tc hmem
  rcases List.mem_append.mp hmem with hmem | hmem
  · exact hb side note' tc hmem
  · exact hl side note' tc hmem

theorem Open.of_snoc {o : Out} {id : ℕ} (h : Open (l ++ [o]) id)
    (ho : ∀ note amount, o ≠ .inferenceRefunded id note amount) : Open l id := by
  obtain ⟨a, b, note, amount, e, hopen, hb⟩ := h
  rcases List.eq_nil_or_concat b with rfl | ⟨b', x, rfl⟩
  · exact absurd (List.append_inj' e rfl).2 (by simpa using ho note amount)
  · have e' : l ++ [o] = (a ++ .inferenceRefunded id note amount :: b') ++ [x] := by simpa using e
    refine ⟨a, b', note, amount, (List.append_inj' e' rfl).1, hopen, ?_⟩
    intro side note' tc hmem
    exact hb side note' tc (by simp [hmem])

theorem Open.of_refund {id i amount : ℕ} {note : Address}
    (h : Open (l ++ [Out.inferenceRefunded id note amount]) i) :
    Open l i ∨ i = id ∧ filledTicks l id < placedTicks l id := by
  obtain ⟨a, b, note', amount', e, hopen, hb⟩ := h
  rcases List.eq_nil_or_concat b with rfl | ⟨b', x, rfl⟩
  · obtain ⟨rfl, hx⟩ := List.append_inj' e rfl
    cases hx
    exact .inr ⟨rfl, hopen⟩
  · have e' : l ++ [Out.inferenceRefunded id note amount] =
        (a ++ .inferenceRefunded i note' amount' :: b') ++ [x] := by simpa using e
    refine .inl ⟨a, b', note', amount', (List.append_inj' e' rfl).1, hopen, ?_⟩
    intro side n2 tc hmem
    exact hb side n2 tc (by simp [hmem])

theorem Open.expired {id : ℕ} {side : Bool} {note tc : Address} :
    ¬Open (l ++ [Out.inferenceOrderExpired id side note tc]) id := by
  rintro ⟨a, b, note', amount, e, -, hb⟩
  rcases List.eq_nil_or_concat b with rfl | ⟨b', x, rfl⟩
  · cases (List.append_inj' e rfl).2
  · have e' : l ++ [Out.inferenceOrderExpired id side note tc] =
        (a ++ .inferenceRefunded id note' amount :: b') ++ [x] := by simpa using e
    cases (List.append_inj' e' rfl).2
    exact hb side note tc (by simp)

/-- The dropped orders are those that the log leaves open. -/
theorem Trace.open_iff (h : Trace l v n d) : ∀ id, id ∈ d ↔ Open l id := by
  have keeps {l : List Out} {d : List ℕ} {o : Out} (ih : ∀ id, id ∈ d ↔ Open l id)
      (hrefund : ∀ id note amount, o ≠ .inferenceRefunded id note amount)
      (hexpired : ∀ id side note tc, o ≠ .inferenceOrderExpired id side note tc) (id : ℕ) :
      id ∈ d ↔ Open (l ++ [o]) id := by
    constructor
    · intro hid
      apply ((ih id).mp hid).append
      intro side note tc hmem
      exact hexpired id side note tc (List.mem_singleton.mp hmem).symm
    · exact fun hopen => (ih id).mpr (hopen.of_snoc (hrefund id))
  induction h with
  | start n =>
    intro id
    simp [Open]
  | idle o _ ho ih => exact keeps ih (by rintro _ _ _ rfl; cases ho) (by rintro _ _ _ _ rfl; cases ho)
  | place r _ _ _ _ _ ih => exact keeps ih (by simp [announce]) (by simp [announce])
  | fill m t k c tc bn sn a b _ _ _ _ _ _ ih => exact keeps ih (by simp) (by simp)
  | cancel id refunded note _ _ ih => exact keeps ih (by simp) (by simp)
  | @expire l v n d id paid side note tc htrace hid hpaid ih =>
    intro i
    have hid' : id ∉ d := fun hmem => hid (htrace.tallied.dropped id hmem).2
    rw [← List.append_assoc]
    by_cases hi : i = id
    · subst hi
      exact iff_of_false hid' Open.expired
    · have hpre : i ∈ d ↔ Open (l ++ paid) i := by
        rcases hpaid with rfl | ⟨amount, rfl⟩
        · rw [List.append_nil]
          exact ih i
        · constructor
          · exact fun hmem => ((ih i).mp hmem).append (by simp)
          · intro hopen
            rcases hopen.of_refund with hopen | ⟨heq, -⟩
            · exact (ih i).mpr hopen
            · exact absurd heq hi
      rw [hpre]
      constructor
      · exact fun hopen => hopen.append (by simp [hi])
      · exact fun hopen => hopen.of_snoc (by simp)
  | @drop l v n d id note amount htrace hid ih =>
    intro i
    rw [List.mem_cons]
    constructor
    · rintro (rfl | hmem)
      · obtain ⟨r, hr⟩ := Option.ne_none_iff_exists'.mp hid
        obtain ⟨-, -, -, hpos, hticks⟩ := htrace.tallied.rows i r hr
        exact ⟨_, [], note, amount, rfl, by omega, by simp⟩
      · exact ((ih i).mp hmem).append (by simp)
    · intro hopen
      rcases hopen.of_refund with hopen | ⟨heq, -⟩
      · exact .inr ((ih i).mpr hopen)
      · exact .inl heq
  | spare id note amount _ hle ih =>
    intro i
    constructor
    · exact fun hmem => ((ih i).mp hmem).append (by simp)
    · intro hopen
      rcases hopen.of_refund with hopen | ⟨-, hlt⟩
      · exact (ih i).mpr hopen
      · omega

theorem Trace.closes_iff (h : Trace l v n d) : Closes l ↔ d = [] := by
  rw [closes_iff_open, List.eq_nil_iff_forall_not_mem]
  exact forall_congr' fun id => not_congr (h.open_iff id).symm

theorem Trace.folded_iff (h : Trace l v n d) :
    (∃ f, foldEvents l = .ok f ∧ Shows f v) ↔ Fits l ∧ Closes l := by
  rw [← foldEvents_fits, h.closes_iff]
  constructor
  · rintro ⟨f, hf, hshow⟩
    exact ⟨⟨f, hf⟩, (h.shows_iff hf).mp hshow⟩
  · rintro ⟨⟨f, hf⟩, hd⟩
    exact ⟨f, hf, (h.shows_iff hf).mpr hd⟩

end BookEvents
