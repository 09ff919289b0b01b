import Dexdo.InferenceOrderBookMoves

/-! # Offers

A SELL is one deal: it waits and rests on the terms it was posted with, and the first fill
consumes it. -/
namespace InferenceOrderBookOffers

open TokenContractState hiding Out Err Sent
open SolidityMapping InferenceOrderBookState InferenceOrderBookCalls InferenceOrderBookStructure
open InferenceOrderBookMoves

variable {env : Env} {m : Msg} {s t : Book} {f g : Flat} {Q : Address → ℕ → ℕ → Prop} {c : Call}

/-- Every offer of the book, resting or waiting, has a deal, a price and ticks that meet `Q`. -/
structure OnTerms (Q : Address → ℕ → ℕ → Prop) (f : Flat) : Prop where
  resting : ∀ id ∈ f.orders.keys, (f.orders.get id).isBuy = false →
    Q (f.orders.get id).tokenContract (f.orders.get id).price (f.orders.get id).amount ∧
      (f.orders.get id).escrow = 0
  queued : ∀ j ∈ f.queue.keys, (f.queue.get j).isBuy = false → (f.queue.get j).rest = 0 ∨
    (f.queue.get j).rest = (f.queue.get j).amount ∧
      Q (f.queue.get j).tokenContract (f.queue.get j).price (f.queue.get j).amount

theorem OnTerms.post (h : OnTerms Q f) (l : List Out) : OnTerms Q (f.post l) := ⟨h.1, h.2⟩

theorem OnTerms.record (h : OnTerms Q f) (tc note : Address) : OnTerms Q (f.record tc note) :=
  ⟨h.1, h.2⟩

theorem OnTerms.drop (h : OnTerms Q f) (id : ℕ) : OnTerms Q (f.drop id) := by
  refine ⟨fun i hi => ?_, h.queued⟩
  obtain ⟨hne, hmem⟩ := Finset.mem_erase.mp hi
  rw [show (f.drop id).orders.get i = f.orders.get i from Mapping.get_delete_ne hne]
  exact h.resting i hmem

theorem OnTerms.pop (h : OnTerms Q f) (j : ℕ) : OnTerms Q (f.pop j) := by
  refine ⟨h.resting, fun i hi => ?_⟩
  obtain ⟨hne, hmem⟩ := Finset.mem_erase.mp hi
  rw [show (f.pop j).queue.get i = f.queue.get i from Mapping.get_delete_ne hne]
  exact h.queued i hmem

theorem OnTerms.put {o : Terms} (h : OnTerms Q f) (id : ℕ)
    (ho : o.isBuy = false → Q o.tokenContract o.price o.amount ∧ o.escrow = 0) :
    OnTerms Q (f.put id o) := by
  refine ⟨fun i hi => ?_, h.queued⟩
  by_cases heq : i = id
  · subst heq
    rw [show (f.put i o).orders.get i = o from Mapping.get_set]
    exact ho
  · rw [show (f.put id o).orders.get i = f.orders.get i from Mapping.get_set_ne heq]
    exact h.resting i ((Finset.mem_insert.mp hi).resolve_left heq)

theorem OnTerms.pledge {e : Pledge} (h : OnTerms Q f) (j : ℕ) (he : e.isBuy = false → e.rest = 0 ∨
    e.rest = e.amount ∧ Q e.tokenContract e.price e.amount) : OnTerms Q (f.pledge j e) := by
  refine ⟨h.resting, fun i hi => ?_⟩
  by_cases heq : i = j
  · subst heq
    rw [show (f.pledge i e).queue.get i = e from Mapping.get_set]
    exact he
  · rw [show (f.pledge j e).queue.get i = f.queue.get i from Mapping.get_set_ne heq]
    exact h.queued i ((Finset.mem_insert.mp hi).resolve_left heq)

theorem OnTerms.move (hmove : Move f g) (h : OnTerms Q f) : OnTerms Q g := by
  cases hmove with
  | refuse a id => exact h.post _
  | endBid id cause _ _ _ => exact (h.drop id).post _
  | endOffer id cause r _ _ _ _ => exact (h.drop id).post _
  | fillOffer j id n number _ _ hb _ _ _ _ _ =>
    refine (((h.record _ _).drop id).pledge j fun hside => ?_).post _
    exact absurd (hb.symm.trans hside) (by decide)
  | fillBid j id n number _ _ _ hb _ _ _ _ =>
    refine (((h.record _ _).put id fun hside => ?_).pledge j fun _ => .inl rfl).post _
    exact absurd (hb.symm.trans hside) (by decide)
  | reject j reason _ _ => exact (h.pop j).post _
  | release j _ _ _ => exact (h.pledge j fun _ => .inl rfl).post _
  | tell j reason _ _ => exact h.post _
  | pop j _ _ _ => exact h.pop j
  | restBid j id ts tag _ _ _ _ =>
    refine ((h.pop j).put id fun hside => ?_).post _
    cases hside
  | restOffer j id ts hj hb hrest _ =>
    refine ((h.pop j).put id fun _ => ?_).post _
    obtain ⟨hall, hq⟩ := (h.queued j hj hb).resolve_left hrest
    refine ⟨?_, rfl⟩
    change Q (f.queue.get j).tokenContract (f.queue.get j).price (f.queue.get j).rest
    rw [hall]
    exact hq

def Posts (Q : Address → ℕ → ℕ → Prop) (m : Msg) : Call → Prop
  | .placeSellOffer p n d _ _ _ t => ¬ badOffer p n d t → Q m.sender p n
  | _ => True

theorem OnTerms.submit (h : OnTerms Q f) (hQ : Posts Q m c) (hs : Submit env m f c g) :
    OnTerms Q g := by
  cases hs with
  | refused _ => exact h.post _
  | offer j _ hgood _ => exact h.pledge j fun _ => .inr ⟨rfl, hQ hgood⟩
  | bid j price _ _ _ _ => exact h.pledge j nofun
  | ignored _ => exact h
  | request j kind owner _ _ => exact h.pledge j fun _ => .inl rfl
  | accepted => exact h.record _ _
  | bounced => exact (h.record _ _).post _

theorem exec_onTerms {tx : Tx} (hs : Regular s) (h : OnTerms Q (flat s))
    (hQ : Posts Q tx.msg tx.call) (he : exec env tx s = .ok t) : OnTerms Q (flat t) := by
  obtain ⟨-, g, hsubmit, hmoves⟩ := exec_moves hs he
  exact hmoves.invariant (fun _ _ hmove h => h.move hmove) (h.submit hQ hsubmit)

theorem constructed_onTerms (h : Constructed env s) : OnTerms Q (flat s) := by
  obtain ⟨hash, d, n, m, hc⟩ := h
  simp only [construct, require_bind_ok] at hc
  obtain ⟨-, -, -, hc⟩ := hc
  cases hc
  exact ⟨fun id hid => absurd hid (Finset.notMem_empty id),
    fun j hj => absurd hj (Finset.notMem_empty j)⟩

theorem reachable_onTerms (hQ : ∀ m c, Posts Q m c) (h : Reachable env s) : OnTerms Q (flat s) := by
  refine (TransactionSystem.Reachable.invariant
    (I := fun s => Regular s ∧ OnTerms Q (flat s)) ?_ ?_ h).2
  · intro s hc
    exact ⟨constructed_regular hc, constructed_onTerms hc⟩
  · rintro s tx t ⟨hs, hterms⟩ - he
    exact ⟨(exec_moves hs he).1, exec_onTerms hs hterms (hQ _ _) he⟩

theorem reachable_wide (h : Reachable env s) : ∀ id ∈ s.orders.keys,
    (s.orders.get id).isBuy = false → 2 ≤ (s.orders.get id).amount := by
  have hterms := reachable_onTerms (Q := fun _ _ n => 2 ≤ n) (fun m c => by
    cases c with
    | placeSellOffer p n d k i o t => exact fun hgood => not_lt.mp fun hlt => hgood (.inl hlt)
    | _ => trivial) h
  exact fun id hid hside => (hterms.resting id hid hside).1

theorem reachable_bounded (h : Reachable env s) : ∀ id ∈ s.orders.keys,
    (s.orders.get id).isBuy = false →
      (s.orders.get id).amount * unit (s.orders.get id).price < u128 := by
  have hterms := reachable_onTerms (Q := fun _ p n => n * unit p < u128) (fun m c => by
    cases c with
    | placeSellOffer p n d k i o t =>
      refine fun hgood => not_le.mp fun hle => hgood ?_
      exact .inr (.inr (.inr (.inr (.inr (.inr (.inr (.inr (.inl hle))))))))
    | _ => trivial) h
  exact fun id hid hside => (hterms.resting id hid hside).1

end InferenceOrderBookOffers
