import Dexdo.InferenceOrderBookAtomic
import Dexdo.InferenceOrderBookMoves

/-! # Placements as they were let in

What the two entries check of a placement holds of its queue entry as long as it waits, and every
transaction that commits runs the head of a book it handed on, or leaves the lists alone. -/
namespace InferenceOrderBookPlacements

open TokenContractState hiding Out Err Sent
open SolidityMapping InferenceOrderBookState InferenceOrderBookCalls InferenceOrderBookStructure
open InferenceOrderBookMatching InferenceOrderBookMoves InferenceOrderBookAtomic

variable {env : Env} {s t u : Book} {e : QueueEntry} {tx : Tx} {Q : QueueEntry → Prop} {j : ℕ}

/-! ## Entries -/

/-- What a placement was checked for. -/
structure PlacedEntry (e : QueueEntry) : Prop where
  ticks : 2 ≤ e.amount
  maker : e.flags &&& flagPostOnly ≠ 0 → e.flags &&& takerFlags = 0
  whole : e.flags &&& flagSubscription ≠ 0 → e.flags &&& flagAon ≠ 0
  weeks : e.isBuy = true → e.flags &&& flagSubscription ≠ 0 → e.amount % subWeeksConst = 0

theorem PlacedEntry.maker_flag {f : ℕ} (h : PlacedEntry e) (hpost : e.flags &&& flagPostOnly ≠ 0)
    (hf : f &&& takerFlags = f) : e.flags &&& f = 0 := by
  calc e.flags &&& f
    _ = e.flags &&& (takerFlags &&& f) := by rw [Nat.and_comm takerFlags f, hf]
    _ = 0 := by rw [← Nat.and_assoc, h.maker hpost, Nat.zero_and]

def Waits (Q : QueueEntry → Prop) (s : Book) : Prop :=
  ∀ j, (s.queue.get j).entryType = .place → Q (s.queue.get j)

theorem runHead_queue (hs : Sound s) : QueueKept s (runHead s) := by
  have hkept : ∀ {u : Book} {b : Bool}, Trimmed s u → QueueKept s (u, b) := fun ht =>
    ⟨ht.queueHead, .inl ht.queue⟩
  unfold runHead
  dsimp only
  split
  · exact hkept (doCancel_trimmed hs.linked)
  · exact hkept (doCancelAll_trimmed _ hs.linked)
  · exact hkept (doExpire_trimmed hs.linked)
  · exact doPlaceHead_queue hs
  · exact doPlaceHead_queue hs

/-- What does not speak of the figures of a match is kept by the run of the head. -/
theorem processHeadCore_waits (hQ : ∀ e id n l c, Q e → Q { e with
      contOrderId := id, contRemaining := n, contLeftover := l, contScanOrder := c })
    (hs : Sound s) (h : Waits Q s) : Waits Q (processHeadCore s) := by
  unfold processHeadCore
  split
  · exact h
  obtain ⟨-, hq⟩ := runHead_queue hs
  have hrun : Waits Q (runHead s).1 := by
    rcases hq with hq | ⟨-, id, n, l, c, -, -, hq⟩
    · unfold Waits
      rw [hq]
      exact h
    · intro j hj
      rw [hq] at hj ⊢
      by_cases hh : j = s.queueHead
      · subst hh
        rw [Mapping.get_set] at hj ⊢
        exact hQ _ _ _ _ _ (h _ hj)
      · rw [Mapping.get_set_ne hh] at hj ⊢
        exact h j hj
  have hdrop : Waits Q (advanceHead (runHead s).1) := by
    intro j hj
    by_cases hh : j = (runHead s).1.queueHead
    · subst hh
      have hnone : ((advanceHead (runHead s).1).queue.get (runHead s).1.queueHead) = default :=
        Function.update_self ..
      rw [hnone] at hj
      cases hj
    · have hget : (advanceHead (runHead s).1).queue.get j = (runHead s).1.queue.get j :=
        Mapping.get_delete_ne hh
      rw [hget] at hj ⊢
      exact hrun j hj
  dsimp only
  generalize runHead s = r at hrun hdrop ⊢
  split_ifs <;> assumption

theorem enqueue_waits (h : Waits Q s) (he : e.entryType = .place → Q e) : Waits Q (enqueue e s) := by
  intro j hj
  by_cases ht : j = s.queueTail
  · subst ht
    have hget : (enqueue e s).queue.get s.queueTail = e := Mapping.get_set
    rw [hget] at hj ⊢
    exact he hj
  · have hget : (enqueue e s).queue.get j = s.queue.get j := Mapping.get_set_ne ht
    rw [hget] at hj ⊢
    exact h j hj

/-! ## Turns -/

theorem exec_turn (h : exec env tx s = .ok t) :
    (∃ u, Turn env s tx u ∧ t = processHeadCore u) ∨ Quiet (enter tx.msg s) t := by
  obtain ⟨hp, -⟩ := exec_perform h
  rcases perform_turn hp with ⟨u, hu⟩ | hq
  · refine .inl ⟨u, hu, ?_⟩
    rw [hu.performs] at hp
    exact (Except.ok.inj hp).symm
  · exact .inr hq

theorem placed_flags {f : ℕ} (hf : f &&& flagPostOnly = 0 ∨ f &&& takerFlags = 0) :
    f &&& flagPostOnly ≠ 0 → f &&& takerFlags = 0 := fun hne => hf.resolve_left hne

/-- The head finds the placements as they were let in. -/
theorem Turn.placed (h : Waits PlacedEntry s) (hu : Turn env s tx u) : Waits PlacedEntry u := by
  have hrequest : ∀ (m : Msg) (e : QueueEntry), e.entryType ≠ .place →
      Waits PlacedEntry (enqueue e (enter m s)) := fun m e hne =>
    enqueue_waits (s := enter m s) h fun hp => absurd hp hne
  cases hu with
  | head m => exact h
  | offer m p n f k i o d _ hgood _ =>
    refine enqueue_waits (s := enter m s) h fun _ => ?_
    unfold badOffer at hgood
    refine ⟨?_, fun hpost => ?_, fun hsub => ?_, by intros; contradiction⟩
    · by_contra hlt
      exact hgood (.inl (not_le.mp hlt))
    · by_contra htaker
      exact hgood (.inr (.inr (.inr (.inr (.inl ⟨hpost, htaker⟩)))))
    · by_contra haon
      exact hgood (.inr (.inr (.inr (.inr (.inr (.inr (.inr (.inl ⟨hsub, haon⟩))))))))
  | bid m c e p n f d k i t hok =>
    simp only [perform, dispatch, placeBuyOrder, require_bind_ok] at hok
    obtain ⟨-, hticks, hpost, -, -, hwhole, hweeks, -⟩ := hok
    exact enqueue_waits (s := { enter m s with bids := s.bids + 1 }) h fun _ =>
      ⟨hticks, placed_flags hpost, hwhole, fun _ => hweeks⟩
  | cancel m id _ => exact hrequest m _ (by simp)
  | cancelAll m _ => exact hrequest m _ (by simp)
  | expire m id _ => exact hrequest m _ (by simp)

theorem reachable_placed (h : Reachable env s) : Waits PlacedEntry s := by
  refine (h.invariant (I := fun s => (Sound s ∧ InferenceOrderBookEscrow.Funded s) ∧
    Waits PlacedEntry s) (fun s h0 => ⟨⟨constructed_sound h0, ?_⟩, ?_⟩) ?_).2
  · exact (InferenceOrderBookEscrow.constructed_funded h0).1
  · obtain ⟨hash, d, n, m, hc⟩ := h0
    simp only [construct, require_bind_ok] at hc
    obtain ⟨-, -, -, hc⟩ := hc
    cases hc
    intro j hplace
    cases hplace
  · rintro s tx t ⟨⟨hs, hf⟩, hw⟩ - he
    have hp := (exec_perform he).1
    refine ⟨⟨perform_sound hs hp, ?_⟩, ?_⟩
    · exact (InferenceOrderBookEscrow.perform_charged hs hf hp).1.funded
    rcases exec_turn he with ⟨u, hu, rfl⟩ | hq
    · exact processHeadCore_waits (fun e id n l c h => { h with }) (hu.kept hs hf).1
        (Turn.placed hw hu)
    · unfold Waits
      rw [show t.queue = s.queue by rw [hq]; rfl]
      exact hw

theorem turn_placed (hs : Reachable env s) (hu : Turn env s tx u)
    (hentry : u.queue.get u.queueHead = e) (hkind : e.entryType = .place) : PlacedEntry e := by
  subst hentry
  exact Turn.placed (reachable_placed hs) hu _ hkind

end InferenceOrderBookPlacements
