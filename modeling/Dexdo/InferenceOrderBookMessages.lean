import Dexdo.InferenceOrderBookCalls

/-! # The fills a book announces to a deal

`_match` masks the flags of the buyer's order before it settles a fill, so whatever the book sends
to a deal carries the deal slice alone. -/
namespace InferenceOrderBookMessages

open TokenContractState hiding Out
open SolidityMapping InferenceOrderBookState InferenceOrderBookCalls

def Masked : Out → Prop
  | .fundFromOrderBook _ _ _ _ dealFlags => dealFlags &&& dealFlagsMask = dealFlags
  | _ => True

def Sends (s t : Book) : Prop := ∃ new, t.out = s.out ++ new ∧ ∀ m ∈ new, Masked m.body

variable {env : Env} {m : Msg} {s t u : Book}

namespace Sends

theorem refl (s : Book) : Sends s s := ⟨[], by simp, by simp⟩

theorem trans (h : Sends s t) (h' : Sends t u) : Sends s u := by
  obtain ⟨l, hl, hm⟩ := h
  obtain ⟨l', hl', hm'⟩ := h'
  refine ⟨l ++ l', by rw [hl', hl, List.append_assoc], fun x hx => ?_⟩
  rcases List.mem_append.mp hx with hx | hx
  · exact hm x hx
  · exact hm' x hx

theorem write (h : Sends s t) (ho : u.out = t.out) : Sends s u := by
  obtain ⟨l, hl, hm⟩ := h
  exact ⟨l, ho.trans hl, hm⟩

theorem sendFor {o : Out} (h : Sends s t) (tag : ℕ) (ho : Masked o) : Sends s (t.sendFor tag o) :=
  h.trans ⟨[⟨tag, o⟩], rfl, by simpa using ho⟩

theorem send {o : Out} (h : Sends s t) (ho : Masked o) : Sends s (t.send o) := h.sendFor 0 ho

theorem check (h : Sends s t) (p : Prop) [Decidable p] : Sends s (t.check p) := h.write rfl

theorem rejectToNote {note : Address} {c r tag : ℕ} {reason : PlaceRej} (h : Sends s t) :
    Sends s (rejectToNote note c reason r tag t) := h.sendFor _ trivial

theorem payShell {dest : Address} {a tag : ℕ} (h : Sends s t) : Sends s (payShell dest a tag t) := by
  unfold InferenceOrderBookCalls.payShell
  split
  · exact h
  · exact h.sendFor _ trivial

theorem freeDeal {tc : Address} (h : Sends s t) : Sends s (freeDeal tc t) := by
  unfold InferenceOrderBookCalls.freeDeal
  split
  · exact h.send trivial
  · exact h

theorem insertIntoBook {id : ℕ} {o : Order} (h : Sends s t) : Sends s (insertIntoBook id o t) := by
  refine send ?_ trivial
  exact h.write rfl

theorem removeFromBook {id r : ℕ} {cause : Removed} (h : Sends s t) :
    Sends s (removeFromBook id cause r t) := by
  unfold InferenceOrderBookCalls.removeFromBook
  dsimp only
  split
  · exact h
  · have hsent := send (o := .onInferenceOrderRemoved (t.orders.get id).note t.modelHash id cause r)
      h trivial
    exact hsent.write rfl

theorem refundAndRemove {id : ℕ} {cause : Removed} (h : Sends s t) :
    Sends s (refundAndRemove id cause t) := by
  unfold InferenceOrderBookCalls.refundAndRemove
  dsimp only
  split
  · exact send (payShell (removeFromBook h)) trivial
  · exact removeFromBook h

theorem removeExpiredBid {id : ℕ} (h : Sends s t) : Sends s (removeExpiredBid id t) :=
  send (refundAndRemove h) trivial

theorem removeExpiredSell {id : ℕ} (h : Sends s t) : Sends s (removeExpiredSell id t) :=
  send (freeDeal (removeFromBook h)) trivial

theorem settleFill {makerId takerId : ℕ} {b o : Address} {k : ℕ} {tc : Address} {n p : ℕ}
    {isBuy : Bool} {f c tag : ℕ} (h : Sends s t) (hf : f &&& dealFlagsMask = f) :
    Sends s (settleFill makerId takerId b o k tc n p isBuy f c tag t) := by
  have hfund := sendFor (o := .fundFromOrderBook tc (fillDebit n p f) b k f) h tag hf
  refine send (send (send (send ?_ trivial) trivial) trivial) trivial
  exact hfund.write rfl

theorem fillMaker {k : Taker} {lp cur n : ℕ} {p : Progress} (h : Sends s p.book) :
    Sends s (fillMaker k lp cur n p).book := by
  have hmask : ∀ f, f &&& dealFlagsMask &&& dealFlagsMask = f &&& dealFlagsMask := by
    intro f
    rw [Nat.and_assoc, Nat.and_self]
  cases hk : k.isBuy with
  | true =>
    unfold InferenceOrderBookCalls.fillMaker
    simp only [hk, if_true]
    generalize hu : InferenceOrderBookCalls.settleFill _ _ _ _ _ _ _ _ _ _ _ _ _ = u
    have hsent : Sends s u := by
      rw [← hu]
      exact settleFill h (hmask _)
    refine removeFromBook ?_
    exact hsent.write rfl
  | false =>
    unfold InferenceOrderBookCalls.fillMaker
    simp only [hk, Bool.false_eq_true, if_false]
    generalize hu : InferenceOrderBookCalls.settleFill _ _ _ _ _ _ _ _ _ _ _ _ _ = u
    have hsent : Sends s u := by
      rw [← hu]
      exact settleFill h (hmask _)
    split
    · refine refundAndRemove ?_
      exact hsent.write rfl
    · exact hsent.write rfl

theorem matchMaker {k : Taker} {lp cur : ℕ} {p : Progress} (h : Sends s p.book) :
    Sends s (matchMaker k lp cur p).1.book := by
  unfold InferenceOrderBookCalls.matchMaker
  dsimp only
  split
  · exact h
  split
  · dsimp only
    split
    · exact removeExpiredSell h
    · exact removeExpiredBid h
  generalize tradeable p.remaining (p.book.orders.get cur).amount _ _ = trade
  split
  · exact h.write rfl
  split
  · split
    · exact h.write rfl
    · refine refundAndRemove ?_
      exact h.write rfl
  · refine fillMaker ?_
    exact h.write rfl

theorem matchOrders (k : Taker) (lp scans cur : ℕ) {p : Progress} (h : Sends s p.book) :
    Sends s (matchOrders k lp scans cur p).2.1.book := by
  induction scans generalizing cur p with
  | zero =>
    unfold InferenceOrderBookCalls.matchOrders
    split <;> exact h
  | succ scans ih =>
    unfold InferenceOrderBookCalls.matchOrders
    split
    · exact h
    dsimp only
    split
    · exact h
    split
    · exact h.matchMaker
    · exact ih _ h.matchMaker

theorem matchLevels {k : Taker} {levels scans start : ℕ} {lp : Option ℕ} {p : Progress}
    (h : Sends s p.book) : Sends s (matchLevels k levels scans lp start p).1.book := by
  induction levels generalizing scans start lp p with
  | zero => exact h
  | succ levels ih =>
    cases lp with
    | none => exact h
    | some lp =>
      unfold InferenceOrderBookCalls.matchLevels
      split
      · exact h
      dsimp only
      have horders := matchOrders k lp scans
        (if start ≠ 0 then start else (p.book.level (!k.isBuy) lp).firstOrderId) h
      split
      · rename_i heq
        rw [heq] at horders
        exact ih horders
      · rename_i heq
        rw [heq] at horders
        exact horders
      · rename_i heq
        rw [heq] at horders
        exact horders

theorem matchTaker (k : Taker) (n e r : ℕ) (h : Sends s t) :
    Sends s (matchTaker k n e r t).1.book := by
  unfold InferenceOrderBookCalls.matchTaker
  dsimp only
  split
  · exact matchLevels h
  · exact matchLevels h

theorem finalizeTaker {id : ℕ} {e : QueueEntry} {r l : ℕ} (h : Sends s t) :
    Sends s (finalizeTaker id e r l t) := by
  unfold InferenceOrderBookCalls.finalizeTaker
  dsimp only
  split
  · split
    · exact rejectToNote (send h trivial)
    · exact insertIntoBook (h.check _)
  split
  · exact insertIntoBook (h.check _)
  split
  · exact send (send h trivial) trivial
  · exact h

theorem dropLapsed {e : QueueEntry} (h : Sends s t) : Sends s (dropLapsed e t) := by
  have hfree : Sends s (if e.isBuy then t else InferenceOrderBookCalls.freeDeal e.tokenContract t) := by
    split
    · exact h
    · exact freeDeal h
  unfold InferenceOrderBookCalls.dropLapsed
  refine rejectToNote ?_
  split
  · exact send hfree trivial
  · exact send hfree trivial

theorem refusePlacement {e : QueueEntry} {reason : PlaceRej} (h : Sends s t) :
    Sends s (refusePlacement reason e t) := by
  unfold InferenceOrderBookCalls.refusePlacement
  refine rejectToNote (send ?_ trivial)
  split
  · exact h
  · exact freeDeal h

theorem runPlace {id n l r : ℕ} {e : QueueEntry} (h : Sends s t) :
    Sends s (runPlace id n l r e t).1 := by
  have hmatch := matchTaker (takerOf id e) n l r h
  unfold InferenceOrderBookCalls.runPlace
  split
  · rename_i heq
    rw [heq] at hmatch
    exact hmatch.write rfl
  · rename_i heq
    rw [heq] at hmatch
    exact finalizeTaker hmatch

theorem doPlaceHead (h : Sends s t) : Sends s (doPlaceHead t).1 := by
  unfold InferenceOrderBookCalls.doPlaceHead
  dsimp only
  split
  · exact dropLapsed h
  split
  · split
    · exact refusePlacement h
    split
    · exact refusePlacement h
    · refine runPlace (send ?_ trivial)
      exact h.write rfl
  · exact runPlace h

theorem cancelRemove {owner : Address} {id : ℕ} (h : Sends s t) :
    Sends s (cancelRemove owner id t) := by
  unfold InferenceOrderBookCalls.cancelRemove
  dsimp only
  split
  · exact payShell (send (removeFromBook h) trivial)
  · exact freeDeal (payShell (send (removeFromBook h) trivial))

theorem doCancel {owner : Address} {id : ℕ} (h : Sends s t) : Sends s (doCancel owner id t) := by
  unfold InferenceOrderBookCalls.doCancel
  dsimp only
  split
  · exact send (send h trivial) trivial
  split
  · exact send (send h trivial) trivial
  · exact cancelRemove h

theorem cancelAllFrom {owner : Address} {left cur : ℕ} (h : Sends s t) :
    Sends s (cancelAllFrom owner left cur t).1 := by
  induction left generalizing cur t with
  | zero => exact h
  | succ left ih =>
    unfold InferenceOrderBookCalls.cancelAllFrom
    split
    · exact h
    · exact ih h.cancelRemove

theorem doExpire {id : ℕ} (h : Sends s t) : Sends s (doExpire id t) := by
  unfold InferenceOrderBookCalls.doExpire
  dsimp only
  split
  · exact h
  split
  · exact h
  split
  · exact removeExpiredBid h
  · exact removeExpiredSell h

theorem runHead (h : Sends s t) : Sends s (runHead t).1 := by
  unfold InferenceOrderBookCalls.runHead
  dsimp only
  split
  · exact doCancel h
  · exact cancelAllFrom h
  · exact doExpire h
  · exact doPlaceHead h
  · exact doPlaceHead h

theorem processHeadCore (h : Sends s t) : Sends s (processHeadCore t) := by
  unfold InferenceOrderBookCalls.processHeadCore
  split
  · exact h
  have hrun := runHead h
  dsimp only
  cases hkeep : (InferenceOrderBookCalls.runHead t).2 with
  | true =>
    simp only [if_true]
    split
    · exact hrun.send trivial
    · exact hrun
  | false =>
    have hgone : Sends s (advanceHead (InferenceOrderBookCalls.runHead t).1) := hrun.write rfl
    simp only [Bool.false_eq_true, if_false]
    split
    · exact hgone.send trivial
    · exact hgone

end Sends

theorem dispatch_sends {c : Call} (hok : dispatch env m s c = .ok t) : Sends s t := by
  have hrefl := Sends.refl s
  have hqueued : ∀ e, Sends s (processHeadCore (enqueue e s)) := by
    intro e
    refine Sends.processHeadCore ?_
    exact hrefl.write rfl
  cases c with
  | placeSellOffer p n f k i o d =>
    simp only [dispatch, placeSellOffer, require_bind_ok] at hok
    obtain ⟨-, hok⟩ := hok
    split at hok
    · cases hok
      exact hrefl.send trivial
    · cases hok
      exact hqueued _
  | placeBuyOrder c e p n f d k h =>
    simp only [dispatch, placeBuyOrder, require_bind_ok, pure_ok, Except.ok.injEq] at hok
    obtain ⟨-, -, -, -, -, -, -, -, -, -, -, -, -, -, rfl⟩ := hok
    refine Sends.processHeadCore ?_
    exact hrefl.write rfl
  | cancelOrder id =>
    simp only [dispatch, Except.ok.injEq] at hok
    subst hok
    unfold cancelOrder
    split
    · exact hrefl.send trivial
    · exact hqueued _
  | cancelAllOrders =>
    simp only [dispatch, Except.ok.injEq] at hok
    subst hok
    unfold cancelAllOrders
    split
    · exact hrefl.send trivial
    · exact hqueued _
  | expireOrder id =>
    simp only [dispatch, expireOrder, require_bind_ok, pure_ok, Except.ok.injEq] at hok
    obtain ⟨-, rfl⟩ := hok
    exact hqueued _
  | processHead =>
    cases hok
    exact hrefl.processHeadCore
  | onHandoverAccepted =>
    cases hok
    exact hrefl.write rfl
  | onBounce paid =>
    cases hok
    unfold onBounce
    dsimp only
    split
    · refine Sends.payShell ?_
      exact hrefl.write rfl
    · exact hrefl.write rfl

theorem reachable_masked (h : Reachable env s) : ∀ m ∈ s.out, Masked m.body := by
  refine TransactionSystem.Reachable.invariant (I := fun s => ∀ m ∈ s.out, Masked m.body) ?_ ?_ h
  · rintro s ⟨h, d, n, m, hc⟩
    simp only [construct, require_bind_ok, pure_ok, Except.ok.injEq] at hc
    obtain ⟨-, -, -, rfl⟩ := hc
    intro x hx
    rw [List.mem_singleton.mp hx]
    trivial
  · intro s tx t ih _ hok
    have hd : dispatch env tx.msg (enter tx.msg s) tx.call = .ok t := by
      unfold exec perform at hok
      split at hok
      · cases hok
      · rename_i u hu
        split at hok
        · cases hok
        · cases hok
          exact hu
    obtain ⟨new, hnew, hmask⟩ := dispatch_sends hd
    intro x hx
    rw [hnew] at hx
    rcases List.mem_append.mp hx with hx | hx
    · exact ih x hx
    · exact hmask x hx

end InferenceOrderBookMessages
