import Dexdo.InferenceOrderBookPlacements

/-! # Placements and fills as the book announces them

Three kinds of output tell which orders were accepted, which two orders a fill joins and what the
deal of the fill is funded with. -/
namespace InferenceOrderBookFills

open TokenContractState hiding Out Err Sent
open SolidityMapping InferenceOrderBookState InferenceOrderBookCalls
open InferenceOrderBookLists InferenceOrderBookMatching InferenceOrderBookStructure

variable {env : Env} {s t u : Book} {e : QueueEntry} {cur id : ℕ}

structure Placement where
  id : ℕ
  isBuy : Bool
  price : ℕ
  ticks : ℕ
  flags : ℕ
  deriving DecidableEq, Repr

structure Fill where
  maker : ℕ
  taker : ℕ
  ticks : ℕ
  clearing : ℕ
  deal : Address
  buyer : Address
  seller : Address
  deriving DecidableEq, Repr

structure Funding where
  deal : Address
  paid : ℕ
  buyer : Address
  flags : ℕ
  deriving DecidableEq, Repr

def placementOf : Out → Option Placement
  | .inferenceOrderPlaced id isBuy price ticks _ _ _ flags => some ⟨id, isBuy, price, ticks, flags⟩
  | _ => none

def fillOf : Out → Option Fill
  | .inferenceFilled maker taker ticks clearing deal buyer seller =>
    some ⟨maker, taker, ticks, clearing, deal, buyer, seller⟩
  | _ => none

def fundingOf : Out → Option Funding
  | .fundFromOrderBook deal paid buyer _ flags => some ⟨deal, paid, buyer, flags⟩
  | _ => none

def placements (s : Book) : List Placement := s.out.filterMap fun m => placementOf m.body
def fills (s : Book) : List Fill := s.out.filterMap fun m => fillOf m.body
def fundings (s : Book) : List Funding := s.out.filterMap fun m => fundingOf m.body

def Aside (o : Out) : Prop := placementOf o = none ∧ fillOf o = none ∧ fundingOf o = none

def Silent (s t : Book) : Prop := ∃ new, t.out = s.out ++ new ∧ ∀ m ∈ new, Aside m.body

namespace Silent

theorem refl (s : Book) : Silent s s := ⟨[], (List.append_nil _).symm, nofun⟩

theorem trans (h : Silent s t) (h' : Silent t u) : Silent s u := by
  obtain ⟨a, ha, hall⟩ := h
  obtain ⟨b, hb, hall'⟩ := h'
  refine ⟨a ++ b, by rw [hb, ha, List.append_assoc], fun m hm => ?_⟩
  rcases List.mem_append.mp hm with hm | hm
  · exact hall m hm
  · exact hall' m hm

theorem write (h : Silent s t) (ho : u.out = t.out) : Silent s u := by
  obtain ⟨new, hnew, hall⟩ := h
  exact ⟨new, ho.trans hnew, hall⟩

theorem sendFor {o : Out} (h : Silent s t) (tag : ℕ) (ho : Aside o) : Silent s (t.sendFor tag o) := by
  refine h.trans ⟨[⟨tag, o⟩], rfl, fun m hm => ?_⟩
  rw [List.mem_singleton.mp hm]
  exact ho

theorem payShell {dest : Address} {amount tag : ℕ} (h : Silent s t) :
    Silent s (payShell dest amount tag t) := by
  unfold InferenceOrderBookCalls.payShell
  split
  · exact h
  · exact h.sendFor _ ⟨rfl, rfl, rfl⟩

theorem freeDeal {tc : Address} (h : Silent s t) : Silent s (freeDeal tc t) := by
  unfold InferenceOrderBookCalls.freeDeal
  split
  · exact h.sendFor _ ⟨rfl, rfl, rfl⟩
  · exact h

theorem removeFromBook {cause : Removed} {r : ℕ} (h : Silent s t) :
    Silent s (removeFromBook id cause r t) := by
  by_cases hzero : (t.orders.get id).amount = 0
  · unfold InferenceOrderBookCalls.removeFromBook
    dsimp only
    rw [if_pos hzero]
    exact h
  · rw [removeFromBook_eq hzero]
    refine (h.sendFor 0 (o := .onInferenceOrderRemoved (t.orders.get id).note t.modelHash id cause r)
      ⟨rfl, rfl, rfl⟩).write rfl

theorem insertIntoBook {o : Order} (h : Silent s t) : Silent s (insertIntoBook id o t) := by
  rw [insertIntoBook_eq]
  exact (h.sendFor 0 (o := .onInferencePlaced o.note t.modelHash o.tokenContract id o.clientOrderId
    o.isBuy o.price o.amount) ⟨rfl, rfl, rfl⟩).write rfl

theorem placements (h : Silent s t) : placements t = placements s := by
  obtain ⟨new, hnew, hall⟩ := h
  have hnone : new.filterMap (fun m => placementOf m.body) = [] :=
    List.filterMap_eq_nil_iff.mpr fun m hm => (hall m hm).1
  unfold InferenceOrderBookFills.placements
  rw [hnew, List.filterMap_append, hnone, List.append_nil]

theorem fills (h : Silent s t) : fills t = fills s := by
  obtain ⟨new, hnew, hall⟩ := h
  have hnone : new.filterMap (fun m => fillOf m.body) = [] :=
    List.filterMap_eq_nil_iff.mpr fun m hm => (hall m hm).2.1
  unfold InferenceOrderBookFills.fills
  rw [hnew, List.filterMap_append, hnone, List.append_nil]

theorem fundings (h : Silent s t) : fundings t = fundings s := by
  obtain ⟨new, hnew, hall⟩ := h
  have hnone : new.filterMap (fun m => fundingOf m.body) = [] :=
    List.filterMap_eq_nil_iff.mpr fun m hm => (hall m hm).2.2
  unfold InferenceOrderBookFills.fundings
  rw [hnew, List.filterMap_append, hnone, List.append_nil]

end Silent

/-! ## Books that only lose orders -/

structure Thinned (s t : Book) : Prop where
  linked : Linked t
  orders : ∀ i ∈ t.orders.keys, i ∈ s.orders.keys ∧
    (t.orders.get i).toTerms = (s.orders.get i).toTerms
  next : t.nextOrderId = s.nextOrderId
  silent : Silent s t

namespace Thinned

theorem refl (h : Linked s) : Thinned s s := ⟨h, fun _ hi => ⟨hi, rfl⟩, rfl, .refl s⟩

theorem trans (h : Thinned s t) (h' : Thinned t u) : Thinned s u := by
  refine ⟨h'.linked, fun i hi => ?_, h'.next.trans h.next, h.silent.trans h'.silent⟩
  obtain ⟨h1, h2⟩ := h'.orders i hi
  obtain ⟨h3, h4⟩ := h.orders i h1
  exact ⟨h3, h2.trans h4⟩

theorem quiet (h : Thinned s t) (hq : Quiet t u) (hs : Silent t u) : Thinned s u := by
  refine ⟨hq.linked h.linked, fun i hi => ?_, ?_, h.silent.trans hs⟩
  · rw [hq.orders] at hi ⊢
    exact h.orders i hi
  · rw [show u.nextOrderId = t.nextOrderId by rw [hq]]
    exact h.next

theorem sendFor {o : Out} (h : Thinned s t) (tag : ℕ) (ho : Aside o) :
    Thinned s (t.sendFor tag o) :=
  h.quiet sendFor_quiet ((Silent.refl t).sendFor tag ho)

theorem send {o : Out} (h : Thinned s t) (ho : Aside o) : Thinned s (t.send o) := h.sendFor 0 ho

theorem payShell (dest : Address) (amount tag : ℕ) (h : Thinned s t) :
    Thinned s (payShell dest amount tag t) :=
  h.quiet payShell_quiet (Silent.refl t).payShell

theorem freeDeal {tc : Address} (h : Thinned s t) : Thinned s (freeDeal tc t) :=
  h.quiet freeDeal_quiet (Silent.refl t).freeDeal

theorem removal (cause : Removed) (r : ℕ) (h : Linked s) (hid : id ∈ s.orders.keys) :
    Thinned s (removeFromBook id cause r s) := by
  have hrem := removeFromBook_removal cause r h hid
  refine ⟨hrem.linked, fun i hi => ⟨?_, hrem.terms i hi⟩, ?_, (Silent.refl s).removeFromBook⟩
  · rw [hrem.keys] at hi
    exact Finset.mem_of_mem_erase hi
  · rw [hrem.frame]

theorem refundAndRemove (cause : Removed) (h : Linked s) (hid : id ∈ s.orders.keys) :
    Thinned s (refundAndRemove id cause s) := by
  have hrem := removal cause (s.orders.get id).escrow h hid
  unfold InferenceOrderBookCalls.refundAndRemove
  dsimp only
  split
  · exact (hrem.payShell _ _ _).send ⟨rfl, rfl, rfl⟩
  · exact hrem

theorem expired (b : Bool) (h : Linked s) (hid : id ∈ s.orders.keys) :
    Thinned s (if b then removeExpiredSell id s else removeExpiredBid id s) := by
  cases b with
  | true => exact ((removal .expired 0 h hid).freeDeal).send ⟨rfl, rfl, rfl⟩
  | false => exact (refundAndRemove .expired h hid).send ⟨rfl, rfl, rfl⟩

theorem cancelRemove (owner : Address) (h : Linked s) (hid : id ∈ s.orders.keys) :
    Thinned s (cancelRemove owner id s) := by
  have hrem := ((removal .cancelled (s.orders.get id).escrow h hid).send (o :=
    .inferenceOrderCancelled id (s.orders.get id).escrow owner) ⟨rfl, rfl, rfl⟩).payShell
    owner (s.orders.get id).escrow (s.orders.get id).tag
  unfold InferenceOrderBookCalls.cancelRemove
  dsimp only
  split
  · exact hrem
  · exact hrem.freeDeal

theorem doCancel (owner : Address) (id : ℕ) (h : Linked s) : Thinned s (doCancel owner id s) := by
  have hreject : ∀ reason, Thinned s (rejectCancel id reason owner s) := fun reason =>
    ((Thinned.refl h).send ⟨rfl, rfl, rfl⟩).send ⟨rfl, rfl, rfl⟩
  unfold InferenceOrderBookCalls.doCancel
  dsimp only
  split
  · exact hreject _
  split
  · exact hreject _
  · rename_i hfound _
    by_cases hid : id ∈ s.orders.keys
    · exact cancelRemove _ h hid
    · rw [s.orders.absent id hid] at hfound
      exact absurd ⟨rfl, rfl⟩ hfound

theorem cancelAllFrom (owner : Address) : ∀ (left : ℕ) {cur : ℕ} {s : Book}, Linked s →
    (cur ≠ 0 → cur ∈ s.orders.keys ∧ (s.orders.get cur).note = owner) →
    Thinned s (cancelAllFrom owner left cur s).1 := by
  intro left
  induction left with
  | zero =>
    intro cur s h hcur
    exact .refl h
  | succ left ih =>
    intro cur s h hcur
    unfold InferenceOrderBookCalls.cancelAllFrom
    split
    · exact .refl h
    rename_i hne
    obtain ⟨hmem, hnote⟩ := hcur hne
    have hone := cancelRemove_one owner h hmem
    exact (cancelRemove owner h hmem).trans (ih hone.linked (ownerNext h hmem hnote hone))

theorem doExpire (id : ℕ) (h : Linked s) : Thinned s (doExpire id s) := by
  unfold InferenceOrderBookCalls.doExpire
  dsimp only
  split
  · exact .refl h
  rename_i hfound
  split
  · exact .refl h
  have hid : id ∈ s.orders.keys := by
    by_contra hid
    rw [s.orders.absent id hid] at hfound
    exact hfound ⟨rfl, rfl⟩
  split
  · exact expired false h hid
  · exact expired true h hid

theorem dropLapsed (h : Linked s) : Thinned s (dropLapsed e s) := by
  have hfree : Thinned s (if e.isBuy = true then s else InferenceOrderBookCalls.freeDeal
      e.tokenContract s) := by
    split
    · exact .refl h
    · exact (Thinned.refl h).freeDeal
  unfold InferenceOrderBookCalls.dropLapsed rejectToNote
  dsimp only
  refine Thinned.sendFor ?_ _ ⟨rfl, rfl, rfl⟩
  split
  · exact hfree.send ⟨rfl, rfl, rfl⟩
  · exact hfree.send ⟨rfl, rfl, rfl⟩

theorem refusePlacement {reason : PlaceRej} (h : Linked s) :
    Thinned s (refusePlacement reason e s) := by
  have hfree : Thinned s (if e.isBuy = true then s else InferenceOrderBookCalls.freeDeal
      e.tokenContract s) := by
    split
    · exact .refl h
    · exact (Thinned.refl h).freeDeal
  unfold InferenceOrderBookCalls.refusePlacement rejectToNote
  exact (hfree.send ⟨rfl, rfl, rfl⟩).sendFor _ ⟨rfl, rfl, rfl⟩

end Thinned

/-! ## A fill -/

theorem settleFill_books (makerId takerId : ℕ) (bn sn : Address) (pk : ℕ) (tc : Address)
    (n clearing : ℕ) (b : Bool) (f c tag : ℕ) (s : Book) :
    placements (settleFill makerId takerId bn sn pk tc n clearing b f c tag s) = placements s ∧
    fills (settleFill makerId takerId bn sn pk tc n clearing b f c tag s) =
      fills s ++ [⟨makerId, takerId, n, clearing, tc, bn, sn⟩] ∧
    fundings (settleFill makerId takerId bn sn pk tc n clearing b f c tag s) =
      fundings s ++ [⟨tc, fillDebit n clearing f, bn, f⟩] := by
  unfold settleFill placements fills fundings
  refine ⟨?_, ?_, ?_⟩
  · simp [Book.send, Book.sendFor, Book.check, placementOf]
  · simp [Book.send, Book.sendFor, Book.check, fillOf]
  · simp [Book.send, Book.sendFor, Book.check, fundingOf]

end InferenceOrderBookFills
