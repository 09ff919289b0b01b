import Dexdo.InferenceOrderBookCalls
import Dexdo.IntrusiveList

/-! # The two lists an order stands in

Insertion at the tail and removal from anywhere keep both families of linked lists, the price
levels and the order count in step. -/
namespace InferenceOrderBookLists

open TokenContractState SolidityMapping IntrusiveList InferenceOrderBookState
open InferenceOrderBookCalls

variable {s t u : Book} {o : Order} {id j : ℕ}

/-- Resting orders of one side and price, by time. -/
def PriceLists (s : Book) : Prop :=
  Family (fun id => (s.orders.get id).nextAtPrice) (fun id => (s.orders.get id).prevAtPrice)
    s.orders.keys (fun id => ((s.orders.get id).isBuy, (s.orders.get id).price))
    (fun k : Bool × ℕ => (s.level k.1 k.2).firstOrderId)
    (fun k : Bool × ℕ => (s.level k.1 k.2).lastOrderId)

def OwnerLists (s : Book) : Prop :=
  Family (fun id => (s.orders.get id).nextInOwner) (fun id => (s.orders.get id).prevInOwner)
    s.orders.keys (fun id => (s.orders.get id).note) s.ownerHead s.ownerTail

structure Linked (s : Book) : Prop where
  prices : PriceLists s
  owners : OwnerLists s
  level_iff : ∀ b p, p ∈ (s.levels b).keys ↔ (s.level b p).firstOrderId ≠ 0
  count : s.orderCount = s.orders.keys.card
  live : ∀ id ∈ s.orders.keys, (s.orders.get id).amount ≠ 0

theorem Linked.mem_of_amount (h : (s.orders.get id).amount ≠ 0) : id ∈ s.orders.keys := by
  by_contra hnot
  rw [s.orders.absent id hnot] at h
  exact h rfl

/-! ## Reading after a write -/

section Amend

variable {m : Mapping Order} {i : ℕ} {f : Order → Order}

theorem amend_get : (amend i f m).get j = if i ≠ 0 ∧ j = i then f (m.get j) else m.get j := by
  unfold amend
  by_cases hi : i = 0
  · simp [hi]
  · by_cases hj : j = i
    · subst hj
      simp [hi]
    · simp [hi, hj, Mapping.get_modify_ne hj]

theorem amend_keys (h : i ≠ 0 → i ∈ m.keys) : (amend i f m).keys = m.keys := by
  unfold amend
  by_cases hi : i = 0
  · rw [if_pos hi]
  · rw [if_neg hi]
    exact Mapping.keys_modify (h hi)

end Amend

/-! ## Removal -/

/-- The order storage of `removeFromBook` before the order itself is deleted. -/
def bridged (o : Order) (m : Mapping Order) : Mapping Order :=
  amend o.nextInOwner (fun p => { p with prevInOwner := o.prevInOwner })
    (amend o.prevInOwner (fun p => { p with nextInOwner := o.nextInOwner })
      (amend o.nextAtPrice (fun p => { p with prevAtPrice := o.prevAtPrice })
        (amend o.prevAtPrice (fun p => { p with nextAtPrice := o.nextAtPrice }) m)))

theorem removeFromBook_eq {cause : Removed} {r : ℕ} (h : (s.orders.get id).amount ≠ 0) :
    removeFromBook id cause r s = { s with
      orders := (bridged (s.orders.get id) s.orders).delete id
      levels := (unlinkAtPrice (s.orders.get id) s).levels
      ownerHead := (unlinkInOwner (s.orders.get id) s).ownerHead
      ownerTail := (unlinkInOwner (s.orders.get id) s).ownerTail
      orderCount := s.orderCount - 1
      fault := s.fault || !decide (1 ≤ s.orderCount)
      out := s.out ++ [⟨0, .onInferenceOrderRemoved (s.orders.get id).note s.modelHash id
        cause r⟩] } := by
  unfold removeFromBook
  rw [if_neg h]
  rfl

variable {m : Mapping Order}

theorem bridged_get : (bridged o m).get j = { m.get j with
    nextAtPrice := if o.prevAtPrice ≠ 0 ∧ j = o.prevAtPrice then o.nextAtPrice
      else (m.get j).nextAtPrice
    prevAtPrice := if o.nextAtPrice ≠ 0 ∧ j = o.nextAtPrice then o.prevAtPrice
      else (m.get j).prevAtPrice
    nextInOwner := if o.prevInOwner ≠ 0 ∧ j = o.prevInOwner then o.nextInOwner
      else (m.get j).nextInOwner
    prevInOwner := if o.nextInOwner ≠ 0 ∧ j = o.nextInOwner then o.prevInOwner
      else (m.get j).prevInOwner } := by
  unfold bridged
  simp only [amend_get]
  split_ifs <;> rfl

theorem bridged_keys (h1 : o.prevAtPrice ≠ 0 → o.prevAtPrice ∈ m.keys)
    (h2 : o.nextAtPrice ≠ 0 → o.nextAtPrice ∈ m.keys)
    (h3 : o.prevInOwner ≠ 0 → o.prevInOwner ∈ m.keys)
    (h4 : o.nextInOwner ≠ 0 → o.nextInOwner ∈ m.keys) : (bridged o m).keys = m.keys := by
  unfold bridged
  have e1 := amend_keys (f := fun p => { p with nextAtPrice := o.nextAtPrice }) h1
  have e2 := amend_keys (f := fun p => { p with prevAtPrice := o.prevAtPrice })
    (fun h => by rw [e1]; exact h2 h)
  have e3 := amend_keys (f := fun p => { p with nextInOwner := o.nextInOwner })
    (fun h => by rw [e2, e1]; exact h3 h)
  rw [amend_keys (fun h => by rw [e3, e2, e1]; exact h4 h), e3, e2, e1]

theorem unlinkAtPrice_level (c : Bool) (q : ℕ) :
    (unlinkAtPrice o s).level c q = if (c, q) = (o.isBuy, o.price) then
      if (levelAfter o s).firstOrderId = 0 then {} else levelAfter o s else s.level c q := by
  unfold unlinkAtPrice Book.level
  dsimp only
  by_cases hc : c = o.isBuy
  · subst hc
    rw [Function.update_self]
    by_cases hq : q = o.price
    · subst hq
      rw [if_pos rfl]
      split
      · exact Mapping.absent _ _ (by simp)
      · exact Mapping.get_set
    · have hk : (o.isBuy, q) ≠ (o.isBuy, o.price) := by simp [hq]
      rw [if_neg hk]
      split
      · exact Mapping.get_delete_ne hq
      · exact Mapping.get_set_ne hq
  · have hk : (c, q) ≠ (o.isBuy, o.price) := by simp [hc]
    rw [Function.update_of_ne hc, if_neg hk]

theorem unlinkAtPrice_levelKeys (c : Bool) (q : ℕ) :
    q ∈ ((unlinkAtPrice o s).levels c).keys ↔ if (c, q) = (o.isBuy, o.price) then
      (levelAfter o s).firstOrderId ≠ 0 else q ∈ (s.levels c).keys := by
  unfold unlinkAtPrice
  dsimp only
  by_cases hc : c = o.isBuy
  · subst hc
    rw [Function.update_self]
    by_cases hq : q = o.price
    · subst hq
      rw [if_pos rfl]
      split <;> simp_all
    · have hk : (o.isBuy, q) ≠ (o.isBuy, o.price) := by simp [hq]
      rw [if_neg hk]
      split <;> simp [hq]
  · have hk : (c, q) ≠ (o.isBuy, o.price) := by simp [hc]
    rw [Function.update_of_ne hc, if_neg hk]

/-- An order gone from the book: the others keep their terms, the lists and counters close up. -/
structure Removal (id : ℕ) (s t : Book) : Prop where
  linked : Linked t
  keys : t.orders.keys = s.orders.keys.erase id
  terms : ∀ j ∈ t.orders.keys, (t.orders.get j).toTerms = (s.orders.get j).toTerms
  levels : ∀ b, (t.levels b).keys ⊆ (s.levels b).keys
  frame : t = { s with
    orders := t.orders, orderCount := t.orderCount, levels := t.levels, ownerHead := t.ownerHead
    ownerTail := t.ownerTail, fault := t.fault, out := t.out }

theorem link_guard {y i a b : ℕ} (hy : y ≠ 0) :
    (if i ≠ 0 ∧ y = i then a else b) = if y = i then a else b := by
  by_cases hyi : y = i
  · subst hyi
    simp [hy]
  · simp [hyi]

/-- The ends of the levels once `id` is taken out of its own. -/
theorem unlinkAtPrice_ends (h : Linked s) (hid : id ∈ s.orders.keys) (k : Bool × ℕ) :
    ((unlinkAtPrice (s.orders.get id) s).level k.1 k.2).firstOrderId =
      (if k = ((s.orders.get id).isBuy, (s.orders.get id).price) ∧
        (s.orders.get id).prevAtPrice = 0 then (s.orders.get id).nextAtPrice
      else (s.level k.1 k.2).firstOrderId) ∧
    ((unlinkAtPrice (s.orders.get id) s).level k.1 k.2).lastOrderId =
      (if k = ((s.orders.get id).isBuy, (s.orders.get id).price) ∧
        (s.orders.get id).nextAtPrice = 0 then (s.orders.get id).prevAtPrice
      else (s.level k.1 k.2).lastOrderId) := by
  obtain ⟨c, q⟩ := k
  have hne : (s.level (s.orders.get id).isBuy (s.orders.get id).price).firstOrderId ≠ 0 :=
    h.prices.first_ne_zero hid
  dsimp only
  rw [unlinkAtPrice_level]
  generalize s.orders.get id = o at hne ⊢
  by_cases hk : (c, q) = (o.isBuy, o.price)
  · obtain ⟨rfl, rfl⟩ := Prod.mk.inj hk
    by_cases hp : o.prevAtPrice = 0
    · by_cases hn : o.nextAtPrice = 0
      · simp [levelAfter, hp, hn]
      · simp [levelAfter, hp, hn]
    · by_cases hn : o.nextAtPrice = 0
      · simp [levelAfter, hp, hn, hne]
      · simp [levelAfter, hp, hn, hne]
  · simp [hk]

theorem removeFromBook_removal (cause : Removed) (r : ℕ) (h : Linked s)
    (hid : id ∈ s.orders.keys) : Removal id s (removeFromBook id cause r s) := by
  have hzero : ∀ y ∈ s.orders.keys, y ≠ 0 := fun y hy => h.prices.ne_zero hy
  have hkeys : ((bridged (s.orders.get id) s.orders).delete id).keys = s.orders.keys.erase id := by
    rw [Mapping.keys_delete, bridged_keys (fun hp => (h.prices.prev_mem hid hp).1)
      (fun hn => (h.prices.next_mem hid hn).1) (fun hp => (h.owners.prev_mem hid hp).1)
      (fun hn => (h.owners.next_mem hid hn).1)]
  have hget : ∀ y, y ≠ id → ((bridged (s.orders.get id) s.orders).delete id).get y =
      (bridged (s.orders.get id) s.orders).get y := fun y hy => Mapping.get_delete_ne hy
  have hterms : ∀ y, y ≠ id →
      (((bridged (s.orders.get id) s.orders).delete id).get y).toTerms =
        (s.orders.get y).toTerms := by
    intro y hy
    rw [hget y hy, bridged_get]
  have hends := unlinkAtPrice_ends h hid
  have hlevelKeys := unlinkAtPrice_levelKeys (o := s.orders.get id) (s := s)
  rw [removeFromBook_eq (h.live id hid)]
  refine ⟨⟨?_, ?_, ?_, ?_, ?_⟩, hkeys, ?_, ?_, rfl⟩
  · unfold PriceLists
    rw [hkeys]
    refine h.prices.remove hid (fun y hy hne => ?_) (fun y hy hne => ?_) (fun k => (hends k).1)
      (fun k => (hends k).2)
    · rw [hget y hne, bridged_get]
    · rw [hget y hne, bridged_get]
      exact ⟨link_guard (hzero y hy), link_guard (hzero y hy)⟩
  · unfold OwnerLists
    rw [hkeys]
    refine h.owners.remove hid (fun y hy hne => ?_) (fun y hy hne => ?_) (fun k => ?_)
      (fun k => ?_)
    · rw [hget y hne, bridged_get]
    · rw [hget y hne, bridged_get]
      exact ⟨link_guard (hzero y hy), link_guard (hzero y hy)⟩
    · simp only [unlinkInOwner]
      by_cases hp : (s.orders.get id).prevInOwner = 0
      · by_cases hk : k = (s.orders.get id).note
        · simp [hp, hk]
        · simp [hp, hk]
      · simp [hp]
    · simp only [unlinkInOwner]
      by_cases hn : (s.orders.get id).nextInOwner = 0
      · by_cases hk : k = (s.orders.get id).note
        · simp [hn, hk]
        · simp [hn, hk]
      · simp [hn]
  · intro b p
    have hfirst := (hends (b, p)).1
    change p ∈ ((unlinkAtPrice (s.orders.get id) s).levels b).keys ↔
      ((unlinkAtPrice (s.orders.get id) s).level b p).firstOrderId ≠ 0
    rw [hlevelKeys, unlinkAtPrice_level]
    by_cases hk : (b, p) = ((s.orders.get id).isBuy, (s.orders.get id).price)
    · rw [if_pos hk, if_pos hk]
      split <;> simp_all
    · rw [if_neg hk, if_neg hk]
      exact h.level_iff b p
  · change s.orderCount - 1 = ((bridged (s.orders.get id) s.orders).delete id).keys.card
    rw [hkeys, Finset.card_erase_of_mem hid, h.count]
  · intro y hy
    rw [hkeys] at hy
    obtain ⟨hne, hy⟩ := Finset.mem_erase.mp hy
    have hamount := congrArg Terms.amount (hterms y hne)
    rw [hamount]
    exact h.live y hy
  · intro y hy
    rw [hkeys] at hy
    exact hterms y (Finset.mem_erase.mp hy).1
  · intro b p hp
    have hp' : p ∈ ((unlinkAtPrice (s.orders.get id) s).levels b).keys := hp
    rw [hlevelKeys] at hp'
    by_cases hk : (b, p) = ((s.orders.get id).isBuy, (s.orders.get id).price)
    · obtain ⟨rfl, rfl⟩ := Prod.mk.inj hk
      rw [h.level_iff]
      exact h.prices.first_ne_zero hid
    · rw [if_neg hk] at hp'
      exact hp'

/-! ## Insertion -/

def atTails (o : Order) (s : Book) : Order :=
  { o with
    nextAtPrice := 0, prevAtPrice := (s.level o.isBuy o.price).lastOrderId
    nextInOwner := 0, prevInOwner := s.ownerTail o.note }

/-- The order storage with the new order and the links of the two tails. -/
def hooked (id : ℕ) (o : Order) (s : Book) : Mapping Order :=
  amend (s.ownerTail o.note) (fun p => { p with nextInOwner := id })
    (amend (s.level o.isBuy o.price).lastOrderId (fun p => { p with nextAtPrice := id })
      (s.orders.set id (atTails o s)))

theorem insertIntoBook_eq : insertIntoBook id o s = { s with
    orders := hooked id o s
    levels := (linkAtPrice id o s).levels
    ownerHead := (linkInOwner id o s).ownerHead
    ownerTail := (linkInOwner id o s).ownerTail
    orderCount := s.orderCount + 1
    fault := s.fault || !decide (s.orderCount + 1 < u128)
    out := s.out ++ [⟨0, .onInferencePlaced o.note s.modelHash o.tokenContract id
      o.clientOrderId o.isBuy o.price o.amount⟩] } := rfl

theorem hooked_get_new (hp : (s.level o.isBuy o.price).lastOrderId ≠ id)
    (ho : s.ownerTail o.note ≠ id) : (hooked id o s).get id = atTails o s := by
  unfold hooked
  rw [amend_get, if_neg (fun h => ho h.2.symm), amend_get, if_neg (fun h => hp h.2.symm),
    Mapping.get_set]

theorem hooked_get (hj : j ≠ id) : (hooked id o s).get j = { s.orders.get j with
    nextAtPrice := if (s.level o.isBuy o.price).lastOrderId ≠ 0 ∧
      j = (s.level o.isBuy o.price).lastOrderId then id else (s.orders.get j).nextAtPrice
    nextInOwner := if s.ownerTail o.note ≠ 0 ∧ j = s.ownerTail o.note then id
      else (s.orders.get j).nextInOwner } := by
  unfold hooked
  simp only [amend_get, Mapping.get_set_ne hj]
  split_ifs <;> rfl

theorem hooked_keys (hp : (s.level o.isBuy o.price).lastOrderId ≠ 0 →
      (s.level o.isBuy o.price).lastOrderId ∈ s.orders.keys)
    (ho : s.ownerTail o.note ≠ 0 → s.ownerTail o.note ∈ s.orders.keys) :
    (hooked id o s).keys = insert id s.orders.keys := by
  unfold hooked
  have hset : (s.orders.set id (atTails o s)).keys = insert id s.orders.keys := rfl
  have e1 := amend_keys (m := s.orders.set id (atTails o s))
    (i := (s.level o.isBuy o.price).lastOrderId) (f := fun p => { p with nextAtPrice := id })
    (fun h => by rw [hset]; exact Finset.mem_insert_of_mem (hp h))
  rw [amend_keys (fun h => by rw [e1, hset]; exact Finset.mem_insert_of_mem (ho h)), e1, hset]

theorem linkAtPrice_level (id : ℕ) (o : Order) (s : Book) (c : Bool) (q : ℕ) :
    (linkAtPrice id o s).level c q = if (c, q) = (o.isBuy, o.price) then
      if (s.level o.isBuy o.price).lastOrderId = 0 then ⟨id, id⟩
      else { s.level o.isBuy o.price with lastOrderId := id } else s.level c q := by
  unfold linkAtPrice Book.level
  dsimp only
  by_cases hc : c = o.isBuy
  · subst hc
    rw [Function.update_self]
    by_cases hq : q = o.price
    · subst hq
      rw [if_pos rfl]
      exact Mapping.get_set
    · have hk : (o.isBuy, q) ≠ (o.isBuy, o.price) := by simp [hq]
      rw [if_neg hk]
      exact Mapping.get_set_ne hq
  · have hk : (c, q) ≠ (o.isBuy, o.price) := by simp [hc]
    rw [Function.update_of_ne hc, if_neg hk]

theorem linkAtPrice_levelKeys (c : Bool) (q : ℕ) :
    q ∈ ((linkAtPrice id o s).levels c).keys ↔
      (c, q) = (o.isBuy, o.price) ∨ q ∈ (s.levels c).keys := by
  unfold linkAtPrice
  dsimp only
  by_cases hc : c = o.isBuy
  · subst hc
    simp
  · simp [hc]

/-- An order new in the book: the others keep their terms. -/
structure Insertion (id : ℕ) (o : Order) (s t : Book) : Prop where
  linked : Linked t
  keys : t.orders.keys = insert id s.orders.keys
  added : (t.orders.get id).toTerms = o.toTerms
  terms : ∀ j ∈ s.orders.keys, (t.orders.get j).toTerms = (s.orders.get j).toTerms
  frame : t = { s with
    orders := t.orders, orderCount := t.orderCount, levels := t.levels, ownerHead := t.ownerHead
    ownerTail := t.ownerTail, fault := t.fault, out := t.out }

theorem insertIntoBook_insertion (h : Linked s) (hid : id ≠ 0)
    (hmax : ∀ j ∈ s.orders.keys, j < id) (hamount : o.amount ≠ 0) :
    Insertion id o s (insertIntoBook id o s) := by
  have hzero : ∀ y ∈ s.orders.keys, y ≠ 0 := fun y hy => h.prices.ne_zero hy
  have hne : ∀ y ∈ s.orders.keys, y ≠ id := fun y hy => (hmax y hy).ne
  have hlast : (s.level o.isBuy o.price).lastOrderId ≠ 0 →
      (s.level o.isBuy o.price).lastOrderId ∈ s.orders.keys :=
    fun hl => (h.prices.last_mem (k := (o.isBuy, o.price)) hl).1
  have htail : s.ownerTail o.note ≠ 0 → s.ownerTail o.note ∈ s.orders.keys :=
    fun hl => (h.owners.last_mem hl).1
  have hnew : (hooked id o s).get id = atTails o s := by
    apply hooked_get_new
    · intro heq
      exact hne _ (hlast (by rw [heq]; exact hid)) heq
    · intro heq
      exact hne _ (htail (by rw [heq]; exact hid)) heq
  have hkeys : (hooked id o s).keys = insert id s.orders.keys := hooked_keys hlast htail
  have hfirst : (s.level o.isBuy o.price).firstOrderId = 0 ↔
      (s.level o.isBuy o.price).lastOrderId = 0 := h.prices.first_eq_zero (o.isBuy, o.price)
  have hlevel := linkAtPrice_level id o s
  rw [insertIntoBook_eq]
  refine ⟨⟨?_, ?_, ?_, ?_, ?_⟩, hkeys, ?_, ?_, rfl⟩
  · unfold PriceLists
    rw [hkeys]
    refine h.prices.insert (c := (o.isBuy, o.price)) hid hmax ?_ (fun y hy => ?_) ?_ ?_
      (fun y hy => ?_) (fun k => ?_) (fun k => ?_)
    · rw [hnew]
      rfl
    · rw [hooked_get (hne y hy)]
    · rw [hnew]
      rfl
    · rw [hnew]
      rfl
    · rw [hooked_get (hne y hy)]
      exact ⟨link_guard (hzero y hy), rfl⟩
    · obtain ⟨c, q⟩ := k
      change ((linkAtPrice id o s).level c q).firstOrderId = _
      rw [hlevel]
      by_cases hk : (c, q) = (o.isBuy, o.price)
      · obtain ⟨rfl, rfl⟩ := Prod.mk.inj hk
        rw [if_pos rfl]
        split
        · simp_all
        · simp_all
      · simp [hk]
    · obtain ⟨c, q⟩ := k
      change ((linkAtPrice id o s).level c q).lastOrderId = _
      rw [hlevel]
      by_cases hk : (c, q) = (o.isBuy, o.price)
      · rw [if_pos hk, if_pos hk]
        split <;> rfl
      · simp [hk]
  · unfold OwnerLists
    rw [hkeys]
    refine h.owners.insert (c := o.note) hid hmax ?_ (fun y hy => ?_) ?_ ?_
      (fun y hy => ?_) (fun k => ?_) (fun k => ?_)
    · rw [hnew]
      rfl
    · rw [hooked_get (hne y hy)]
    · rw [hnew]
      rfl
    · rw [hnew]
      rfl
    · rw [hooked_get (hne y hy)]
      exact ⟨link_guard (hzero y hy), rfl⟩
    · simp only [linkInOwner]
      by_cases ht : s.ownerTail o.note = 0
      · by_cases hk : k = o.note
        · simp [ht, hk]
        · simp [ht, hk]
      · simp [ht]
    · simp only [linkInOwner]
      by_cases hk : k = o.note
      · simp [hk]
      · simp [hk]
  · intro b p
    change p ∈ ((linkAtPrice id o s).levels b).keys ↔
      ((linkAtPrice id o s).level b p).firstOrderId ≠ 0
    rw [linkAtPrice_levelKeys, hlevel]
    by_cases hk : (b, p) = (o.isBuy, o.price)
    · rw [if_pos hk]
      simp only [hk, true_or, true_iff]
      split
      · exact hid
      · rename_i hl
        exact fun hf => hl (hfirst.mp hf)
    · simp only [hk, if_false, false_or]
      exact h.level_iff b p
  · change s.orderCount + 1 = (hooked id o s).keys.card
    rw [hkeys, Finset.card_insert_of_notMem (fun hm => hne id hm rfl), h.count]
  · intro y hy
    have hy' : y ∈ (hooked id o s).keys := hy
    rw [hkeys] at hy'
    change ((hooked id o s).get y).amount ≠ 0
    rcases Finset.mem_insert.mp hy' with rfl | hy'
    · rw [hnew]
      exact hamount
    · rw [hooked_get (hne y hy')]
      exact h.live y hy'
  · change ((hooked id o s).get id).toTerms = _
    rw [hnew]
    rfl
  · intro y hy
    change ((hooked id o s).get y).toTerms = _
    rw [hooked_get (hne y hy)]

/-! ## Edits in place -/

/-- A write that leaves an order where it stands, whose it is and on which terms. -/
structure InPlace (f : Order → Order) : Prop where
  links : ∀ o, (f o).toLinks = o.toLinks
  note : ∀ o, (f o).note = o.note
  price : ∀ o, (f o).price = o.price
  side : ∀ o, (f o).isBuy = o.isBuy
  flags : ∀ o, (f o).flags = o.flags
  tag : ∀ o, (f o).tag = o.tag

theorem editOrder_linked {f : Order → Order} (h : Linked s) (hid : id ∈ s.orders.keys)
    (hf : InPlace f) (hamount : (f (s.orders.get id)).amount ≠ 0) : Linked (s.editOrder id f) := by
  have hkeys : (s.editOrder id f).orders.keys = s.orders.keys := Mapping.keys_modify hid
  have hfield : ∀ {α : Type} (g : Order → α), (∀ p, g (f p) = g p) → ∀ y,
      g ((s.editOrder id f).orders.get y) = g (s.orders.get y) := by
    intro α g hg y
    by_cases hy : y = id
    · subst hy
      exact (congrArg g Mapping.get_modify).trans (hg _)
    · exact congrArg g (Mapping.get_modify_ne hy)
  have hl := hfield Order.toLinks hf.links
  refine ⟨?_, ?_, h.level_iff, ?_, ?_⟩
  · unfold PriceLists
    rw [hkeys]
    refine h.prices.congr (fun y _ => ⟨congrArg Links.nextAtPrice (hl y),
      congrArg Links.prevAtPrice (hl y)⟩) (fun y _ => ?_)
    rw [hfield (fun o => o.isBuy) hf.side y, hfield (fun o => o.price) hf.price y]
  · unfold OwnerLists
    rw [hkeys]
    exact h.owners.congr (fun y _ => ⟨congrArg Links.nextInOwner (hl y),
      congrArg Links.prevInOwner (hl y)⟩) (fun y _ => hfield (fun o => o.note) hf.note y)
  · rw [hkeys]
    exact h.count
  · intro y hy
    rw [hkeys] at hy
    by_cases hyid : y = id
    · subst hyid
      have hget : (s.editOrder y f).orders.get y = f (s.orders.get y) := Mapping.get_modify
      rw [hget]
      exact hamount
    · have hget : (s.editOrder id f).orders.get y = s.orders.get y := Mapping.get_modify_ne hyid
      rw [hget]
      exact h.live y hy

end InferenceOrderBookLists
