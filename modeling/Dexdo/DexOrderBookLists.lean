import Dexdo.DexOrderBookCalls
import Dexdo.IntrusiveList

/-! # The lists and levels a resting order stands in

Insertion at the tail, removal from anywhere and a partial fill in place keep both families of
linked lists, the amounts of the price levels and the order count in step. -/
namespace DexOrderBookLists

open TokenContractState (Address u64 u128)
open SolidityMapping IntrusiveList DexOrderBookState DexOrderBookCalls

variable {s t u : Book} {o : Order} {id j : ℕ}

/-- Resting orders of one level, by time. -/
def PriceLists (s : Book) : Prop :=
  Family (fun id => (s.orders.get id).nextAtPrice) (fun id => (s.orders.get id).prevAtPrice)
    s.orders.keys (fun id => (s.orders.get id).place)
    (fun k : Side × ℕ => (s.level k.1 k.2).firstOrderId)
    (fun k : Side × ℕ => (s.level k.1 k.2).lastOrderId)

def OwnerLists (s : Book) : Prop :=
  Family (fun id => (s.orders.get id).nextInOwner) (fun id => (s.orders.get id).prevInOwner)
    s.orders.keys (fun id => (s.orders.get id).depositHash) s.ownerHead s.ownerTail

def restingAt (k : Side × ℕ) (o : Order) : ℕ := if o.place = k then o.amount else 0

structure Linked (s : Book) : Prop where
  prices : PriceLists s
  owners : OwnerLists s
  level_iff : ∀ side price, price ∈ (s.levels side).keys ↔ (s.level side price).firstOrderId ≠ 0
  totals : ∀ side price,
    (s.level side price).totalAmount = s.orders.total (restingAt (side, price))
  count : s.orderCount = s.orders.keys.card
  live : ∀ id ∈ s.orders.keys, (s.orders.get id).amount ≠ 0

theorem Linked.mem_of_amount (h : (s.orders.get id).amount ≠ 0) : id ∈ s.orders.keys := by
  by_contra hnot
  rw [s.orders.absent id hnot] at h
  exact h rfl

theorem restingAt_congr {p q : Order} (h : p.toTerms = q.toTerms) (k : Side × ℕ) :
    restingAt k p = restingAt k q := by
  have hplace : p.place = q.place := congrArg Terms.place h
  have hamount : p.amount = q.amount := congrArg Terms.amount h
  unfold restingAt
  rw [hplace, hamount]

/-! ## Reading after a write -/

section Amend

variable {m : Mapping Order} {i : ℕ} {f : Order → Order}

theorem amend_get : (amend i f m).get j = if i ≠ 0 ∧ j = i then f (m.get j) else m.get j := by
  unfold amend
  by_cases hi : i = 0
  · simp [hi]
  · by_cases hj : j = i
    · subst hj
      simp [hi]
    · simp [hi, hj, Mapping.get_modify_ne hj]

theorem amend_keys (h : i ≠ 0 → i ∈ m.keys) : (amend i f m).keys = m.keys := by
  unfold amend
  by_cases hi : i = 0
  · rw [if_pos hi]
  · rw [if_neg hi]
    exact Mapping.keys_modify (h hi)

end Amend

section Levels

variable {side c : Side} {price q : ℕ} {level : PriceLevel}

theorem setLevel_level : (setLevel side price level s).level c q =
    if (c, q) = (side, price) then level else s.level c q := by
  unfold setLevel Book.level
  dsimp only
  by_cases hc : c = side
  · subst hc
    rw [Function.update_self]
    by_cases hq : q = price
    · subst hq
      rw [if_pos rfl]
      exact Mapping.get_set
    · have hk : (c, q) ≠ (c, price) := by simp [hq]
      rw [if_neg hk]
      exact Mapping.get_set_ne hq
  · have hk : (c, q) ≠ (side, price) := by simp [hc]
    rw [Function.update_of_ne hc, if_neg hk]

theorem setLevel_keys : q ∈ ((setLevel side price level s).levels c).keys ↔
    (c, q) = (side, price) ∨ q ∈ (s.levels c).keys := by
  unfold setLevel
  dsimp only
  by_cases hc : c = side
  · subst hc
    simp
  · simp [hc]

theorem deleteLevel_level : (deleteLevel side price s).level c q =
    if (c, q) = (side, price) then {} else s.level c q := by
  unfold deleteLevel Book.level
  dsimp only
  by_cases hc : c = side
  · subst hc
    rw [Function.update_self]
    by_cases hq : q = price
    · subst hq
      rw [if_pos rfl]
      exact Mapping.absent _ _ (by simp)
    · have hk : (c, q) ≠ (c, price) := by simp [hq]
      rw [if_neg hk]
      exact Mapping.get_delete_ne hq
  · have hk : (c, q) ≠ (side, price) := by simp [hc]
    rw [Function.update_of_ne hc, if_neg hk]

theorem deleteLevel_keys : q ∈ ((deleteLevel side price s).levels c).keys ↔
    (c, q) ≠ (side, price) ∧ q ∈ (s.levels c).keys := by
  unfold deleteLevel
  dsimp only
  by_cases hc : c = side
  · subst hc
    simp
  · simp [hc]

end Levels

/-! ## Removal -/

/-- The order storage of `removeFromBook` before the order itself is deleted. -/
def bridged (o : Order) (m : Mapping Order) : Mapping Order :=
  amend o.nextInOwner (fun p => { p with prevInOwner := o.prevInOwner })
    (amend o.prevInOwner (fun p => { p with nextInOwner := o.nextInOwner })
      (amend o.nextAtPrice (fun p => { p with prevAtPrice := o.prevAtPrice })
        (amend o.prevAtPrice (fun p => { p with nextAtPrice := o.nextAtPrice }) m)))

theorem unlinkAtPrice_eq (o : Order) (s : Book) : unlinkAtPrice o s = { s with
    orders := amend o.nextAtPrice (fun p => { p with prevAtPrice := o.prevAtPrice })
      (amend o.prevAtPrice (fun p => { p with nextAtPrice := o.nextAtPrice }) s.orders)
    levels := (unlinkAtPrice o s).levels } := by
  unfold unlinkAtPrice
  dsimp only
  split <;> rfl

theorem removeFromBook_eq (h : (s.orders.get id).amount ≠ 0) :
    removeFromBook id s = { s with
      orders := (bridged (s.orders.get id) s.orders).delete id
      levels := (unlinkAtPrice (s.orders.get id) s).levels
      ownerHead := (unlinkInOwner (s.orders.get id) s).ownerHead
      ownerTail := (unlinkInOwner (s.orders.get id) s).ownerTail
      orderCount := s.orderCount - 1
      fault := s.fault || !decide (1 ≤ s.orderCount) } := by
  unfold removeFromBook
  rw [if_neg (fun hz => h hz.2), unlinkAtPrice_eq]
  rfl

variable {m : Mapping Order}

theorem bridged_get : (bridged o m).get j = { m.get j with
    nextAtPrice := if o.prevAtPrice ≠ 0 ∧ j = o.prevAtPrice then o.nextAtPrice
      else (m.get j).nextAtPrice
    prevAtPrice := if o.nextAtPrice ≠ 0 ∧ j = o.nextAtPrice then o.prevAtPrice
      else (m.get j).prevAtPrice
    nextInOwner := if o.prevInOwner ≠ 0 ∧ j = o.prevInOwner then o.nextInOwner
      else (m.get j).nextInOwner
    prevInOwner := if o.nextInOwner ≠ 0 ∧ j = o.nextInOwner then o.prevInOwner
      else (m.get j).prevInOwner } := by
  unfold bridged
  simp only [amend_get]
  split_ifs <;> rfl

theorem bridged_keys (h1 : o.prevAtPrice ≠ 0 → o.prevAtPrice ∈ m.keys)
    (h2 : o.nextAtPrice ≠ 0 → o.nextAtPrice ∈ m.keys)
    (h3 : o.prevInOwner ≠ 0 → o.prevInOwner ∈ m.keys)
    (h4 : o.nextInOwner ≠ 0 → o.nextInOwner ∈ m.keys) : (bridged o m).keys = m.keys := by
  unfold bridged
  have e1 := amend_keys (f := fun p => { p with nextAtPrice := o.nextAtPrice }) h1
  have e2 := amend_keys (f := fun p => { p with prevAtPrice := o.prevAtPrice })
    (fun h => by rw [e1]; exact h2 h)
  have e3 := amend_keys (f := fun p => { p with nextInOwner := o.nextInOwner })
    (fun h => by rw [e2, e1]; exact h3 h)
  rw [amend_keys (fun h => by rw [e3, e2, e1]; exact h4 h), e3, e2, e1]

theorem unlinkAtPrice_level (c : Side) (q : ℕ) :
    (unlinkAtPrice o s).level c q = if (c, q) = o.place then
      if (levelAfter o (s.level o.side o.price)).firstOrderId = 0 then {}
      else levelAfter o (s.level o.side o.price) else s.level c q := by
  unfold unlinkAtPrice
  dsimp only
  split
  · rw [deleteLevel_level]
    rfl
  · rw [setLevel_level]
    rfl

theorem unlinkAtPrice_levelKeys (c : Side) (q : ℕ) :
    q ∈ ((unlinkAtPrice o s).levels c).keys ↔ if (c, q) = o.place then
      (levelAfter o (s.level o.side o.price)).firstOrderId ≠ 0 else q ∈ (s.levels c).keys := by
  unfold unlinkAtPrice
  dsimp only
  split
  · rename_i hz
    rw [deleteLevel_keys]
    by_cases hk : (c, q) = o.place
    · rw [if_pos hk]
      exact iff_of_false (fun h => h.1 hk) (fun h => h hz)
    · rw [if_neg hk]
      exact and_iff_right hk
  · rename_i hz
    rw [setLevel_keys]
    by_cases hk : (c, q) = o.place
    · rw [if_pos hk]
      exact iff_of_true (.inl hk) hz
    · rw [if_neg hk]
      exact or_iff_right hk

/-- An order gone from the book: the others keep their terms, the lists and counters close up. -/
structure Removal (id : ℕ) (s t : Book) : Prop where
  linked : Linked t
  keys : t.orders.keys = s.orders.keys.erase id
  terms : ∀ j ∈ t.orders.keys, (t.orders.get j).toTerms = (s.orders.get j).toTerms
  levels : ∀ side, (t.levels side).keys ⊆ (s.levels side).keys
  count : t.orderCount + 1 = s.orderCount
  fault : t.fault = s.fault
  frame : t = { s with
    orders := t.orders, orderCount := t.orderCount, levels := t.levels, ownerHead := t.ownerHead
    ownerTail := t.ownerTail, fault := t.fault }

theorem link_guard {y i a b : ℕ} (hy : y ≠ 0) :
    (if i ≠ 0 ∧ y = i then a else b) = if y = i then a else b := by
  by_cases hyi : y = i
  · subst hyi
    simp [hy]
  · simp [hyi]

/-- The ends of the levels once `id` is taken out of its own. -/
theorem unlinkAtPrice_ends (h : Linked s) (hid : id ∈ s.orders.keys) (k : Side × ℕ) :
    ((unlinkAtPrice (s.orders.get id) s).level k.1 k.2).firstOrderId =
      (if k = (s.orders.get id).place ∧ (s.orders.get id).prevAtPrice = 0 then
        (s.orders.get id).nextAtPrice else (s.level k.1 k.2).firstOrderId) ∧
    ((unlinkAtPrice (s.orders.get id) s).level k.1 k.2).lastOrderId =
      (if k = (s.orders.get id).place ∧ (s.orders.get id).nextAtPrice = 0 then
        (s.orders.get id).prevAtPrice else (s.level k.1 k.2).lastOrderId) := by
  obtain ⟨c, q⟩ := k
  have hne : (s.level (s.orders.get id).side (s.orders.get id).price).firstOrderId ≠ 0 :=
    h.prices.first_ne_zero hid
  dsimp only
  rw [unlinkAtPrice_level]
  generalize s.orders.get id = o at hne ⊢
  by_cases hk : (c, q) = o.place
  · obtain ⟨rfl, rfl⟩ := Prod.mk.inj hk
    by_cases hp : o.prevAtPrice = 0
    · by_cases hn : o.nextAtPrice = 0
      · simp [levelAfter, hp, hn, Terms.place]
      · simp [levelAfter, hp, hn, Terms.place]
    · by_cases hn : o.nextAtPrice = 0
      · simp [levelAfter, hp, hn, hne, Terms.place]
      · simp [levelAfter, hp, hn, hne, Terms.place]
  · simp [hk]

theorem PriceLists.total_eq_zero (h : PriceLists s) {k : Side × ℕ}
    (hz : (s.level k.1 k.2).firstOrderId = 0) : s.orders.total (restingAt k) = 0 := by
  refine Finset.sum_eq_zero fun j hj => if_neg fun hk => ?_
  have hne := h.first_ne_zero hj
  rw [hk] at hne
  exact hne hz

theorem removeFromBook_removal (h : Linked s) (hid : id ∈ s.orders.keys) :
    Removal id s (removeFromBook id s) := by
  have hzero : ∀ y ∈ s.orders.keys, y ≠ 0 := fun y hy => h.prices.ne_zero hy
  have hkeys : ((bridged (s.orders.get id) s.orders).delete id).keys = s.orders.keys.erase id := by
    rw [Mapping.keys_delete, bridged_keys (fun hp => (h.prices.prev_mem hid hp).1)
      (fun hn => (h.prices.next_mem hid hn).1) (fun hp => (h.owners.prev_mem hid hp).1)
      (fun hn => (h.owners.next_mem hid hn).1)]
  have hget : ∀ y, y ≠ id → ((bridged (s.orders.get id) s.orders).delete id).get y =
      (bridged (s.orders.get id) s.orders).get y := fun y hy => Mapping.get_delete_ne hy
  have hterms : ∀ y ∈ ((bridged (s.orders.get id) s.orders).delete id).keys,
      (((bridged (s.orders.get id) s.orders).delete id).get y).toTerms =
        (s.orders.get y).toTerms := by
    intro y hy
    rw [hkeys] at hy
    rw [hget y (Finset.mem_erase.mp hy).1, bridged_get]
  have hpos : 1 ≤ s.orderCount := by
    rw [h.count]
    exact Finset.card_pos.mpr ⟨id, hid⟩
  have hends := unlinkAtPrice_ends h hid
  have hlevelKeys := unlinkAtPrice_levelKeys (o := s.orders.get id) (s := s)
  have hprices : PriceLists { s with
      orders := (bridged (s.orders.get id) s.orders).delete id
      levels := (unlinkAtPrice (s.orders.get id) s).levels } := by
    unfold PriceLists
    rw [hkeys]
    refine h.prices.remove hid (fun y hy hne => ?_) (fun y hy hne => ?_) (fun k => (hends k).1)
      (fun k => (hends k).2)
    · rw [hget y hne, bridged_get]
    · rw [hget y hne, bridged_get]
      exact ⟨link_guard (hzero y hy), link_guard (hzero y hy)⟩
  rw [removeFromBook_eq (h.live id hid)]
  refine ⟨⟨hprices, ?_, ?_, ?_, ?_, ?_⟩, hkeys, hterms, ?_, Nat.sub_add_cancel hpos, ?_, rfl⟩
  · unfold OwnerLists
    rw [hkeys]
    refine h.owners.remove hid (fun y hy hne => ?_) (fun y hy hne => ?_) (fun k => ?_)
      (fun k => ?_)
    · rw [hget y hne, bridged_get]
    · rw [hget y hne, bridged_get]
      exact ⟨link_guard (hzero y hy), link_guard (hzero y hy)⟩
    · simp only [unlinkInOwner]
      by_cases hp : (s.orders.get id).prevInOwner = 0
      · by_cases hk : k = (s.orders.get id).depositHash
        · simp [hp, hk]
        · simp [hp, hk]
      · simp [hp]
    · simp only [unlinkInOwner]
      by_cases hn : (s.orders.get id).nextInOwner = 0
      · by_cases hk : k = (s.orders.get id).depositHash
        · simp [hn, hk]
        · simp [hn, hk]
      · simp [hn]
  · intro c q
    change q ∈ ((unlinkAtPrice (s.orders.get id) s).levels c).keys ↔
      ((unlinkAtPrice (s.orders.get id) s).level c q).firstOrderId ≠ 0
    rw [hlevelKeys, unlinkAtPrice_level]
    by_cases hk : (c, q) = (s.orders.get id).place
    · rw [if_pos hk, if_pos hk]
      split
      · rename_i hz
        exact iff_of_false (fun hne => hne hz) (fun hne => hne rfl)
      · exact Iff.rfl
    · rw [if_neg hk, if_neg hk]
      exact h.level_iff c q
  · intro c q
    have hsum := Mapping.total_erase (f := restingAt (c, q)) hid hkeys
      fun j hj => restingAt_congr (hterms j hj) (c, q)
    have hold := h.totals c q
    have hnil := PriceLists.total_eq_zero (k := (c, q)) hprices
    change ((unlinkAtPrice (s.orders.get id) s).level c q).firstOrderId = 0 → _ at hnil
    change ((unlinkAtPrice (s.orders.get id) s).level c q).totalAmount =
      ((bridged (s.orders.get id) s.orders).delete id).total _
    rw [unlinkAtPrice_level] at hnil ⊢
    by_cases hk : (c, q) = (s.orders.get id).place
    · obtain ⟨rfl, rfl⟩ := Prod.mk.inj hk
      have hown : restingAt ((s.orders.get id).side, (s.orders.get id).price) (s.orders.get id) =
          (s.orders.get id).amount := if_pos rfl
      rw [hown] at hsum
      rw [if_pos hk] at hnil ⊢
      split
      · rename_i hz
        rw [if_pos hz] at hnil
        exact (hnil rfl).symm
      · change (s.level _ _).totalAmount - (s.orders.get id).amount = _
        omega
    · have hown : restingAt (c, q) (s.orders.get id) = 0 := if_neg fun heq => hk heq.symm
      rw [if_neg hk]
      omega
  · change s.orderCount - 1 = ((bridged (s.orders.get id) s.orders).delete id).keys.card
    rw [hkeys, Finset.card_erase_of_mem hid, h.count]
  · intro y hy
    have hamount := congrArg Terms.amount (hterms y hy)
    change (((bridged (s.orders.get id) s.orders).delete id).get y).amount ≠ 0
    rw [hamount]
    have hy' : y ∈ s.orders.keys.erase id := hkeys ▸ hy
    exact h.live y (Finset.mem_of_mem_erase hy')
  · intro c q hq
    have hq' : q ∈ ((unlinkAtPrice (s.orders.get id) s).levels c).keys := hq
    rw [hlevelKeys] at hq'
    by_cases hk : (c, q) = (s.orders.get id).place
    · obtain ⟨rfl, rfl⟩ := Prod.mk.inj hk
      rw [h.level_iff]
      exact h.prices.first_ne_zero hid
    · rw [if_neg hk] at hq'
      exact hq'
  · change (s.fault || !decide (1 ≤ s.orderCount)) = s.fault
    simp [hpos]

/-! ## Insertion -/

def atTails (o : Order) (s : Book) : Order :=
  { o with
    nextAtPrice := 0, prevAtPrice := (s.level o.side o.price).lastOrderId
    nextInOwner := 0, prevInOwner := s.ownerTail o.depositHash }

/-- The order storage with the new order and the links of the two tails. -/
def hooked (id : ℕ) (o : Order) (s : Book) : Mapping Order :=
  amend (s.ownerTail o.depositHash) (fun p => { p with nextInOwner := id })
    (amend (s.level o.side o.price).lastOrderId (fun p => { p with nextAtPrice := id })
      (s.orders.set id (atTails o s)))

theorem insertIntoBook_eq : insertIntoBook id o s = { s with
    orders := hooked id o s
    levels := (setLevel o.side o.price
      (levelWith id o.amount (s.level o.side o.price)) s).levels
    ownerHead := (linkInOwner id o s).ownerHead
    ownerTail := (linkInOwner id o s).ownerTail
    orderCount := s.orderCount + 1
    fault := s.fault || !decide ((s.level o.side o.price).lastOrderId ≠ 0 →
      (s.level o.side o.price).totalAmount + o.amount < u128) ||
      !decide (s.orderCount + 1 < u32) } := rfl

theorem hooked_get_new (hp : (s.level o.side o.price).lastOrderId ≠ id)
    (ho : s.ownerTail o.depositHash ≠ id) : (hooked id o s).get id = atTails o s := by
  unfold hooked
  rw [amend_get, if_neg (fun h => ho h.2.symm), amend_get, if_neg (fun h => hp h.2.symm),
    Mapping.get_set]

theorem hooked_get (hj : j ≠ id) : (hooked id o s).get j = { s.orders.get j with
    nextAtPrice := if (s.level o.side o.price).lastOrderId ≠ 0 ∧
      j = (s.level o.side o.price).lastOrderId then id else (s.orders.get j).nextAtPrice
    nextInOwner := if s.ownerTail o.depositHash ≠ 0 ∧ j = s.ownerTail o.depositHash then id
      else (s.orders.get j).nextInOwner } := by
  unfold hooked
  simp only [amend_get, Mapping.get_set_ne hj]
  split_ifs <;> rfl

theorem hooked_keys (hp : (s.level o.side o.price).lastOrderId ≠ 0 →
      (s.level o.side o.price).lastOrderId ∈ s.orders.keys)
    (ho : s.ownerTail o.depositHash ≠ 0 → s.ownerTail o.depositHash ∈ s.orders.keys) :
    (hooked id o s).keys = insert id s.orders.keys := by
  unfold hooked
  have hset : (s.orders.set id (atTails o s)).keys = insert id s.orders.keys := rfl
  have e1 := amend_keys (m := s.orders.set id (atTails o s))
    (i := (s.level o.side o.price).lastOrderId) (f := fun p => { p with nextAtPrice := id })
    (fun h => by rw [hset]; exact Finset.mem_insert_of_mem (hp h))
  rw [amend_keys (fun h => by rw [e1, hset]; exact Finset.mem_insert_of_mem (ho h)), e1, hset]

/-- An order new in the book: the others keep their terms. -/
structure Insertion (id : ℕ) (o : Order) (s t : Book) : Prop where
  linked : Linked t
  keys : t.orders.keys = insert id s.orders.keys
  added : (t.orders.get id).toTerms = o.toTerms
  terms : ∀ j ∈ s.orders.keys, (t.orders.get j).toTerms = (s.orders.get j).toTerms
  levels : ∀ side price, price ∈ (t.levels side).keys ↔
    (side, price) = o.place ∨ price ∈ (s.levels side).keys
  frame : t = { s with
    orders := t.orders, orderCount := t.orderCount, levels := t.levels, ownerHead := t.ownerHead
    ownerTail := t.ownerTail, fault := t.fault }

theorem insertIntoBook_insertion (h : Linked s) (hid : id ≠ 0)
    (hmax : ∀ j ∈ s.orders.keys, j < id) (hamount : o.amount ≠ 0) :
    Insertion id o s (insertIntoBook id o s) := by
  have hzero : ∀ y ∈ s.orders.keys, y ≠ 0 := fun y hy => h.prices.ne_zero hy
  have hne : ∀ y ∈ s.orders.keys, y ≠ id := fun y hy => (hmax y hy).ne
  have hlast : (s.level o.side o.price).lastOrderId ≠ 0 →
      (s.level o.side o.price).lastOrderId ∈ s.orders.keys :=
    fun hl => (h.prices.last_mem (k := o.place) hl).1
  have htail : s.ownerTail o.depositHash ≠ 0 → s.ownerTail o.depositHash ∈ s.orders.keys :=
    fun hl => (h.owners.last_mem hl).1
  have hnew : (hooked id o s).get id = atTails o s := by
    apply hooked_get_new
    · intro heq
      exact hne _ (hlast (by rw [heq]; exact hid)) heq
    · intro heq
      exact hne _ (htail (by rw [heq]; exact hid)) heq
  have hkeys : (hooked id o s).keys = insert id s.orders.keys := hooked_keys hlast htail
  have hfirst : (s.level o.side o.price).firstOrderId = 0 ↔
      (s.level o.side o.price).lastOrderId = 0 := h.prices.first_eq_zero o.place
  have hterms : ∀ j ∈ s.orders.keys, ((hooked id o s).get j).toTerms = (s.orders.get j).toTerms := by
    intro y hy
    rw [hooked_get (hne y hy)]
  rw [insertIntoBook_eq]
  refine ⟨⟨?_, ?_, ?_, ?_, ?_, ?_⟩, hkeys, ?_, hterms, ?_, rfl⟩
  · unfold PriceLists
    rw [hkeys]
    refine h.prices.insert (c := o.place) hid hmax ?_ (fun y hy => ?_) ?_ ?_
      (fun y hy => ?_) (fun k => ?_) (fun k => ?_)
    · rw [hnew]
      rfl
    · exact congrArg Terms.place (hterms y hy)
    · rw [hnew]
      rfl
    · rw [hnew]
      rfl
    · rw [hooked_get (hne y hy)]
      exact ⟨link_guard (hzero y hy), rfl⟩
    · obtain ⟨c, q⟩ := k
      change ((setLevel o.side o.price _ s).level c q).firstOrderId = _
      rw [setLevel_level]
      by_cases hk : (c, q) = (o.side, o.price)
      · obtain ⟨rfl, rfl⟩ := Prod.mk.inj hk
        unfold levelWith Terms.place
        by_cases hl : (s.level o.side o.price).lastOrderId = 0
        · simp [hl]
        · simp [hl]
      · simp [hk, Terms.place]
    · obtain ⟨c, q⟩ := k
      change ((setLevel o.side o.price _ s).level c q).lastOrderId = _
      rw [setLevel_level]
      by_cases hk : (c, q) = (o.side, o.price)
      · unfold levelWith Terms.place
        rw [if_pos hk, if_pos hk]
        split <;> rfl
      · simp [hk, Terms.place]
  · unfold OwnerLists
    rw [hkeys]
    refine h.owners.insert (c := o.depositHash) hid hmax ?_ (fun y hy => ?_) ?_ ?_
      (fun y hy => ?_) (fun k => ?_) (fun k => ?_)
    · rw [hnew]
      rfl
    · exact congrArg Terms.depositHash (hterms y hy)
    · rw [hnew]
      rfl
    · rw [hnew]
      rfl
    · rw [hooked_get (hne y hy)]
      exact ⟨link_guard (hzero y hy), rfl⟩
    · simp only [linkInOwner]
      by_cases ht : s.ownerTail o.depositHash = 0
      · by_cases hk : k = o.depositHash
        · simp [ht, hk]
        · simp [ht, hk]
      · simp [ht]
    · simp only [linkInOwner]
      by_cases hk : k = o.depositHash
      · simp [hk]
      · simp [hk]
  · intro c q
    change q ∈ ((setLevel o.side o.price _ s).levels c).keys ↔
      ((setLevel o.side o.price _ s).level c q).firstOrderId ≠ 0
    rw [setLevel_keys, setLevel_level]
    by_cases hk : (c, q) = (o.side, o.price)
    · rw [if_pos hk]
      refine iff_of_true (.inl hk) ?_
      unfold levelWith
      split
      · exact hid
      · rename_i hl
        exact fun hf => hl (hfirst.mp hf)
    · rw [if_neg hk, or_iff_right hk]
      exact h.level_iff c q
  · intro c q
    have hsum := Mapping.total_insert (f := restingAt (c, q)) (fun hm => hne id hm rfl) hkeys
      fun j hj => restingAt_congr (hterms j hj) (c, q)
    have hold := h.totals c q
    have hnil := PriceLists.total_eq_zero (k := (c, q)) h.prices
    have hadd : restingAt (c, q) ((hooked id o s).get id) = restingAt (c, q) o :=
      restingAt_congr (by rw [hnew]; rfl) (c, q)
    change ((setLevel o.side o.price _ s).level c q).totalAmount = (hooked id o s).total _
    rw [hsum, hadd, setLevel_level, ← hold]
    by_cases hk : (c, q) = (o.side, o.price)
    · have hown : restingAt (c, q) o = o.amount := if_pos hk.symm
      rw [if_pos hk, hown]
      obtain ⟨rfl, rfl⟩ := Prod.mk.inj hk
      unfold levelWith
      split
      · rename_i hl
        rw [hold, hnil (hfirst.mpr hl), Nat.zero_add]
      · rfl
    · have hown : restingAt (c, q) o = 0 := if_neg fun heq => hk heq.symm
      rw [if_neg hk, hown, Nat.add_zero]
  · change s.orderCount + 1 = (hooked id o s).keys.card
    rw [hkeys, Finset.card_insert_of_notMem (fun hm => hne id hm rfl), h.count]
  · intro y hy
    have hy' : y ∈ (hooked id o s).keys := hy
    rw [hkeys] at hy'
    change ((hooked id o s).get y).amount ≠ 0
    rcases Finset.mem_insert.mp hy' with rfl | hy'
    · rw [hnew]
      exact hamount
    · rw [congrArg Terms.amount (hterms y hy')]
      exact h.live y hy'
  · change ((hooked id o s).get id).toTerms = _
    rw [hnew]
    rfl
  · intro c q
    exact setLevel_keys

/-! ## A partial fill -/

def withAmount (amount : ℕ) (o : Order) : Order := { o with amount := amount }

/-- The record of a maker that keeps a rest, and of its level. -/
def trimmedMaker (id trade : ℕ) (s : Book) : Book :=
  let o := s.orders.get id
  setLevel o.side o.price
    { s.level o.side o.price with totalAmount := (s.level o.side o.price).totalAmount - trade }
    (s.editOrder id (withAmount (o.amount - trade)))

theorem trimmedMaker_linked {trade : ℕ} (h : Linked s) (hid : id ∈ s.orders.keys)
    (htrade : trade < (s.orders.get id).amount) : Linked (trimmedMaker id trade s) := by
  have hkeys : (trimmedMaker id trade s).orders.keys = s.orders.keys := Mapping.keys_modify hid
  have horders : (trimmedMaker id trade s).orders =
      s.orders.modify id (withAmount ((s.orders.get id).amount - trade)) := rfl
  have hget : ∀ y, y ≠ id → (trimmedMaker id trade s).orders.get y = s.orders.get y := by
    intro y hy
    rw [horders, Mapping.get_modify_ne hy]
  have hown : (trimmedMaker id trade s).orders.get id =
      withAmount ((s.orders.get id).amount - trade) (s.orders.get id) := by
    rw [horders, Mapping.get_modify]
  have hlinks : ∀ y, ((trimmedMaker id trade s).orders.get y).toLinks = (s.orders.get y).toLinks ∧
      ((trimmedMaker id trade s).orders.get y).place = (s.orders.get y).place ∧
      ((trimmedMaker id trade s).orders.get y).depositHash = (s.orders.get y).depositHash := by
    intro y
    by_cases hy : y = id
    · subst hy
      rw [hown]
      exact ⟨rfl, rfl, rfl⟩
    · rw [hget y hy]
      exact ⟨rfl, rfl, rfl⟩
  have hlevel : ∀ c q, (trimmedMaker id trade s).level c q =
      if (c, q) = (s.orders.get id).place then
        { s.level c q with totalAmount := (s.level c q).totalAmount - trade }
      else s.level c q := by
    intro c q
    unfold trimmedMaker
    dsimp only
    rw [setLevel_level]
    change (if (c, q) = (s.orders.get id).place then _ else s.level c q) = _
    by_cases hk : (c, q) = (s.orders.get id).place
    · rw [if_pos hk, if_pos hk]
      obtain ⟨rfl, rfl⟩ := Prod.mk.inj hk
      rfl
    · rw [if_neg hk, if_neg hk]
  have hfirst : ∀ c q, ((trimmedMaker id trade s).level c q).firstOrderId =
      (s.level c q).firstOrderId := by
    intro c q
    rw [hlevel]
    split <;> rfl
  have hlast : ∀ c q, ((trimmedMaker id trade s).level c q).lastOrderId =
      (s.level c q).lastOrderId := by
    intro c q
    rw [hlevel]
    split <;> rfl
  refine ⟨?_, ?_, ?_, ?_, ?_, ?_⟩
  · unfold PriceLists
    rw [hkeys]
    have hcongr := h.prices.congr (fun y _ => ⟨congrArg Links.nextAtPrice (hlinks y).1,
      congrArg Links.prevAtPrice (hlinks y).1⟩) (fun y _ => (hlinks y).2.1)
    simpa only [hfirst, hlast] using hcongr
  · unfold OwnerLists
    rw [hkeys]
    exact h.owners.congr (fun y _ => ⟨congrArg Links.nextInOwner (hlinks y).1,
      congrArg Links.prevInOwner (hlinks y).1⟩) (fun y _ => (hlinks y).2.2)
  · intro c q
    rw [hfirst, ← h.level_iff]
    unfold trimmedMaker
    dsimp only
    rw [setLevel_keys]
    refine or_iff_right_of_imp fun hk => ?_
    obtain ⟨rfl, rfl⟩ := Prod.mk.inj hk
    exact (h.level_iff _ _).mpr (h.prices.first_ne_zero hid)
  · intro c q
    have hsum := Mapping.total_set (f := restingAt (c, q))
      (v := withAmount ((s.orders.get id).amount - trade) (s.orders.get id)) hid
    have hold := h.totals c q
    rw [hlevel, horders]
    unfold Mapping.modify
    by_cases hk : (c, q) = (s.orders.get id).place
    · have h1 : restingAt (c, q) (s.orders.get id) = (s.orders.get id).amount := if_pos hk.symm
      have h2 : restingAt (c, q) (withAmount ((s.orders.get id).amount - trade) (s.orders.get id)) =
          (s.orders.get id).amount - trade := if_pos hk.symm
      rw [if_pos hk]
      rw [h1, h2] at hsum
      change (s.level c q).totalAmount - trade = _
      omega
    · have h1 : restingAt (c, q) (s.orders.get id) = 0 := if_neg fun heq => hk heq.symm
      have h2 : restingAt (c, q)
          (withAmount ((s.orders.get id).amount - trade) (s.orders.get id)) = 0 :=
        if_neg fun heq => hk heq.symm
      rw [if_neg hk]
      rw [h1, h2] at hsum
      omega
  · change s.orderCount = _
    rw [hkeys]
    exact h.count
  · intro y hy
    rw [hkeys] at hy
    by_cases hyid : y = id
    · subst hyid
      rw [hown]
      exact (Nat.sub_pos_of_lt htrade).ne'
    · rw [hget y hyid]
      exact h.live y hy

/-! ## The record of fills -/

def withFilled (filledAccum : ℕ) (o : Order) : Order := { o with filledAccum := filledAccum }

theorem editFilled_linked (n : ℕ) (h : Linked s) (hid : id ∈ s.orders.keys) :
    Linked (s.editOrder id (withFilled n)) := by
  have hkeys : (s.editOrder id (withFilled n)).orders.keys = s.orders.keys :=
    Mapping.keys_modify hid
  have hfield : ∀ {α : Type} (g : Order → α), (∀ p, g (withFilled n p) = g p) → ∀ y,
      g ((s.editOrder id (withFilled n)).orders.get y) = g (s.orders.get y) := by
    intro α g hg y
    by_cases hy : y = id
    · subst hy
      exact (congrArg g Mapping.get_modify).trans (hg _)
    · exact congrArg g (Mapping.get_modify_ne hy)
  have hl := hfield Order.toLinks fun _ => rfl
  refine ⟨?_, ?_, h.level_iff, ?_, ?_, ?_⟩
  · unfold PriceLists
    rw [hkeys]
    exact h.prices.congr (fun y _ => ⟨congrArg Links.nextAtPrice (hl y),
      congrArg Links.prevAtPrice (hl y)⟩) (fun y _ => hfield (fun o => o.place) (fun _ => rfl) y)
  · unfold OwnerLists
    rw [hkeys]
    exact h.owners.congr (fun y _ => ⟨congrArg Links.nextInOwner (hl y),
      congrArg Links.prevInOwner (hl y)⟩)
      (fun y _ => hfield (fun o => o.depositHash) (fun _ => rfl) y)
  · intro c q
    rw [Mapping.total_congr hkeys fun y _ => hfield (restingAt (c, q)) (fun _ => rfl) y]
    exact h.totals c q
  · rw [hkeys]
    exact h.count
  · intro y hy
    rw [hkeys] at hy
    rw [hfield (fun o => o.amount) (fun _ => rfl) y]
    exact h.live y hy

end DexOrderBookLists
