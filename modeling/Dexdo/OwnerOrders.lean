import Dexdo.BookEventMirror
import Dexdo.BookEventWindow

/-! # The owner's view of a book

`orders.rs` and `fold_completeness.rs`: the rows an owner is shown, what `orders cancel` and
`orders expire` make of them, and how a removal is confirmed. -/
namespace OwnerOrders

open TokenContractState hiding Out Err Sent
open InferenceOrderBookState InferenceOrderBookCalls InferenceOrderBookStructure
open InferenceOrderBookMoves BookEvents BookEventMirror BookEventWindow

/-! ## Rows -/

structure OrderBookOrder where
  orderId : ℕ
  ownerNote : Address
  tokenContract : Option Address
  isBuy : Bool
  pricePerTick : ℕ
  ticks : ℕ
  escrow : ℕ
  deadline : ℕ
  flags : ℕ
  timestamp : ℕ
  deriving DecidableEq

/-- A row of `fold_snapshot_from_orders`: no event carries the escrow or the time. -/
def snapshotRow (order : LiveBookOrder) : OrderBookOrder where
  orderId := order.orderId
  ownerNote := order.note
  tokenContract := if order.isBuy then none else some order.tokenContract
  isBuy := order.isBuy
  pricePerTick := order.price
  ticks := order.ticksRemaining
  escrow := 0
  deadline := order.deadline
  flags := order.flags
  timestamp := 0

def orderbookOrderFromGetter (orderId : ℕ) (order : Terms) :
    Except String (Option OrderBookOrder) :=
  if order.amount = 0 then .ok none
  else if order.note = 0 then
    .error s!"getOrder({orderId}) malformed: non-zero amount with zero owner note"
  else if u128 ≤ order.price then .error s!"getOrder({orderId}) price exceeds downstream u128"
  else
    .ok (some
      { orderId := orderId
        ownerNote := order.note
        tokenContract := if order.tokenContract = 0 then none else some order.tokenContract
        isBuy := order.isBuy
        pricePerTick := order.price
        ticks := order.amount
        escrow := order.escrow
        deadline := order.deadline
        flags := order.flags
        timestamp := order.ts })

def collectLiveOrders (raw : List (ℕ × Terms)) : List OrderBookOrder :=
  raw.filterMap fun slot =>
    match orderbookOrderFromGetter slot.1 slot.2 with
    | .ok order => order
    | .error _ => none

def orderbookSlots (s : Book) : List (ℕ × Terms) :=
  ((List.range s.nextOrderId).filter fun id => id ∈ s.orders.keys).map fun id =>
    (id, (s.orders.get id).toTerms)

def liveOrders (s : Book) : List OrderBookOrder := collectLiveOrders (orderbookSlots s)

def StorageExact (s : Book) : Prop :=
  ∀ id, Live s id → ∃ row, orderbookOrderFromGetter id (s.orders.get id).toTerms = .ok (some row)

def allOrders (log : List Out) (f : BookEventFold) : List LiveBookOrder :=
  (placedIds log).dedup.filterMap f.orders

def foldRead (kept : List Out) : Except String (List LiveBookOrder) :=
  (foldEvents kept).map (allOrders kept)

/-! ## The view -/

inductive RowSource where
  | fold | storage
  deriving DecidableEq

structure OrdersView where
  orders : List OrderBookOrder
  rows : RowSource
  sweptOrderIds : List ℕ

def OrdersView.fromFold (orders : List LiveBookOrder) : OrdersView where
  orders := orders.map snapshotRow
  rows := .fold
  sweptOrderIds := (orders.filter fun order => order.expiredByEvent).map fun order => order.orderId

def answerOrStorageWhenEmpty {α : Type} (foldAnswer : α) (isEmpty : α → Bool)
    (storageRead : Except String α) : Except String (α × RowSource) :=
  if !isEmpty foldAnswer then .ok (foldAnswer, .fold)
  else storageRead.map fun answer => (answer, .storage)

def rowsOrStorageWhenEmpty (foldRows : List OrderBookOrder)
    (storageRead : Except String (List OrderBookOrder)) :
    Except String (List OrderBookOrder × RowSource) :=
  answerOrStorageWhenEmpty foldRows List.isEmpty storageRead

def readLiveOrderSnapshotWith (foldRead : Except String OrdersView)
    (fallbackRead : Except String (List OrderBookOrder)) : Except String OrdersView :=
  match foldRead with
  | .ok view => do
    let (rows, source) ← rowsOrStorageWhenEmpty view.orders fallbackRead
    return {
      orders := rows
      rows := source
      -- the storage rows never announce a sweep
      sweptOrderIds := if source = .storage then [] else view.sweptOrderIds }
  | .error _ => do
    let rows ← fallbackRead
    return { orders := rows, rows := .storage, sweptOrderIds := [] }

def readLiveOrderSnapshot (s : Book) (kept : List Out) : Except String OrdersView :=
  readLiveOrderSnapshotWith ((foldRead kept).map OrdersView.fromFold) (.ok (liveOrders s))

def ownOrders (orders : List OrderBookOrder) (note : Address) : List OrderBookOrder :=
  orders.filter fun order => order.ownerNote = note

def findOrder (own : List OrderBookOrder) (orderId : ℕ) : Option OrderBookOrder :=
  own.find? fun order => order.orderId = orderId

/-- The order that `orders cancel` goes on to cancel. -/
def cancelTarget (own : List OrderBookOrder) (orderId : ℕ) (note orderBook : Address) :
    Except String OrderBookOrder :=
  match findOrder own orderId with
  | some order => .ok order
  | none =>
    .error s!"refusing to cancel: order {orderId} is not owned by note {note} in {orderBook}"

inductive ExpireAction where
  | notResting
  | stillLive (deadline : ℕ)
  | sweep
  deriving DecidableEq

def orderDeadlineIsLive (isBuy : Bool) (deadline nowUnix : ℕ) : Bool :=
  if deadline = 0 then isBuy else decide (nowUnix < deadline)

def expireAction (order : Option OrderBookOrder) (asOf : ℕ) : ExpireAction :=
  match order with
  | none => .notResting
  | some order =>
    if orderDeadlineIsLive order.isBuy order.deadline asOf then .stillLive order.deadline
    else .sweep

/-! ## The confirmation of a removal -/

def absenceIsConfirmedByStorage (orderId : ℕ) (storageRead : Except String (List OrderBookOrder)) :
    Except String Bool :=
  storageRead.map fun rows => !rows.any fun row => row.orderId = orderId

structure Observation where
  folded : Except String (List LiveBookOrder)
  stored : Except String (List OrderBookOrder)
  balance : Except String ℕ
  inTime : Bool := true

def Observation.removed (o : Observation) (orderId : ℕ) : Except String Bool := do
  let folded ← o.folded
  match folded.find? fun order => order.orderId = orderId with
  | some order => return order.expiredByEvent
  | none => absenceIsConfirmedByStorage orderId o.stored

/-- The refund and the balance after it; `none` when the time is up. -/
def reconcileOrderRemovalWith (orderId balanceBefore : ℕ) :
    List Observation → Except String (Option (ℕ × ℕ))
  | [] => .ok none
  | o :: rest =>
    if o.inTime then do
      let removed ← o.removed orderId
      let balanceAfter ← o.balance
      if removed then return some (balanceAfter - balanceBefore, balanceAfter)
      else reconcileOrderRemovalWith orderId balanceBefore rest
    else .ok none

/-! ## What should hold of them -/

/-- What an owner may count on in a view. -/
structure ViewHolds (s : Book) (note : Address) (view : OrdersView) : Prop where
  shown : ∀ id, Live s id → (s.orders.get id).note = note →
    ∃ row ∈ ownOrders view.orders note, row.orderId = id
  present : ∀ row ∈ view.orders, row.orderId ∉ view.sweptOrderIds → inView s row.orderId ≠ none
  cancels : ∀ id, Live s id → (s.orders.get id).note = note → ∀ orderBook,
    ∃ row, cancelTarget (ownOrders view.orders note) id note orderBook = .ok row
  expires : ∀ id, Live s id → (s.orders.get id).note = note → ∀ asOf,
    expireAction (findOrder (ownOrders view.orders note) id) asOf ≠ .notResting

/-- A removal is confirmed, at whatever turn, only of an order that is gone. -/
def RemovalHolds (s : Book) (kept : List Out) : Prop :=
  ∀ earlier o orderId balanceBefore refund balanceAfter,
    o.folded = foldRead kept → o.stored = .ok (liveOrders s) →
    reconcileOrderRemovalWith orderId balanceBefore earlier = .ok none →
    reconcileOrderRemovalWith orderId balanceBefore (earlier ++ [o]) =
      .ok (some (refund, balanceAfter)) →
    inView s orderId = none

def WindowIndependent (s : Book) (kept : List Out) (note : Address) : Prop :=
  (∃ view, readLiveOrderSnapshot s kept = .ok view ∧ ViewHolds s note view) ∧ RemovalHolds s kept

def Waiting (s : Book) (id : ℕ) : Prop := inView s id ≠ none ∧ ¬Live s id

/-- The window starts early enough, or shows so little that storage is asked. -/
def WindowSuffices (s : Book) (kept : List Out) (note : Address) : Prop :=
  ¬Fits kept ∨
  ((∀ id, Waiting s id → id ∈ placedIds kept) ∧
   (Spent (events s.out) kept (inView s) ∨
    ((∀ id, Live s id → (s.orders.get id).note = note → id ∈ placedIds kept) ∧
     ∀ id ∈ placedIds kept, ¬Open (events s.out) id)))

variable {env : Env} {s : Book} {old kept : List Out} {note : Address} {id : ℕ} {d : List ℕ}
variable {view : OrdersView}

/-! ## Reads -/

theorem findOrder_isSome {own : List OrderBookOrder} :
    (findOrder own id).isSome ↔ ∃ row ∈ own, row.orderId = id := by
  unfold findOrder
  rw [List.find?_isSome]
  simp

theorem viewHolds_iff : ViewHolds s note view ↔
    (∀ id, Live s id → (s.orders.get id).note = note →
      ∃ row ∈ ownOrders view.orders note, row.orderId = id) ∧
    ∀ row ∈ view.orders, row.orderId ∉ view.sweptOrderIds → inView s row.orderId ≠ none := by
  constructor
  · exact fun h => ⟨h.shown, h.present⟩
  · rintro ⟨hshown, hpresent⟩
    have hfind : ∀ id, Live s id → (s.orders.get id).note = note →
        ∃ row, findOrder (ownOrders view.orders note) id = some row := by
      intro id hlive hnote
      exact Option.isSome_iff_exists.mp (findOrder_isSome.mpr (hshown id hlive hnote))
    refine ⟨hshown, hpresent, ?_, ?_⟩
    · intro id hlive hnote orderBook
      obtain ⟨row, hrow⟩ := hfind id hlive hnote
      exact ⟨row, by rw [cancelTarget, hrow]⟩
    · intro id hlive hnote asOf
      obtain ⟨row, hrow⟩ := hfind id hlive hnote
      rw [hrow, expireAction]
      split <;> nofun

theorem mem_orderbookSlots (hs : Sound s) {slot : ℕ × Terms} : slot ∈ orderbookSlots s ↔
    Live s slot.1 ∧ slot.2 = (s.orders.get slot.1).toTerms := by
  unfold orderbookSlots
  rw [List.mem_map]
  constructor
  · rintro ⟨id, hid, rfl⟩
    rw [List.mem_filter, decide_eq_true_eq] at hid
    exact ⟨(Linked.live_iff hs.linked).mpr hid.2, rfl⟩
  · obtain ⟨id, o⟩ := slot
    rintro ⟨hlive, hterms⟩
    dsimp only at hlive hterms
    subst hterms
    have hkey := (Linked.live_iff hs.linked).mp hlive
    refine ⟨id, ?_, rfl⟩
    rw [List.mem_filter, decide_eq_true_eq]
    exact ⟨List.mem_range.mpr (hs.ids id hkey), hkey⟩

theorem orderbookOrderFromGetter_ids {o : Terms} {row : OrderBookOrder}
    (h : orderbookOrderFromGetter id o = .ok (some row)) :
    row.orderId = id ∧ row.ownerNote = o.note := by
  unfold orderbookOrderFromGetter at h
  split_ifs at h <;> cases h <;> exact ⟨rfl, rfl⟩

theorem liveOrders_sound (hs : Sound s) {row : OrderBookOrder} (h : row ∈ liveOrders s) :
    Live s row.orderId := by
  unfold liveOrders collectLiveOrders at h
  obtain ⟨slot, hslot, hrow⟩ := List.mem_filterMap.mp h
  obtain ⟨hlive, -⟩ := (mem_orderbookSlots hs).mp hslot
  cases hget : orderbookOrderFromGetter slot.1 slot.2 with
  | error e =>
    rw [hget] at hrow
    cases hrow
  | ok found =>
    rw [hget] at hrow
    cases hrow
    rw [(orderbookOrderFromGetter_ids hget).1]
    exact hlive

theorem liveOrders_exact (hs : Sound s) (hexact : StorageExact s) (hlive : Live s id) :
    ∃ row ∈ liveOrders s, row.orderId = id ∧ row.ownerNote = (s.orders.get id).note := by
  obtain ⟨row, hrow⟩ := hexact id hlive
  refine ⟨row, ?_, orderbookOrderFromGetter_ids hrow⟩
  unfold liveOrders collectLiveOrders
  refine List.mem_filterMap.mpr ⟨(id, (s.orders.get id).toTerms), ?_, ?_⟩
  · exact (mem_orderbookSlots hs).mpr ⟨hlive, rfl⟩
  · dsimp only
    rw [hrow]

theorem Live.inView (hs : Sound s) (hlive : Live s id) :
    inView s id = some (rowOf id (s.orders.get id).toTerms) := by
  have hkey := (Linked.live_iff hs.linked).mp hlive
  unfold BookEventMirror.inView
  split
  · exact resting_mem hkey
  · rename_i hcont
    have hlt := (hs.cont _ hcont).2.2 id hkey
    unfold beside
    rw [Function.update_of_ne (by omega), resting_mem hkey]

theorem liveOrders_holds (hs : Sound s) (hexact : StorageExact s) :
    ViewHolds s note ⟨liveOrders s, .storage, []⟩ := by
  rw [viewHolds_iff]
  constructor
  · intro id hlive hnote
    obtain ⟨row, hmem, hid, howner⟩ := liveOrders_exact hs hexact hlive
    refine ⟨row, ?_, hid⟩
    unfold ownOrders
    rw [List.mem_filter, decide_eq_true_eq]
    exact ⟨hmem, howner.trans hnote⟩
  · intro row hmem _
    rw [Live.inView hs (liveOrders_sound hs hmem)]
    exact Option.some_ne_none _

/-! ## The fold of a window -/

theorem foldAll_orderId (l : List Out) : ∀ id r, (foldAll l).orders id = some r → r.orderId = id := by
  induction l using List.reverseRecOn with
  | nil => exact fun id r h => nomatch h
  | append_singleton l o ih =>
    have hfill : ∀ {id k : ℕ} {row : Option LiveBookOrder}, (∀ r, row = some r → r.orderId = id) →
        ∀ r, row.bind (fillRow k) = some r → r.orderId = id := by
      intro id k row hrow r hr
      obtain ⟨x, hx, hr⟩ := Option.bind_eq_some_iff.mp hr
      unfold fillRow at hr
      split_ifs at hr
      cases hr
      exact hrow x hx
    intro id r h
    rw [foldAll_row] at h
    unfold rowAfter at h
    split at h
    · split at h
      · rename_i hid
        cases h
        exact hid
      · exact ih id r h
    · split at h
      · cases h
      · exact ih id r h
    · dsimp only at h
      split at h <;> split at h
      · exact hfill (hfill (ih id)) r h
      · exact hfill (ih id) r h
      · exact hfill (ih id) r h
      · exact ih id r h
    · split at h
      · obtain ⟨x, hx, rfl⟩ := Option.map_eq_some_iff.mp h
        exact ih id x hx
      · exact ih id r h
    · exact ih id r h

theorem mem_allOrders {r : LiveBookOrder} :
    r ∈ allOrders kept (foldAll kept) ↔ (foldAll kept).orders r.orderId = some r := by
  unfold allOrders
  rw [List.mem_filterMap]
  constructor
  · rintro ⟨id, -, hr⟩
    rw [foldAll_orderId kept id r hr]
    exact hr
  · intro hr
    refine ⟨r.orderId, ?_, hr⟩
    rw [List.mem_dedup]
    by_contra hid
    rw [foldAll_before hid] at hr
    cases hr

theorem allOrders_eq_nil : allOrders kept (foldAll kept) = [] ↔
    ∀ id, (foldAll kept).orders id = none := by
  rw [List.eq_nil_iff_forall_not_mem]
  constructor
  · intro hnil id
    by_contra hne
    obtain ⟨r, hr⟩ := Option.ne_none_iff_exists'.mp hne
    have hid := foldAll_orderId kept id r hr
    subst hid
    exact hnil r (mem_allOrders.mpr hr)
  · intro hnone r hr
    rw [mem_allOrders, hnone] at hr
    cases hr

theorem foldRead_ok (h : Fits kept) : foldRead kept = .ok (allOrders kept (foldAll kept)) := by
  obtain ⟨f, hf⟩ := (foldEvents_fits kept).mpr h
  rw [foldRead, hf, foldEvents_ok hf]
  rfl

theorem foldRead_error (h : ¬Fits kept) : ∃ e, foldRead kept = .error e := by
  cases hf : foldEvents kept with
  | ok f => exact absurd ((foldEvents_fits kept).mp ⟨f, hf⟩) h
  | error e => exact ⟨e, by rw [foldRead, hf]; rfl⟩

theorem mem_sweptOrderIds {orders : List LiveBookOrder} :
    id ∈ (OrdersView.fromFold orders).sweptOrderIds ↔
      ∃ order ∈ orders, order.expiredByEvent = true ∧ order.orderId = id := by
  simp [OrdersView.fromFold, and_assoc]

section Window

variable (hs : Sound s) (hlog : events s.out = old ++ kept)
variable (ht : Trace (events s.out) (inView s) s.nextOrderId d)
include hs hlog ht

/-- The folded rows are what the note may count on when the window reaches back to its orders and no
order placed in it ended with a refund alone. -/
theorem folded_holds_iff :
    ViewHolds s note (OrdersView.fromFold (allOrders kept (foldAll kept))) ↔
      (∀ id, Live s id → (s.orders.get id).note = note → id ∈ placedIds kept) ∧
      ∀ id ∈ placedIds kept, ¬Open (events s.out) id := by
  rw [viewHolds_iff]
  apply and_congr
  · refine forall_congr' fun id => forall_congr' fun hlive => forall_congr' fun hnote => ?_
    constructor
    · rintro ⟨row, hrow, hid⟩
      obtain ⟨r, hr, rfl⟩ := List.mem_map.mp (List.mem_filter.mp hrow).1
      rw [mem_allOrders] at hr
      by_contra hplaced
      rw [show r.orderId = id from hid, foldAll_before hplaced] at hr
      cases hr
    · intro hplaced
      have hr := window_inView hlog ht (Live.inView hs hlive) hplaced
      refine ⟨snapshotRow (rowOf id (s.orders.get id).toTerms), ?_, rfl⟩
      unfold ownOrders
      rw [List.mem_filter, decide_eq_true_eq]
      exact ⟨List.mem_map_of_mem (mem_allOrders.mpr hr), hnote⟩
  · constructor
    · intro hpresent id hplaced hopen
      obtain ⟨r, hr, hexp, hnone⟩ := (window_open hlog ht).mpr ⟨hplaced, hopen⟩
      have hid := foldAll_orderId kept id r hr
      subst hid
      refine hpresent (snapshotRow r) (List.mem_map_of_mem (mem_allOrders.mpr hr)) ?_ hnone
      intro hswept
      obtain ⟨x, hx, hmark, hid⟩ := mem_sweptOrderIds.mp hswept
      rw [mem_allOrders, show x.orderId = r.orderId from hid, hr] at hx
      cases hx
      rw [hexp] at hmark
      cases hmark
    · intro hopen row hrow hswept hnone
      obtain ⟨r, hr, rfl⟩ := List.mem_map.mp hrow
      have hexp : r.expiredByEvent = false := by
        by_contra hmark
        exact hswept (mem_sweptOrderIds.mpr ⟨r, hr, Bool.not_eq_false _ ▸ hmark, rfl⟩)
      rw [mem_allOrders] at hr
      obtain ⟨hplaced, hleft⟩ := (window_open hlog ht).mp ⟨r, hr, hexp, hnone⟩
      exact hopen _ hplaced hleft

end Window

theorem folded_empty (hlog : events s.out = old ++ kept)
    (ht : Trace (events s.out) (inView s) s.nextOrderId d) :
    (allOrders kept (foldAll kept)).isEmpty ↔ Spent (events s.out) kept (inView s) := by
  rw [List.isEmpty_iff, allOrders_eq_nil]
  exact window_empty hlog ht

/-! ## Confirmed removals -/

theorem allOrders_find (id : ℕ) :
    (allOrders kept (foldAll kept)).find? (fun order => order.orderId = id) =
      (foldAll kept).orders id := by
  cases hfind : (allOrders kept (foldAll kept)).find? (fun order => order.orderId = id) with
  | some r =>
    have hid := List.find?_some hfind
    rw [decide_eq_true_eq] at hid
    have hmem := mem_allOrders.mp (List.mem_of_find?_eq_some hfind)
    rw [hid] at hmem
    exact hmem.symm
  | none =>
    cases hrow : (foldAll kept).orders id with
    | none => rfl
    | some r =>
      have hid := foldAll_orderId kept id r hrow
      subst hid
      have hnot := List.find?_eq_none.mp hfind r (mem_allOrders.mpr hrow)
      simp at hnot

/-- A turn that confirms saw the removal itself. -/
theorem removed_of_confirmed {earlier : List Observation} {o : Observation} {before : ℕ}
    {found : ℕ × ℕ} (hnone : reconcileOrderRemovalWith id before earlier = .ok none)
    (hfound : reconcileOrderRemovalWith id before (earlier ++ [o]) = .ok (some found)) :
    o.removed id = .ok true := by
  induction earlier with
  | nil =>
    rw [List.nil_append, reconcileOrderRemovalWith] at hfound
    split at hfound
    · cases hremoved : o.removed id with
      | error e =>
        rw [hremoved] at hfound
        cases hfound
      | ok removed =>
        cases removed with
        | true => rfl
        | false =>
          rw [hremoved] at hfound
          cases hbalance : o.balance with
          | error e =>
            rw [hbalance] at hfound
            cases hfound
          | ok balance =>
            rw [hbalance] at hfound
            cases hfound
    · cases hfound
  | cons e earlier ih =>
    rw [List.cons_append, reconcileOrderRemovalWith] at hfound
    rw [reconcileOrderRemovalWith] at hnone
    split at hfound
    · rename_i htime
      rw [if_pos htime] at hnone
      cases hremoved : e.removed id with
      | error err =>
        rw [hremoved] at hfound
        cases hfound
      | ok removed =>
        rw [hremoved] at hnone hfound
        cases hbalance : e.balance with
        | error err =>
          rw [hbalance] at hfound
          cases hfound
        | ok balance =>
          rw [hbalance] at hnone hfound
          cases removed with
          | true => cases hnone
          | false => exact ih hnone hfound
    · cases hfound

theorem removed_ok {o : Observation} (hfits : Fits kept) (hfolded : o.folded = foldRead kept)
    (hstored : o.stored = .ok (liveOrders s)) : o.removed id =
      .ok (match (foldAll kept).orders id with
        | some order => order.expiredByEvent
        | none => !(liveOrders s).any fun row => row.orderId = id) := by
  unfold Observation.removed
  rw [hfolded, foldRead_ok hfits, hstored]
  change (match (allOrders kept (foldAll kept)).find? (fun order => order.orderId = id) with
    | some order => Except.ok order.expiredByEvent
    | none => absenceIsConfirmedByStorage id (.ok (liveOrders s))) = _
  rw [allOrders_find]
  cases (foldAll kept).orders id <;> rfl

theorem stored_iff (hs : Sound s) (hexact : StorageExact s) :
    ((liveOrders s).any fun row => row.orderId = id) = true ↔ Live s id := by
  rw [List.any_eq_true]
  constructor
  · rintro ⟨row, hmem, hid⟩
    rw [decide_eq_true_eq] at hid
    exact hid ▸ liveOrders_sound hs hmem
  · intro hlive
    obtain ⟨row, hmem, hid, -⟩ := liveOrders_exact hs hexact hlive
    exact ⟨row, hmem, decide_eq_true hid⟩

/-- Storage settles a removal, but for an announced order that it does not hold yet. -/
theorem removal_holds_iff (hs : Sound s) (hexact : StorageExact s)
    (hlog : events s.out = old ++ kept)
    (ht : Trace (events s.out) (inView s) s.nextOrderId d) :
    RemovalHolds s kept ↔ ¬Fits kept ∨ ∀ id, Waiting s id → id ∈ placedIds kept := by
  by_cases hfits : Fits kept
  · rw [or_iff_right (not_not.mpr hfits)]
    constructor
    · rintro hholds id ⟨hview, hlive⟩
      by_contra hplaced
      let o : Observation := ⟨foldRead kept, .ok (liveOrders s), .ok 0, true⟩
      have hremoved : o.removed id = .ok true := by
        rw [removed_ok hfits rfl rfl, foldAll_before hplaced]
        have hnot := mt (stored_iff hs hexact).mp hlive
        rw [Bool.not_eq_true] at hnot
        simp only [hnot, Bool.not_false]
      refine hview (hholds [] o id 0 0 0 rfl rfl rfl ?_)
      rw [List.nil_append, reconcileOrderRemovalWith, hremoved]
      rfl
    · intro hplaced earlier o id before refund after hfolded hstored hnone hfound
      have hremoved := removed_of_confirmed hnone hfound
      rw [removed_ok hfits hfolded hstored] at hremoved
      by_contra hview
      obtain ⟨r, hr⟩ := Option.ne_none_iff_exists'.mp hview
      by_cases hid : id ∈ placedIds kept
      · rw [window_inView hlog ht hr hid] at hremoved
        have hexp := (ht.tallied.rows id r hr).2.1
        dsimp only at hremoved
        rw [hexp] at hremoved
        cases hremoved
      · have hlive : Live s id := by
          by_contra hlive
          exact hid (hplaced id ⟨hview, hlive⟩)
        rw [foldAll_before hid] at hremoved
        dsimp only at hremoved
        rw [(stored_iff hs hexact).mpr hlive] at hremoved
        cases hremoved
  · refine iff_of_true ?_ (.inl hfits)
    intro earlier o id before refund after hfolded _ hnone hfound
    have hremoved := removed_of_confirmed hnone hfound
    obtain ⟨e, he⟩ := foldRead_error hfits
    unfold Observation.removed at hremoved
    rw [hfolded, he] at hremoved
    cases hremoved

/-! ## The view and the window -/

theorem readLiveOrderSnapshot_error (hfits : ¬Fits kept) :
    readLiveOrderSnapshot s kept = .ok ⟨liveOrders s, .storage, []⟩ := by
  obtain ⟨e, he⟩ := foldRead_error hfits
  unfold readLiveOrderSnapshot
  rw [he]
  rfl

theorem readLiveOrderSnapshot_ok (hfits : Fits kept) : readLiveOrderSnapshot s kept =
    .ok (if (allOrders kept (foldAll kept)).isEmpty then ⟨liveOrders s, .storage, []⟩
      else OrdersView.fromFold (allOrders kept (foldAll kept))) := by
  unfold readLiveOrderSnapshot
  rw [foldRead_ok hfits]
  cases hrows : allOrders kept (foldAll kept) with
  | nil => rfl
  | cons r rows => rfl

/-- An owner's view is that of the book just when the window reaches back to each of the note's
resting orders and to an order still being matched, and shows none that ended with a refund alone;
or when nothing of it shows, or it cannot be read, and storage is asked. -/
theorem windowIndependent_iff (henv : Addressed env) (h : Reachable env s)
    (hexact : StorageExact s) (hlog : events s.out = old ++ kept) :
    WindowIndependent s kept note ↔ WindowSuffices s kept note := by
  have hm := reachable_mirrored henv h
  have hs := hm.regular.sound
  obtain ⟨d, ht⟩ := hm.traced
  unfold WindowIndependent WindowSuffices
  rw [removal_holds_iff hs hexact hlog ht]
  by_cases hfits : Fits kept
  · rw [or_iff_right (not_not.mpr hfits), or_iff_right (not_not.mpr hfits), and_comm]
    apply and_congr_right
    intro _
    rw [readLiveOrderSnapshot_ok hfits, ← folded_empty hlog ht, ← folded_holds_iff hs hlog ht]
    by_cases hempty : (allOrders kept (foldAll kept)).isEmpty = true
    · rw [if_pos hempty]
      exact iff_of_true ⟨_, rfl, liveOrders_holds hs hexact⟩ (.inl hempty)
    · rw [if_neg hempty, or_iff_right hempty]
      constructor
      · rintro ⟨view, hview, hholds⟩
        cases hview
        exact hholds
      · exact fun hholds => ⟨_, rfl, hholds⟩
  · refine iff_of_true ⟨⟨_, readLiveOrderSnapshot_error hfits, ?_⟩, .inl hfits⟩ (.inl hfits)
    exact liveOrders_holds hs hexact

/-! ## Two offers of one note -/

def slotReads (slot : ℕ × Terms) : Bool :=
  match orderbookOrderFromGetter slot.1 slot.2 with
  | .ok (some _) => true
  | _ => false

theorem storageExact_of_slots (hs : Sound s) (h : (orderbookSlots s).all slotReads = true) :
    StorageExact s := by
  intro id hlive
  have hslot := List.all_eq_true.mp h (id, (s.orders.get id).toTerms)
    ((mem_orderbookSlots hs).mpr ⟨hlive, rfl⟩)
  unfold slotReads at hslot
  dsimp only at hslot
  split at hslot
  · rename_i row hrow
    exact ⟨row, hrow⟩
  · cases hslot

/-- The offers of note `1002` rest, and the node has forgotten at most what came before them. -/
theorem windowIndependent_two : ∃ s, Reachable sampleEnv s ∧ s.orderCount = 2 ∧
    WindowIndependent s ((events s.out).drop 1) 1002 := by
  have hplay : (playedBook [sampleSell 1 2 5 0 20, sampleSell 2 3 5 0 20]).any (fun s =>
      decide (s.orderCount = 2) && decide (s.queue.keys = ∅) && (events s.out).all plain &&
        (orderbookSlots s).all slotReads &&
        decide (∀ id ∈ s.orders.keys, id ∈ placedIds ((events s.out).drop 1))) = true := by
    decide
  obtain ⟨s, hs, hp⟩ := playedBook_reachable hplay
  simp only [Bool.and_eq_true, decide_eq_true_eq] at hp
  obtain ⟨⟨⟨⟨hcount, hempty⟩, hplain⟩, hreads⟩, hplaced⟩ := hp
  have hsound := reachable_sound hs
  have hidle : inView s = resting s := by
    apply inView_idle
    rw [s.queue.absent _ (by simp [hempty])]
    rfl
  have hkeys : ∀ id, Live s id → id ∈ placedIds ((events s.out).drop 1) := fun id hlive =>
    hplaced id ((Linked.live_iff hsound.linked).mp hlive)
  have henv : Addressed sampleEnv := by
    intro k i
    simp [sampleEnv]
  refine ⟨s, hs, hcount, (windowIndependent_iff henv hs (storageExact_of_slots hsound hreads)
    (List.take_append_drop 1 _).symm).mpr (.inr ⟨?_, .inr ⟨fun id hlive _ => hkeys id hlive, ?_⟩⟩)⟩
  · rintro id ⟨hview, hlive⟩
    rw [hidle] at hview
    have hnone : resting s id = none := if_neg (mt (Linked.live_iff hsound.linked).mpr hlive)
    exact absurd hnone hview
  · exact fun id _ => closes_iff_open.mp (plain_sound hplain).2 id

/-- The node has forgotten the first of two offers: the note cannot cancel it. -/
theorem old_offer_refused : ¬ ∀ s, Reachable sampleEnv s → StorageExact s →
    ∀ old kept note, events s.out = old ++ kept → WindowIndependent s kept note := by
  have hplay : (playedBook [sampleSell 1 2 5 0 20, sampleSell 2 3 5 0 20]).any (fun s =>
      decide ((s.orders.get 1).amount ≠ 0 ∧ (s.orders.get 1).note = 1002) &&
        (orderbookSlots s).all slotReads &&
        match readLiveOrderSnapshot s ((events s.out).drop 2) with
        | .ok view => decide (view.orders.length = 1) &&
          (findOrder (ownOrders view.orders 1002) 1).isNone
        | .error _ => false) = true := by
    decide
  obtain ⟨s, hs, hp⟩ := playedBook_reachable hplay
  simp only [Bool.and_eq_true, decide_eq_true_eq] at hp
  obtain ⟨⟨⟨hlive, hnote⟩, hreads⟩, hview⟩ := hp
  intro hall
  obtain ⟨⟨view, hread, hholds⟩, -⟩ := hall s hs (storageExact_of_slots (reachable_sound hs) hreads)
    _ _ 1002 (List.take_append_drop 2 _).symm
  rw [hread] at hview
  simp only [Bool.and_eq_true, Option.isNone_iff_eq_none] at hview
  obtain ⟨row, hrow⟩ := hholds.cancels 1 hlive hnote 0
  rw [cancelTarget, hview.2] at hrow
  cases hrow

end OwnerOrders
