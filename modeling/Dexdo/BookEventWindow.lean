import Dexdo.BookEvents

/-! # The event fold over a window of the log

A node serves only the newest events. -/
namespace BookEventWindow

open TokenContractState hiding Out Err Sent
open InferenceOrderBookState BookEvents

variable {l old kept : List Out} {v : View} {n id : ℕ} {d : List ℕ} {f g : BookEventFold}

/-! ## One row -/

/-- What an event makes of the row of an order. -/
def rowAfter (id : ℕ) (row : Option LiveBookOrder) (o : Out) : Option LiveBookOrder :=
  match eventOf o with
  | some (.placed order) => if order.orderId = id then some order else row
  | some (.cancelled orderId) => if orderId = id then none else row
  | some (.filled makerId takerId ticks) =>
    let row := if makerId = id then row.bind (fillRow ticks) else row
    if takerId = id then row.bind (fillRow ticks) else row
  | some (.expired orderId _ _ _) =>
    if orderId = id then row.map fun order => { order with expiredByEvent := true } else row
  | _ => row

theorem fill_row (f : BookEventFold) (orderId k id : ℕ) : (f.fill orderId k).orders id =
    if orderId = id then (f.orders id).bind (fillRow k) else f.orders id := by
  rw [fill_orders]
  by_cases h : orderId = id
  · subst h
    rw [Function.update_self, if_pos rfl]
  · rw [Function.update_of_ne (Ne.symm h), if_neg h]

theorem readEvent_row (f : BookEventFold) (o : Out) (id : ℕ) :
    (readEvent f o).orders id = rowAfter id (f.orders id) o := by
  have hupdate : ∀ (orderId : ℕ) (x : ℕ → Option LiveBookOrder),
      Function.update f.orders orderId (x orderId) id =
        if orderId = id then x id else f.orders id := by
    intro orderId x
    by_cases h : orderId = id
    · subst h
      rw [Function.update_self, if_pos rfl]
    · rw [Function.update_of_ne (Ne.symm h), if_neg h]
  unfold readEvent rowAfter
  cases he : eventOf o with
  | none => rfl
  | some event =>
    cases event with
    | placed order => exact hupdate order.orderId fun _ => some order
    | cancelled orderId => exact hupdate orderId fun _ => none
    | cancelRejected orderId reason note => rfl
    | filled makerId takerId ticks =>
      change ((f.fill makerId ticks).fill takerId ticks).orders id = _
      rw [fill_row, fill_row]
    | expired orderId isBuy note tokenContract =>
      exact hupdate orderId fun i => (f.orders i).map fun order => { order with expiredByEvent := true }

theorem foldl_row (log : List Out) (f : BookEventFold) (id : ℕ) :
    (log.foldl readEvent f).orders id = log.foldl (rowAfter id) (f.orders id) := by
  induction log generalizing f with
  | nil => rfl
  | cons o log ih =>
    rw [List.foldl_cons, List.foldl_cons, ih, readEvent_row]

/-! ## Where the window begins -/

def placedIds (log : List Out) : List ℕ :=
  log.filterMap fun
    | .inferenceOrderPlaced orderId _ _ _ _ _ _ _ => some orderId
    | _ => none

theorem mem_placedIds : id ∈ placedIds l ↔ ∃ isBuy price ticks note tc deadline flags,
    Out.inferenceOrderPlaced id isBuy price ticks note tc deadline flags ∈ l := by
  unfold placedIds
  rw [List.mem_filterMap]
  constructor
  · rintro ⟨o, hmem, ho⟩
    cases o with
    | inferenceOrderPlaced => cases ho; exact ⟨_, _, _, _, _, _, _, hmem⟩
    | _ => cases ho
  · rintro ⟨isBuy, price, ticks, note, tc, deadline, flags, hmem⟩
    exact ⟨_, hmem, rfl⟩

theorem rowAfter_placed {isBuy : Bool} {price ticks deadline flags : ℕ} {note tc : Address}
    (r r' : Option LiveBookOrder) :
    rowAfter id r (.inferenceOrderPlaced id isBuy price ticks note tc deadline flags) =
      rowAfter id r' (.inferenceOrderPlaced id isBuy price ticks note tc deadline flags) := by
  simp [rowAfter, eventOf]

theorem foldl_row_forgets (h : id ∈ placedIds l) (r r' : Option LiveBookOrder) :
    l.foldl (rowAfter id) r = l.foldl (rowAfter id) r' := by
  obtain ⟨isBuy, price, ticks, note, tc, deadline, flags, hmem⟩ := mem_placedIds.mp h
  obtain ⟨a, b, rfl⟩ := List.append_of_mem hmem
  rw [List.foldl_append, List.foldl_append, List.foldl_cons, List.foldl_cons]
  exact congrArg (b.foldl (rowAfter id)) (rowAfter_placed _ _)

theorem foldl_row_absent (h : id ∉ placedIds l) : l.foldl (rowAfter id) none = none := by
  induction l with
  | nil => rfl
  | cons o l ih =>
    have htail : id ∉ placedIds l := by
      intro hmem
      obtain ⟨isBuy, price, ticks, note, tc, deadline, flags, hmem⟩ := mem_placedIds.mp hmem
      exact h (mem_placedIds.mpr ⟨_, _, _, _, _, _, _, List.mem_cons_of_mem _ hmem⟩)
    have hhead : rowAfter id none o = none := by
      unfold rowAfter
      cases o with
      | inferenceOrderPlaced orderId =>
        have hne : orderId ≠ id := by
          rintro rfl
          exact h (mem_placedIds.mpr ⟨_, _, _, _, _, _, _, List.mem_cons_self ..⟩)
        simp [eventOf, hne]
      | _ => simp [eventOf]
    rw [List.foldl_cons, hhead]
    exact ih htail

theorem foldAll_window (old : List Out) (h : id ∈ placedIds kept) :
    (foldAll kept).orders id = (foldAll (old ++ kept)).orders id := by
  unfold foldAll
  rw [List.foldl_append, foldl_row, foldl_row]
  exact foldl_row_forgets h _ _

theorem foldAll_before (h : id ∉ placedIds kept) : (foldAll kept).orders id = none := by
  unfold foldAll
  rw [foldl_row]
  exact foldl_row_absent h

/-! ## Orders called expired -/

def CalledExpired (log : List Out) (id : ℕ) : Prop :=
  ∃ side note tc, Out.inferenceOrderExpired id side note tc ∈ log

def Marked (row : Option LiveBookOrder) : Prop := ∃ r, row = some r ∧ r.expiredByEvent = true

theorem foldAll_row (l : List Out) (o : Out) (id : ℕ) :
    (foldAll (l ++ [o])).orders id = rowAfter id ((foldAll l).orders id) o := by
  rw [foldAll_snoc, readEvent_row]

structure Marks (l : List Out) (n : ℕ) : Prop where
  marked : ∀ id, Marked ((foldAll l).orders id) ↔ CalledExpired l id
  fresh : ∀ id, n ≤ id → (foldAll l).orders id = none

theorem Marks.snoc {o : Out} {n' : ℕ} (h : Marks l n)
    (ho : ∀ id side note tc, o ≠ .inferenceOrderExpired id side note tc)
    (hrow : ∀ id, Marked (rowAfter id ((foldAll l).orders id) o) ↔ Marked ((foldAll l).orders id))
    (hfresh : ∀ id, n' ≤ id → rowAfter id ((foldAll l).orders id) o = none) :
    Marks (l ++ [o]) n' := by
  constructor
  · intro id
    rw [foldAll_row, hrow, h.marked]
    constructor
    · rintro ⟨side, note, tc, hmem⟩
      exact ⟨side, note, tc, List.mem_append_left _ hmem⟩
    · rintro ⟨side, note, tc, hmem⟩
      rcases List.mem_append.mp hmem with hmem | hmem
      · exact ⟨side, note, tc, hmem⟩
      · exact absurd (List.mem_singleton.mp hmem).symm (ho id side note tc)
  · intro id hid
    rw [foldAll_row, hfresh id hid]

theorem Marks.still {o : Out} (h : Marks l n)
    (ho : ∀ id side note tc, o ≠ .inferenceOrderExpired id side note tc)
    (hrow : ∀ id row, rowAfter id row o = row) : Marks (l ++ [o]) n := by
  apply h.snoc ho
  · intro id
    rw [hrow]
  · intro id hid
    rw [hrow, h.fresh id hid]

theorem Trace.unmarked (h : Trace l v n d) {r : LiveBookOrder} (hr : v id = some r) :
    ¬Marked ((foldAll l).orders id) ∧ id < n := by
  obtain ⟨-, hexp, hlt, -, -⟩ := h.tallied.rows id r hr
  refine ⟨?_, hlt⟩
  rintro ⟨x, hx, hmark⟩
  rw [h.holds.inView id r hr] at hx
  cases hx
  rw [hexp] at hmark
  cases hmark

theorem Trace.marks (h : Trace l v n d) : Marks l n := by
  induction h with
  | start n =>
    refine ⟨fun id => ?_, fun id _ => rfl⟩
    constructor
    · rintro ⟨r, hr, -⟩
      cases hr
    · rintro ⟨side, note, tc, hmem⟩
      cases hmem
  | idle o _ ho ih =>
    apply ih.still
    · rintro id side note tc rfl
      cases ho
    · intro id row
      cases o <;> first | rfl | cases ho
  | @place l v n d r htrace hid hexp _ _ ih =>
    have hrow : ∀ id row, rowAfter id row (announce r) = if r.orderId = id then some r else row := by
      intro id row
      have hr : r = ⟨r.orderId, r.isBuy, r.price, r.ticksRemaining, r.note, r.tokenContract,
          r.deadline, r.flags, false⟩ := by rw [← hexp]
      exact congrArg (fun x => if r.orderId = id then some x else row) hr.symm
    apply ih.snoc (by simp [announce])
    · intro id
      rw [hrow]
      by_cases hne : r.orderId = id
      · rw [if_pos hne, ih.fresh id (by omega)]
        simp [Marked, hexp]
      · rw [if_neg hne]
    · intro id hlt
      rw [hrow, if_neg (by omega), ih.fresh id (by omega)]
  | @fill l v n d m t k c tc bn sn a b htrace hm ht _ _ _ ih =>
    obtain ⟨hmaker, hmlt⟩ := Trace.unmarked htrace hm
    obtain ⟨htaker, htlt⟩ := Trace.unmarked htrace ht
    have hkept : ∀ row, ¬Marked row → ¬Marked (row.bind (fillRow k)) := by
      rintro row hrow ⟨x, hx, hmark⟩
      obtain ⟨r, rfl, hr⟩ := Option.bind_eq_some_iff.mp hx
      unfold fillRow at hr
      split_ifs at hr
      cases hr
      exact hrow ⟨r, rfl, hmark⟩
    apply ih.snoc (by simp)
    · intro id
      simp only [rowAfter, eventOf]
      by_cases hidm : m = id <;> by_cases hidt : t = id
      · subst hidm
        simp only [if_pos hidt, if_true]
        exact iff_of_false (hkept _ (hkept _ hmaker)) hmaker
      · subst hidm
        simp only [if_neg hidt, if_true]
        exact iff_of_false (hkept _ hmaker) hmaker
      · subst hidt
        simp only [if_neg hidm, if_true]
        exact iff_of_false (hkept _ htaker) htaker
      · simp only [if_neg hidm, if_neg hidt]
    · intro id hlt
      simp only [rowAfter, eventOf]
      rw [if_neg (by omega), if_neg (by omega), ih.fresh id hlt]
  | @cancel l v n d i refunded note htrace hi ih =>
    obtain ⟨r, hr⟩ := Option.ne_none_iff_exists'.mp hi
    obtain ⟨hunmarked, hlt⟩ := Trace.unmarked htrace hr
    apply ih.snoc (by simp)
    · intro id
      simp only [rowAfter, eventOf]
      by_cases hne : i = id
      · subst hne
        rw [if_pos rfl]
        exact iff_of_false (by simp [Marked]) hunmarked
      · rw [if_neg hne]
    · intro id hid
      simp only [rowAfter, eventOf]
      rw [if_neg (by omega), ih.fresh id hid]
  | @expire l v n d i paid side note tc htrace hi hpaid ih =>
    obtain ⟨r, hr⟩ := Option.ne_none_iff_exists'.mp hi
    have hrow := htrace.holds.inView i r hr
    have hlt := (Trace.unmarked htrace hr).2
    have hpre : Marks (l ++ paid) n ∧ foldAll (l ++ paid) = foldAll l := by
      rcases hpaid with rfl | ⟨amount, rfl⟩
      · rw [List.append_nil]
        exact ⟨ih, rfl⟩
      · exact ⟨ih.still (by simp) fun _ _ => rfl, foldAll_snoc _ _⟩
    obtain ⟨hmarks, hsame⟩ := hpre
    rw [← List.append_assoc]
    constructor
    · intro id
      rw [foldAll_row]
      simp only [rowAfter, eventOf]
      by_cases hne : i = id
      · subst hne
        rw [if_pos rfl, hsame, hrow]
        exact iff_of_true ⟨_, rfl, rfl⟩ ⟨side, note, tc, by simp⟩
      · rw [if_neg hne, hmarks.marked]
        unfold CalledExpired
        simp [Ne.symm hne]
    · intro id hid
      rw [foldAll_row]
      simp only [rowAfter, eventOf]
      rw [if_neg (by omega), hmarks.fresh id hid]
  | drop id note amount _ _ ih => exact ih.still (by simp) fun _ _ => rfl
  | spare id note amount _ _ ih => exact ih.still (by simp) fun _ _ => rfl

/-! ## What a window shows -/

variable (hlog : l = old ++ kept) (h : Trace l v n d)
include hlog h

theorem window_inView {r : LiveBookOrder} (hr : v id = some r) (hid : id ∈ placedIds kept) :
    (foldAll kept).orders id = some r := by
  rw [foldAll_window old hid, ← hlog]
  exact h.holds.inView id r hr

theorem window_open : (∃ r, (foldAll kept).orders id = some r ∧ r.expiredByEvent = false ∧
    v id = none) ↔ id ∈ placedIds kept ∧ Open l id := by
  by_cases hid : id ∈ placedIds kept
  · rw [foldAll_window old hid, ← hlog, ← h.open_iff]
    constructor
    · rintro ⟨r, hr, hexp, hnone⟩
      refine ⟨hid, ?_⟩
      by_contra hd
      rw [h.holds.gone id hnone hd r hr] at hexp
      cases hexp
    · rintro ⟨-, hd⟩
      obtain ⟨r, hr, hexp⟩ := h.holds.dropped id hd
      exact ⟨r, hr, hexp, (h.tallied.dropped id hd).2⟩
  · rw [foldAll_before hid]
    simp [hid]

def Spent (l kept : List Out) (v : View) : Prop :=
  ∀ id ∈ placedIds kept, v id = none ∧ ¬Open l id ∧ ¬CalledExpired l id

theorem window_empty : (∀ id, (foldAll kept).orders id = none) ↔ Spent l kept v := by
  constructor
  · intro hempty id hid
    have hrow := hempty id
    refine ⟨?_, ?_, ?_⟩
    · by_contra hne
      obtain ⟨r, hr⟩ := Option.ne_none_iff_exists'.mp hne
      rw [window_inView hlog h hr hid] at hrow
      cases hrow
    · intro hopen
      obtain ⟨r, hr, -⟩ := (window_open hlog h).mpr ⟨hid, hopen⟩
      rw [hrow] at hr
      cases hr
    · intro hexp
      obtain ⟨r, hr, -⟩ := ((Trace.marks h).marked id).mpr hexp
      rw [foldAll_window old hid, ← hlog, hr] at hrow
      cases hrow
  · intro hspent id
    by_contra hne
    obtain ⟨r, hr⟩ := Option.ne_none_iff_exists'.mp hne
    by_cases hid : id ∈ placedIds kept
    · obtain ⟨hnone, hopen, hexp⟩ := hspent id hid
      cases hmark : r.expiredByEvent with
      | false => exact hopen ((window_open hlog h).mp ⟨r, hr, hmark, hnone⟩).2
      | true =>
        rw [foldAll_window old hid, ← hlog] at hr
        exact hexp (((Trace.marks h).marked id).mp ⟨r, hr, hmark⟩)
    · exact hne (foldAll_before hid)

end BookEventWindow
