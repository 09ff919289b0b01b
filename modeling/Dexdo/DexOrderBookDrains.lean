import Dexdo.DexOrderBookPriceTime

/-! # Draining a placement over several calls

A placement that meets the cap of a call waits at the head with its rest. -/
namespace DexOrderBookDrains

open TokenContractState (Address u64 u128)
open SolidityMapping CircularWindow CappedWalk DexOrderBookState DexOrderBookCalls
open DexOrderBookLists DexOrderBookMatching DexOrderBookStructure DexOrderBookPriceTime

variable {env : Env} {s t u v : Book} {e : QueueEntry} {k : Taker} {tx : Tx}

/-! ## The book a call hands to `_processHeadCore` -/

def marked (r : Book × Bool) : Book :=
  if r.2 then { r.1 with
    queue := r.1.queue.modify (lastSlot r.1) fun q => { q with isBatchEnd := true } }
  else r.1

/-- The entries of an `executeBatch` on the book it finds. -/
def batched (depositHash : ℕ) (orders : List PlaceParams) (cancelIds : List ℕ) (opNonce : ℕ)
    (s : Book) : Book × Bool :=
  let s := { s with admitted := s.admitted ++ [⟨depositHash, opNonce, orders⟩] }
  submitPlaces depositHash opNonce s.admitted.length 0 orders
    (submitCancels depositHash opNonce s.admitted.length cancelIds (s, false))

def cancelled (depositHash opNonce : ℕ) (s : Book) : Book × Bool :=
  let s := { s with admitted := s.admitted ++ [⟨depositHash, opNonce, []⟩] }
  submitCancel .cancelAll depositHash 0 opNonce s.admitted.length s

/-- What an accepted call hands over, if it runs the head at all. -/
def handed (tx : Tx) (s : Book) : Option Book :=
  match tx.call with
  | .executeBatch h o c n => some (marked (batched h o c n (enter tx.msg s)))
  | .cancelAllOrders h n => some (marked (cancelled h n (enter tx.msg s)))
  | .processHead => some (enter tx.msg s)
  | _ => none

/-- Nothing trades from `s` to `t`, and the head stays up to the mark of its batch. -/
structure Calm (s t : Book) : Prop where
  linked : Linked s → Linked t
  orders : t.orders = s.orders
  levels : t.levels = s.levels
  events : fillEvents t = fillEvents s
  shuttingDown : t.shuttingDown = s.shuttingDown
  destroyed : t.destroyed = s.destroyed
  head : s.queueSize ≠ 0 → t.queueSize ≠ 0 ∧ ∃ b, t.queue.get t.queueHead =
    { s.queue.get s.queueHead with isBatchEnd := b }

theorem Calm.refl : Calm s s := ⟨id, rfl, rfl, rfl, rfl, rfl, fun hs => ⟨hs, _, rfl⟩⟩

theorem Calm.trans (h : Calm s t) (h' : Calm t u) : Calm s u := by
  refine ⟨fun hl => h'.linked (h.linked hl), h'.orders.trans h.orders, h'.levels.trans h.levels,
    h'.events.trans h.events, h'.shuttingDown.trans h.shuttingDown,
    h'.destroyed.trans h.destroyed, fun hs => ?_⟩
  obtain ⟨ht, b, hb⟩ := h.head hs
  obtain ⟨hu, b', hb'⟩ := h'.head ht
  refine ⟨hu, b', ?_⟩
  rw [hb', hb]

theorem Calm.of_quiet (hq : Quiet s t) (hev : fillEvents t = fillEvents s) : Calm s t := by
  have hqueue : t.queue = s.queue := by rw [hq]
  have hhead : t.queueHead = s.queueHead := by rw [hq]
  have hsize : t.queueSize = s.queueSize := by rw [hq]
  refine ⟨hq.linked, hq.orders, hq.levels, hev, by rw [hq], by rw [hq], fun hs => ?_⟩
  rw [hsize, hqueue, hhead]
  exact ⟨hs, _, rfl⟩

theorem fillEvents_answer {c i : ℕ} {o : Out} (h : fillEvent o = none) :
    fillEvents (s.answer c i o) = fillEvents s := by
  unfold fillEvents Book.answer
  rw [List.filterMap_append]
  simp [h]

theorem answer_calm {c i : ℕ} {o : Out} (h : fillEvent o = none) : Calm s (s.answer c i o) :=
  .of_quiet answer_quiet (fillEvents_answer h)

theorem send_calm {o : Out} (h : fillEvent o = none) : Calm s (s.send o) := answer_calm h

theorem check_calm {c : Prop} [Decidable c] : Calm s (s.check c) := .of_quiet check_quiet rfl

theorem enqueue_calm (h : Sound s) (hs : s.queueSize < queueCapacity) : Calm s (enqueue e s) := by
  refine Calm.trans (t := { s.check (s.nextQueueId + 1 < u32) with
    nextQueueId := s.nextQueueId + 1
    queue := s.queue.set s.queueTail { e with queueId := s.nextQueueId }
    queueTail := (s.queueTail + 1) % queueCapacity
    queueSize := s.queueSize + 1 }) ?_ (send_calm rfl)
  refine ⟨fun hl => { hl with }, rfl, rfl, rfl, rfl, rfl, fun hne =>
    ⟨Nat.succ_ne_zero _, (s.queue.get s.queueHead).isBatchEnd, ?_⟩⟩
  have hslot : s.queueHead ≠ s.queueTail := by
    intro heq
    exact h.window.tail_notMem hs (heq ▸ h.window.head_mem hne)
  exact Mapping.get_set_ne hslot

theorem submitPlace_calm {d n c i : ℕ} {op : PlaceParams} (h : Sound s) :
    Calm s (submitPlace d n c i op s).1 := by
  unfold submitPlace
  split
  · split
    · rename_i hsize
      exact enqueue_calm h (hsize.trans (by decide))
    · exact (send_calm rfl).trans (answer_calm rfl)
  · exact (send_calm rfl).trans (answer_calm rfl)

theorem submitCancel_calm {kind : EntryType} {d id n c : ℕ} (h : Sound s) :
    Calm s (submitCancel kind d id n c s).1 := by
  unfold submitCancel
  split
  · rename_i hsize
    exact enqueue_calm h hsize
  · exact send_calm rfl

theorem submitCancels_calm {d n c : ℕ} : ∀ (l : List ℕ) (r : Book × Bool), Sound r.1 →
    Calm r.1 (submitCancels d n c l r).1 := by
  intro l
  induction l with
  | nil =>
    intro r _
    exact .refl
  | cons id l ih =>
    intro r h
    have hs : Sound (submitCancel .cancel d id n c r.1).1 := submitCancel_sound h (.inl rfl)
    exact Calm.trans (submitCancel_calm h)
      (ih ((submitCancel .cancel d id n c r.1).1, r.2 || (submitCancel .cancel d id n c r.1).2) hs)

theorem submitPlaces_calm {d n c : ℕ} : ∀ (l : List PlaceParams) (i : ℕ) (r : Book × Bool),
    Sound r.1 → Calm r.1 (submitPlaces d n c i l r).1 := by
  intro l
  induction l with
  | nil =>
    intro i r _
    exact .refl
  | cons op l ih =>
    intro i r h
    have hs : Sound (submitPlace d n c i op r.1).1 := submitPlace_sound h
    exact Calm.trans (submitPlace_calm h)
      (ih (i + 1) ((submitPlace d n c i op r.1).1, r.2 || (submitPlace d n c i op r.1).2) hs)

theorem marked_calm {r : Book × Bool} : Calm r.1 (marked r) := by
  unfold marked
  split
  · refine ⟨fun hl => { hl with }, rfl, rfl, rfl, rfl, rfl, fun hs => ⟨hs, ?_⟩⟩
    by_cases hslot : r.1.queueHead = lastSlot r.1
    · refine ⟨true, ?_⟩
      dsimp only
      rw [hslot, Mapping.get_modify]
    · refine ⟨(r.1.queue.get r.1.queueHead).isBatchEnd, ?_⟩
      dsimp only
      rw [Mapping.get_modify_ne hslot]
  · exact .refl

theorem marked_sound {r : Book × Bool} (h : Flagged r) : Sound (marked r) := by
  unfold marked
  split
  · rename_i hr
    exact markEnd_sound h.1 (lastSlot_mem h.1 (h.2 hr))
  · exact h.1

theorem batched_flagged {d n : ℕ} {o : List PlaceParams} {c : List ℕ} (h : Sound s) :
    Flagged (batched d o c n s) :=
  submitPlaces_flagged _ _ _ (submitCancels_flagged _ _ ⟨h.with_admitted, fun hf => nomatch hf⟩)

theorem cancelled_flagged {d n : ℕ} (h : Sound s) : Flagged (cancelled d n s) :=
  ⟨submitCancel_sound h.with_admitted (.inr rfl), submitCancel_size.2⟩

theorem admit_calm {a : List Admitted} : Calm s { s with admitted := a } :=
  ⟨fun hl => { hl with }, rfl, rfl, rfl, rfl, rfl, fun hs => ⟨hs, _, rfl⟩⟩

theorem batched_calm {d n : ℕ} {o : List PlaceParams} {c : List ℕ} (h : Sound s) :
    Calm s (batched d o c n s).1 := by
  unfold batched
  dsimp only
  refine Calm.trans (admit_calm (a := s.admitted ++ [⟨d, n, o⟩])) ?_
  refine Calm.trans ?_ (submitPlaces_calm o 0 _ (submitCancels_sound c (_, false) h.with_admitted))
  exact submitCancels_calm c (_, false) h.with_admitted

theorem cancelled_calm {d n : ℕ} (h : Sound s) : Calm s (cancelled d n s).1 :=
  Calm.trans admit_calm (submitCancel_calm h.with_admitted)

theorem closeBatch_told {d n c : ℕ} {r : Book × Bool} :
    Quiet (processHeadCore (marked r)) (closeBatch d n c r) ∧
      fillEvents (closeBatch d n c r) = fillEvents (processHeadCore (marked r)) := by
  unfold closeBatch marked
  split
  · exact ⟨rfl, rfl⟩
  · exact ⟨answer_quiet, fillEvents_answer rfl⟩

theorem enter_sound {m : Msg} (h : Sound s) : Sound (enter m s) :=
  ⟨{ h.linked with }, h.window, h.next_ne, h.ids, h.cont, h.apart⟩

theorem enter_calm {m : Msg} : Calm s (enter m s) :=
  ⟨fun hl => { hl with }, rfl, rfl, rfl, rfl, rfl, fun hs => ⟨hs, _, rfl⟩⟩

/-- An accepted call that runs the head. -/
theorem perform_handed (h : Sound s) (hp : perform env tx s = .ok t)
    (hu : handed tx s = some u) :
    s.destroyed = false ∧ Sound u ∧ Calm s u ∧ Quiet (processHeadCore u) t ∧
      fillEvents t = fillEvents (processHeadCore u) := by
  simp only [perform, require_bind_ok] at hp
  obtain ⟨hd, -, hp⟩ := hp
  refine ⟨hd, ?_⟩
  have hsound := enter_sound (m := tx.msg) h
  unfold handed at hu
  cases hc : tx.call with
  | executeBatch d o c n =>
    rw [hc] at hp hu
    simp only [dispatch, executeBatch, require_bind_ok] at hp
    obtain ⟨-, -, -, -, -, hp⟩ := hp
    cases hp
    cases hu
    exact ⟨marked_sound (batched_flagged hsound),
      (enter_calm.trans (batched_calm hsound)).trans marked_calm, closeBatch_told⟩
  | cancelAllOrders d n =>
    rw [hc] at hp hu
    simp only [dispatch, cancelAllOrders, require_bind_ok] at hp
    obtain ⟨-, -, -, hp⟩ := hp
    cases hp
    cases hu
    exact ⟨marked_sound (cancelled_flagged hsound),
      (enter_calm.trans (cancelled_calm hsound)).trans marked_calm, closeBatch_told⟩
  | processHead =>
    rw [hc] at hp hu
    cases hp
    cases hu
    exact ⟨hsound, enter_calm, rfl, rfl⟩
  | shutdown =>
    rw [hc] at hu
    cases hu
  | setResultStart r =>
    rw [hc] at hu
    cases hu
  | onBounce =>
    rw [hc] at hu
    cases hu

/-- Any other call leaves a head that is there alone. -/
theorem perform_other (hp : perform env tx s = .ok t) (hu : handed tx s = none)
    (hs : s.queueSize ≠ 0) (hd : s.shuttingDown = false) : Calm s t := by
  simp only [perform, require_bind_ok] at hp
  obtain ⟨-, -, hp⟩ := hp
  refine Calm.trans (enter_calm (m := tx.msg)) ?_
  unfold handed at hu
  cases hc : tx.call with
  | executeBatch d o c n =>
    rw [hc] at hu
    cases hu
  | cancelAllOrders d n =>
    rw [hc] at hu
    cases hu
  | processHead =>
    rw [hc] at hu
    cases hu
  | shutdown =>
    rw [hc] at hp
    simp only [dispatch, shutdown, require_bind_ok] at hp
    obtain ⟨-, hp⟩ := hp
    rw [if_pos ⟨Nat.pos_of_ne_zero hs, hd⟩] at hp
    cases hp
    exact ⟨fun hl => { hl with }, rfl, rfl, rfl, rfl, rfl, fun hs => ⟨hs, _, rfl⟩⟩
  | setResultStart r =>
    rw [hc] at hp
    simp only [dispatch, setResultStart, require_bind_ok] at hp
    obtain ⟨-, -, -, hp⟩ := hp
    cases hp
    exact ⟨fun hl => { hl with }, rfl, rfl, rfl, rfl, rfl, fun hs => ⟨hs, _, rfl⟩⟩
  | onBounce =>
    rw [hc] at hp
    cases hp
    exact send_calm rfl

/-! ## One turn of a match -/

def headOf (s : Book) : QueueEntry := s.queue.get s.queueHead

def Waits (k : Taker) (s : Book) : Prop :=
  s.queueSize ≠ 0 ∧ Places (headOf s) ∧ (headOf s).targetOrderId = k.orderId

/-- A head that goes on as the taker `k` with `r` left, and the makers it will meet. -/
structure Waiting (k : Taker) (r : ℕ) (l : List Maker) (s : Book) : Prop where
  numbered : k.orderId ≠ 0
  sound : Sound s
  running : s.shuttingDown = false
  alive : s.destroyed = false
  waits : Waits k s
  checked : (headOf s).precheckDone = true
  taker : takerOf k.orderId (headOf s) = { k with amount := r }
  line : Line k s l

variable {r : ℕ} {l : List Maker} {T : Tally Maker}

theorem Waiting.calm (h : Waiting k r l s) (hc : Calm s t) (ht : Sound t) : Waiting k r l t := by
  obtain ⟨hs, hp, htarget⟩ := h.waits
  obtain ⟨hsize, b, hb⟩ := hc.head hs
  have hhead : headOf t = { headOf s with isBatchEnd := b } := hb
  refine ⟨h.numbered, ht, hc.shuttingDown.trans h.running, hc.destroyed.trans h.alive, ⟨hsize, ?_, ?_⟩, ?_, ?_,
    h.line.of_orders hc.orders⟩
  · rw [hhead]
    exact hp
  · rw [hhead]
    exact htarget
  · rw [hhead]
    exact h.checked
  · rw [hhead]
    exact h.taker

theorem Waits.of_quiet (h : Waits k t) (hq : Quiet s t) : Waits k s := by
  unfold Waits headOf at h ⊢
  rw [hq] at h
  exact h

/-- What a turn along the walk `T` comes to. -/
structure Turned (k : Taker) (T : Tally Maker) (s t : Book) : Prop where
  events : fillEvents t = fillEvents s ++ T.fills.flatMap (legs k.orderId)
  capped : T.stop = .capped → Waiting k T.remaining T.makers t
  left : T.stop ≠ .capped → ¬ Waits k t

theorem insertIntoBook_out {id : ℕ} {o : Order} : (insertIntoBook id o s).out = s.out := rfl

theorem priced_events {b : Bool} {p a : ℕ} : fillEvents (Book.priced s b p a) = fillEvents s := by
  unfold Book.priced
  split <;> rfl

theorem sayCancelled_events {n i o : ℕ} {b : Bool} {a c m : ℕ} :
    fillEvents (sayCancelled n i o b a c m s) = fillEvents s := by
  unfold sayCancelled
  exact (fillEvents_answer rfl).trans (fillEvents_answer rfl)

theorem cancelNoBookEntry_events {a : ℕ} :
    fillEvents (cancelNoBookEntry k a s) = fillEvents s := by
  unfold cancelNoBookEntry
  rw [sayCancelled_events]
  split
  · rfl
  · exact priced_events

theorem finishPlace_events {w : Progress} : fillEvents (finishPlace k w) = fillEvents w.book := by
  have hrest : fillEvents (if w.remaining > 0 then
      if k.flags &&& flagIoc ≠ 0 ∨ k.flags &&& flagFok ≠ 0 ∨ k.isMarket then
        cancelNoBookEntry k w.remaining w.book
      else insertIntoBook k.orderId (restingOrder k w.remaining w.filledAccum) w.book
      else w.book) = fillEvents w.book := by
    split
    · split
      · exact cancelNoBookEntry_events
      · rfl
    · rfl
  unfold finishPlace
  dsimp only
  split
  · split
    · rw [← hrest]
      exact fillEvents_answer rfl
    · rw [← hrest]
      exact fillEvents_answer rfl
  · exact hrest

/-- The run of the match as the capped walk `T`. -/
structure Ran (k : Taker) (T : Tally Maker) (s : Book) (p : Book × Option Cont) : Prop where
  events : fillEvents p.1 = fillEvents s ++ T.fills.flatMap (legs k.orderId)
  capped : T.stop = .capped → Frame s p.1 ∧ Line k p.1 T.makers ∧
    ∃ c, p.2 = some c ∧ c.orderId = k.orderId ∧ c.remaining = T.remaining ∧ c.precheckDone = true
  left : T.stop ≠ .capped → p.2 = none

theorem runMatch_ran {f : ℕ} (h : Linked s) (hl : Line k s l) :
    Ran k (walk (rule k) maxMatchesPerCall [] l k.amount []) s (runMatch k f s) := by
  have htrim := (matchTaker_trimmed (k := k)
    (w := { book := s, remaining := k.amount, filledAccum := f }) h).1
  obtain ⟨hwalked, hend⟩ := matchTaker_walk (k := k)
    (w := { book := s, remaining := k.amount, filledAccum := f }) h hl
  unfold runMatch
  dsimp only at hwalked hend
  generalize walk (rule k) maxMatchesPerCall [] l k.amount [] = T at hwalked hend ⊢
  generalize matchTaker k _ = p at htrim hwalked hend ⊢
  obtain ⟨w, e⟩ := p
  dsimp only at hwalked hend htrim
  cases hs : T.stop with
  | capped =>
    rw [hs] at hend
    subst hend
    refine ⟨hwalked.fills, fun _ => ⟨htrim.frame, hwalked.line, _, rfl, rfl, hwalked.remaining, rfl⟩,
      fun hne => absurd hs hne⟩
  | done =>
    rw [hs] at hend
    subst hend
    refine ⟨finishPlace_events.trans hwalked.fills, fun hc => ?_, fun _ => rfl⟩
    rw [hs] at hc
    cases hc
  | dust =>
    rw [hs] at hend
    subst hend
    refine ⟨finishPlace_events.trans hwalked.fills, fun hc => ?_, fun _ => rfl⟩
    rw [hs] at hc
    cases hc

theorem runHead_places (hp : Places e) : runHead e s = match doPlace e s with
    | (s, some c) =>
      ({ s with queue := s.queue.modify s.queueHead fun q => { q with
          amount := c.remaining, targetOrderId := c.orderId, precheckDone := c.precheckDone
          precheckAccum := c.precheckAccum, precheckLastPrice := c.precheckLastPrice
          filledAccum := c.filledAccum } }, true)
    | (s, none) => (s, false) := by
  unfold runHead
  cases htype : e.entryType with
  | cancel => exact absurd htype hp.1
  | cancelAll => exact absurd htype hp.2
  | place => rfl
  | absent => rfl

theorem leaveHead_queue : (leaveHead e s).queue = s.queue.delete s.queueHead := by
  unfold leaveHead
  dsimp only
  split <;> rfl

theorem goOn_events : fillEvents (goOn s) = fillEvents s := by
  unfold goOn
  split
  · exact fillEvents_answer rfl
  · split
    · exact fillEvents_answer rfl
    · rfl

theorem leaveHead_events : fillEvents (leaveHead e s) = fillEvents s := by
  unfold leaveHead
  dsimp only
  split
  · exact fillEvents_answer rfl
  · rfl

theorem not_waits_of_left (h : Sound s) (hid : k.orderId ≠ 0) (hqueue : t.queue =
    s.queue.delete s.queueHead) : ¬ Waits k t := by
  rintro ⟨-, hp, htarget⟩
  unfold headOf at hp htarget
  rw [hqueue] at hp htarget
  by_cases hj : t.queueHead = s.queueHead
  · have hget : (s.queue.delete s.queueHead).get t.queueHead = default := by
      rw [hj]
      exact Mapping.absent _ _ (Finset.notMem_erase s.queueHead _)
    rw [hget] at htarget
    exact hid htarget.symm
  · rw [Mapping.get_delete_ne hj] at hp htarget
    rw [← htarget] at hid
    exact hj (h.cont _ hp hid).1

/-- A turn on a head whose run comes to the match. -/
theorem processHeadCore_turned {f : ℕ} (h : Sound u) (hrun : u.shuttingDown = false)
    (halive : u.destroyed = false) (hsize : u.queueSize ≠ 0)
    (hturn : ¬ (u.shutdownPending = true ∧ (headOf u).precheckDone = false))
    (hp : Places (headOf u)) (hid : k.orderId ≠ 0)
    (htaker : takerOf k.orderId (headOf u) = { k with amount := r }) (hcalm : Calm u s)
    (hplace : doPlace (headOf u) u = runMatch { k with amount := r } f s)
    (hl : Line k u l) :
    Turned k (walk (rule k) maxMatchesPerCall [] l r []) u (processHeadCore u) := by
  have hsound := processHeadCore_sound h
  have hout := doPlace_outcome h rfl hp
  have hran := runMatch_ran (k := { k with amount := r }) (f := f) (hcalm.linked h.linked)
    (hl.of_orders hcalm.orders).sized
  have hcore : processHeadCore u = goOn (if (runHead (headOf u) u).2 then
      (runHead (headOf u) u).1 else leaveHead (headOf u) (runHead (headOf u) u).1) := by
    unfold processHeadCore
    rw [if_neg (by rw [hrun]; exact Bool.false_ne_true), if_neg hsize]
    exact if_neg hturn
  change Outcome u (doPlace (headOf u) u) at hout
  rw [runHead_places hp, hplace] at hcore
  rw [hplace] at hout
  change Ran _ (walk (rule k) maxMatchesPerCall [] l r []) s _ at hran
  generalize walk (rule k) maxMatchesPerCall [] l r [] = T at hran ⊢
  generalize runMatch { k with amount := r } f s = p at hcore hout hran
  obtain ⟨b, c⟩ := p
  have hevents : fillEvents b = fillEvents u ++ T.fills.flatMap (legs k.orderId) := by
    rw [← hcalm.events]
    exact hran.events
  by_cases hcap : T.stop = .capped
  · obtain ⟨hframe, hline, c, rfl, hcid, hcr, hcd⟩ := hran.capped hcap
    obtain ⟨-, hqueue, hhead, hqsize, -⟩ := hout.waits c rfl
    dsimp only at hcore hqueue hhead hqsize hframe
    rw [if_pos rfl] at hcore
    have hnew : headOf (processHeadCore u) = { headOf u with
        amount := T.remaining, targetOrderId := k.orderId, precheckDone := true
        precheckAccum := c.precheckAccum, precheckLastPrice := c.precheckLastPrice
        filledAccum := c.filledAccum } := by
      have hq := goOn_quiet (s := { b with queue := b.queue.modify b.queueHead fun q => { q with
          amount := c.remaining, targetOrderId := c.orderId, precheckDone := c.precheckDone
          precheckAccum := c.precheckAccum, precheckLastPrice := c.precheckLastPrice
          filledAccum := c.filledAccum } })
      unfold headOf
      rw [hcore, hq]
      dsimp only
      rw [Mapping.get_modify, hqueue, hhead, hcid, hcr, hcd]
    have hnewSize : (processHeadCore u).queueSize ≠ 0 := by
      rw [hcore, goOn_quiet]
      dsimp only
      rw [hqsize]
      exact hsize
    refine ⟨?_, fun _ => ⟨hid, hsound, ?_, ?_, ⟨hnewSize, ?_, ?_⟩, ?_, ?_, ?_⟩, fun hne => absurd hcap hne⟩
    · rw [hcore, goOn_events]
      exact hevents
    · rw [hcore, goOn_quiet]
      dsimp only
      rw [hframe]
      exact hcalm.shuttingDown.trans hrun
    · rw [hcore, goOn_quiet]
      dsimp only
      rw [hframe]
      exact hcalm.destroyed.trans halive
    · rw [hnew]
      exact hp
    · rw [hnew]
    · rw [hnew]
    · rw [hnew]
      exact congrArg (fun q : Taker => { q with amount := T.remaining }) htaker
    · refine hline.of_sized.of_orders ?_
      rw [hcore, goOn_quiet]
  · have hnone : c = none := hran.left hcap
    subst hnone
    have hserved := hout.done rfl
    dsimp only at hcore
    rw [if_neg Bool.false_ne_true] at hcore
    refine ⟨?_, fun hc => absurd hc hcap, fun _ => ?_⟩
    · rw [hcore, goOn_events, leaveHead_events]
      exact hevents
    · refine not_waits_of_left h hid ?_
      rw [hcore, goOn_quiet]
      dsimp only
      rw [leaveHead_queue, hserved.queue, hserved.queueHead]

/-! ## The turn that starts a match -/

/-- The head `e` of the book comes to its match in this turn as the taker `k`: neither POST_ONLY
nor the pre-check turns it away. -/
structure Comes (u : Book) (e : QueueEntry) (k : Taker) : Prop where
  running : u.shuttingDown = false
  unhurried : u.shutdownPending = false
  size : u.queueSize ≠ 0
  head : headOf u = e
  place : e.entryType = .place
  unchecked : e.precheckDone = false
  taker : k = takerOf (if e.targetOrderId = 0 then u.nextOrderId else e.targetOrderId) e
  takes : e.targetOrderId = 0 → ¬ (e.flags &&& flagPostOnly ≠ 0 ∧ wouldTake k u = true)
  enough : minFillOf e > 0 → (precheck k (minFillOf e) e u).2 = .reached

theorem bestOpposite_levels (h : t.levels = s.levels) : bestOpposite k t = bestOpposite k s := by
  unfold bestOpposite
  rw [h]

theorem nextOpposite_levels {p : ℕ} (h : t.levels = s.levels) :
    nextOpposite k p t = nextOpposite k p s := by
  unfold nextOpposite
  rw [h]

theorem wouldTake_levels (h : t.levels = s.levels) : wouldTake k t = wouldTake k s := by
  unfold wouldTake
  rw [bestOpposite_levels h]

theorem precheckLevels_levels {n : ℕ} (h : t.levels = s.levels) : ∀ (left : ℕ) (o : Option ℕ)
    (a : ℕ), precheckLevels k n t left o a = precheckLevels k n s left o a := by
  intro left
  induction left with
  | zero =>
    intro o a
    cases o with
    | none => simp [precheckLevels]
    | some p =>
      unfold precheckLevels Book.level
      rw [h]
  | succ left ih =>
    intro o a
    cases o with
    | none => simp [precheckLevels]
    | some p =>
      unfold precheckLevels Book.level
      rw [h, nextOpposite_levels h]
      simp only [ih]

theorem precheck_levels {n : ℕ} (h : t.levels = s.levels) :
    precheck k n e t = precheck k n e s := by
  unfold precheck
  rw [bestOpposite_levels h, nextOpposite_levels h, precheckLevels_levels h]

theorem emitOrderPlaced_calm {id : ℕ} : Calm s (emitOrderPlaced id e s) := by
  refine .of_quiet emitOrderPlaced_quiet ?_
  unfold emitOrderPlaced
  dsimp only
  refine (fillEvents_answer rfl).trans ((fillEvents_answer rfl).trans ?_)
  change fillEvents (ite _ _ _) = _
  split
  · exact priced_events
  · rfl

theorem checkAndMatch_enough (h : minFillOf e > 0 → (precheck k (minFillOf e) e s).2 = .reached) :
    ∃ f t, checkAndMatch k e s = runMatch k f t ∧ Calm s t := by
  unfold checkAndMatch
  split
  · rename_i hmin
    dsimp only
    rw [h hmin.1]
    exact ⟨_, _, rfl, check_calm⟩
  · exact ⟨_, _, rfl, .refl⟩

theorem Comes.doPlace (h : Comes u e k) : ∃ f s, doPlace e u = runMatch k f s ∧ Calm u s := by
  have htaker := h.taker
  unfold DexOrderBookCalls.doPlace
  split
  · rename_i htarget
    rw [if_pos htarget] at htaker
    dsimp only
    rw [← htaker]
    have hcalm : Calm u (emitOrderPlaced u.nextOrderId e
        { u.check (u.nextOrderId + 1 < u128) with nextOrderId := u.nextOrderId + 1 }) := by
      refine Calm.trans ?_ emitOrderPlaced_calm
      exact ⟨fun hl => { hl with }, rfl, rfl, rfl, rfl, rfl, fun hs => ⟨hs, _, rfl⟩⟩
    generalize emitOrderPlaced u.nextOrderId e _ = v at hcalm ⊢
    rw [wouldTake_levels hcalm.levels, if_neg (h.takes htarget)]
    have henough := h.enough
    rw [← precheck_levels hcalm.levels] at henough
    obtain ⟨f, s, hrun, hs⟩ := checkAndMatch_enough henough
    exact ⟨f, s, hrun, hcalm.trans hs⟩
  · rename_i htarget
    rw [if_neg htarget] at htaker
    rw [← htaker]
    exact checkAndMatch_enough h.enough

theorem Comes.orderId_ne (h : Comes u e k) (hu : Sound u) : k.orderId ≠ 0 := by
  rw [h.taker]
  change ite _ _ _ ≠ 0
  split
  · exact hu.next_ne
  · assumption

theorem Turned.told (h : Turned k T s t) (hu : Sound u) (hq : Quiet t u)
    (hev : fillEvents u = fillEvents t) : Turned k T s u := by
  refine ⟨hev.trans h.events, fun hc => ?_, fun hc hw => h.left hc (hw.of_quiet hq)⟩
  exact (h.capped hc).calm (.of_quiet hq hev) hu

theorem Turned.since (h : Turned k T u t) (hev : fillEvents u = fillEvents s) : Turned k T s t := by
  refine ⟨?_, h.capped, h.left⟩
  rw [← hev]
  exact h.events

theorem perform_first (h : Sound s) (hp : perform env tx s = .ok t) (hu : handed tx s = some u)
    (hc : Comes u e k) (hl : Line k u l) :
    Turned k (walk (rule k) maxMatchesPerCall [] l e.amount []) u t := by
  obtain ⟨halive, hsound, hcalm, hq, hev⟩ := perform_handed h hp hu
  obtain ⟨f, v, hrun, hv⟩ := hc.doPlace
  have hhead := hc.head
  subst hhead
  refine Turned.told ?_ (perform_sound h hp) hq hev
  refine processHeadCore_turned (f := f) hsound hc.running (hcalm.destroyed.trans halive) hc.size ?_
    ⟨by simp [hc.place], by simp [hc.place]⟩ (hc.orderId_ne hsound) ?_ hv ?_ hl
  · rw [hc.unhurried]
    exact fun hf => Bool.false_ne_true hf.1
  · rw [hc.taker]
    rfl
  · rw [hrun, hc.taker]
    rfl

theorem perform_next (h : Waiting k r l s) (hp : perform env tx s = .ok t)
    (hu : handed tx s = some u) :
    Turned k (walk (rule k) maxMatchesPerCall [] l r []) s t := by
  obtain ⟨-, hsound, hcalm, hq, hev⟩ := perform_handed h.sound hp hu
  have hw := h.calm hcalm hsound
  refine Turned.since ?_ hcalm.events
  refine Turned.told ?_ (perform_sound h.sound hp) hq hev
  obtain ⟨hsize, hplaces, htarget⟩ := hw.waits
  refine processHeadCore_turned (f := (headOf u).filledAccum) hsound hw.running hw.alive hsize ?_
    hplaces hw.numbered hw.taker .refl ?_ hw.line
  · rw [hw.checked]
    exact fun hf => Bool.noConfusion hf.2
  · unfold doPlace checkAndMatch
    rw [htarget, if_neg hw.numbered, hw.checked, hw.taker]
    exact if_neg fun hf => Bool.noConfusion hf.2

theorem perform_idle (h : Waiting k r l s) (hp : perform env tx s = .ok t)
    (hu : handed tx s = none) : Waiting k r l t ∧ fillEvents t = fillEvents s := by
  have hcalm := perform_other hp hu h.waits.1 h.running
  exact ⟨h.calm hcalm (perform_sound h.sound hp), hcalm.events⟩

theorem perform_poke (h : Waiting k r l s) (m : Msg) :
    perform env ⟨m, .processHead⟩ s = .ok (processHeadCore (enter m s)) := by
  simp [perform, h.alive, Call.InRange, dispatch, require, bind, Except.bind]

/-! ## Drains -/

/-- The books a placement passes from `t₀` on, the end of the call in which it came to its match,
until it has left the head, with the number of calls that ran it. -/
inductive Drain (env : Env) (k : Taker) (t₀ : Book) : ℕ → Book → Prop where
  | first : Drain env k t₀ 1 t₀
  | turn {n s u t tx} : Drain env k t₀ n s → Waits k s → handed tx s = some u →
      perform env tx s = .ok t → Drain env k t₀ (n + 1) t
  | idle {n s t tx} : Drain env k t₀ n s → Waits k s → handed tx s = none →
      perform env tx s = .ok t → Drain env k t₀ n t

/-- The fills from `u` to `t` follow the greedy walk along `l` with the budget `r`: all of them
once the placement has left the head, the first of them while it waits, which takes at most as many
calls as there are makers. Every fill is with a maker in line at its own price, and only the last
one may take less than the whole maker. -/
structure InOrder (k : Taker) (l : List Maker) (r n : ℕ) (u t : Book) (fills : List (Maker × ℕ)) :
    Prop where
  events : fillEvents t = fillEvents u ++ fills.flatMap (legs k.orderId)
  waiting : Waits k t → fills <+: (greedy (rule k) l r).1 ∧ n ≤ l.length
  left : ¬ Waits k t → fills = (greedy (rule k) l r).1
  makers : (fills.map Prod.fst).Sublist l
  within : ∀ f ∈ fills, k.crosses f.1.price = true
  whole : ∀ a x y b, fills = a ++ x :: y :: b → x.2 = x.1.amount

def PriceTime (env : Env) (k : Taker) (l : List Maker) (r : ℕ) (u t₀ : Book) : Prop :=
  ∀ n t, Drain env k t₀ n t → ∃ fills, InOrder k l r n u t fills

variable {n : ℕ} {t₀ : Book}

theorem InOrder.stopped_short {fills : List (Maker × ℕ)} (hl : Line k u l)
    (hev : fillEvents t = fillEvents u ++ fills.flatMap (legs k.orderId))
    (hpre : fills <+: (greedy (rule k) l r).1) (hn : Waits k t → n ≤ l.length)
    (hleft : ¬ Waits k t → fills = (greedy (rule k) l r).1) : InOrder k l r n u t fills := by
  obtain ⟨rest, hrest⟩ := hpre
  have hmakers : (fills.map Prod.fst).Sublist l := by
    refine List.Sublist.trans ?_ (greedy_sublist (R := rule k) l r)
    rw [← hrest, List.map_append]
    exact List.sublist_append_left _ _
  refine ⟨hev, fun hw => ⟨⟨rest, hrest⟩, hn hw⟩, hleft, hmakers, fun f hf => ?_, ?_⟩
  · have hmem : f.1 ∈ l := hmakers.subset (List.mem_map_of_mem hf)
    exact ((hl.mem _).mp hmem).2.2.2
  · intro a x y b hab
    refine greedy_takes_whole (R := rule k) l r (a := a) (y := y) (b := b ++ rest) ?_
    rw [← hrest, hab]
    simp

/-- A drain on its way along the greedy walk: what it has filled, what the rest of the walk adds,
and how many calls it may still take. -/
def Follower (k : Taker) (l : List Maker) (r₀ n : ℕ) (u t : Book) : Prop :=
  (¬ Waits k t ∧
    fillEvents t = fillEvents u ++ (greedy (rule k) l r₀).1.flatMap (legs k.orderId)) ∨
  ∃ r ahead fills, Waiting k r ahead t ∧
    ¬ Spills (rule k) (maxMatchesPerCall - 1) (maxMatchesPerCall - 1) ahead r ∧
    fillEvents t = fillEvents u ++ fills.flatMap (legs k.orderId) ∧
    fills ++ (greedy (rule k) ahead r).1 = (greedy (rule k) l r₀).1 ∧ n ≤ l.length ∧
    (ahead.length + n ≤ l.length ∨
      r ≠ 0 ∧ ∃ a rest, ahead = a :: rest ∧ (rule k).trade a r = 0)

/-- One more call keeps to the greedy walk where nothing spills. -/
theorem Turned.follower {ahead : List Maker} {r₀ : ℕ} {fills : List (Maker × ℕ)}
    (h : Turned k (walk (rule k) maxMatchesPerCall [] ahead r []) s t)
    (hsp : ¬ Spills (rule k) (maxMatchesPerCall - 1) (maxMatchesPerCall - 1) ahead r)
    (hev : fillEvents s = fillEvents u ++ fills.flatMap (legs k.orderId))
    (hg : fills ++ (greedy (rule k) ahead r).1 = (greedy (rule k) l r₀).1)
    (hn : ahead.length + n ≤ l.length ∨
      r ≠ 0 ∧ ∃ a rest, ahead = a :: rest ∧ (rule k).trade a r = 0) :
    Follower k l r₀ (n + 1) u t := by
  have hfollows : Follows (rule k) (maxMatchesPerCall - 1) [] (greedy (rule k) ahead r)
      ahead.length (walk (rule k) maxMatchesPerCall [] ahead r []) :=
    walk_follows ahead (maxMatchesPerCall - 1) r [] hsp
  rcases hfollows with ⟨hstop, hf, -⟩ | ⟨hstop, hrem, hsp', before, hf, hbefore, -, hlen⟩
  · refine .inl ⟨h.left hstop, ?_⟩
    rw [h.events, hev, hf, List.nil_append, List.append_assoc, ← List.flatMap_append, hg]
  · -- a call that met its cap had a maker to fill
    have hahead : ahead.length + n ≤ l.length := by
      refine hn.resolve_right ?_
      rintro ⟨hr, a, rest, rfl, htrade⟩
      have hdust : (walk (rule k) maxMatchesPerCall [] (a :: rest) r []).stop = .dust := by
        unfold walk
        rw [if_neg hr]
        simp [maxMatchesPerCall, htrade]
      rw [hdust] at hstop
      cases hstop
    have hne : ahead.length ≠ 0 := by
      intro hz
      rw [List.length_eq_zero_iff.mp hz] at hstop
      simp [walk] at hstop
    refine .inr ⟨_, _, fills ++ before, h.capped hstop, hsp', ?_, ?_, by omega, ?_⟩
    · rw [h.events, hev, hf, List.nil_append, List.append_assoc, ← List.flatMap_append]
    · rw [List.append_assoc, hbefore, hg]
    · exact hlen.imp (fun hlt => by omega) fun ha => ⟨hrem, ha⟩

theorem drain_follower {r₀ : ℕ} (hd : Drain env k t₀ n t) (h : Follower k l r₀ 1 u t₀) :
    Follower k l r₀ n u t := by
  induction hd with
  | first => exact h
  | turn _ hw hu hp ih =>
    rcases ih with ⟨hnot, -⟩ | ⟨r, ahead, fills, hwait, hsp, hev, hg, -, hn⟩
    · exact absurd hw hnot
    · exact (perform_next hwait hp hu).follower hsp hev hg hn
  | idle _ hw hu hp ih =>
    rcases ih with ⟨hnot, -⟩ | ⟨r, ahead, fills, hwait, hsp, hev, hg, hn⟩
    · exact absurd hw hnot
    · obtain ⟨hwait', hev'⟩ := perform_idle hwait hp hu
      exact .inr ⟨r, ahead, fills, hwait', hsp, hev'.trans hev, hg, hn⟩

theorem Follower.inOrder {r₀ : ℕ} (h : Follower k l r₀ n u t) (hl : Line k u l) :
    ∃ fills, InOrder k l r₀ n u t fills := by
  rcases h with ⟨hnot, hev⟩ | ⟨r, ahead, fills, hwait, -, hev, hg, hn, -⟩
  · exact ⟨_, .stopped_short hl hev List.prefix_rfl (fun hw => absurd hw hnot) fun _ => rfl⟩
  · exact ⟨fills, .stopped_short hl hev ⟨_, hg⟩ (fun _ => hn) fun hnot => absurd hwait.waits hnot⟩

/-! ## Where a drain strays -/

def Strayed (k : Taker) (l : List Maker) (r₀ : ℕ) (u t : Book) : Prop :=
  ∃ x more, fillEvents t =
    fillEvents u ++ ((greedy (rule k) l r₀).1 ++ x :: more).flatMap (legs k.orderId)

theorem legs_length {id : ℕ} : ∀ fills : List (Maker × ℕ),
    (fills.flatMap (legs id)).length = 2 * fills.length := by
  intro fills
  induction fills with
  | nil => rfl
  | cons f fills ih =>
    rw [List.flatMap_cons, List.length_append, ih, List.length_cons]
    simp only [legs, List.length_cons, List.length_nil]
    omega

theorem Strayed.not_inOrder {r₀ : ℕ} {fills : List (Maker × ℕ)} (h : Strayed k l r₀ u t) :
    ¬ InOrder k l r₀ n u t fills := by
  intro ho
  obtain ⟨x, more, hev⟩ := h
  have hle : fills.length ≤ (greedy (rule k) l r₀).1.length := by
    by_cases hw : Waits k t
    · exact (ho.waiting hw).1.length_le
    · rw [ho.left hw]
  have hlen := congrArg List.length (List.append_cancel_left (ho.events.symm.trans hev))
  rw [legs_length, legs_length, List.length_append, List.length_cons] at hlen
  omega

/-- A stray fill was made, or one is ahead: in the walk that goes on, or with the maker the next
call meets first. -/
def Straying (k : Taker) (l : List Maker) (r₀ bound : ℕ) (u t : Book) : Prop :=
  Strayed k l r₀ u t ∨ ∃ r ahead fills, Waiting k r ahead t ∧ r ≠ 0 ∧
    fillEvents t = fillEvents u ++ fills.flatMap (legs k.orderId) ∧
    ((fills ++ (greedy (rule k) ahead r).1 = (greedy (rule k) l r₀).1 ∧
        Spills (rule k) (maxMatchesPerCall - 1) (maxMatchesPerCall - 1) ahead r ∧
        ahead.length < bound) ∨
      (fills = (greedy (rule k) l r₀).1 ∧
        ∃ a rest, ahead = a :: rest ∧ (rule k).trade a r ≠ 0))

theorem Turned.straying {ahead : List Maker} {r₀ : ℕ} {fills : List (Maker × ℕ)}
    (h : Turned k (walk (rule k) maxMatchesPerCall [] ahead r []) s t)
    (hsp : Spills (rule k) (maxMatchesPerCall - 1) (maxMatchesPerCall - 1) ahead r)
    (hev : fillEvents s = fillEvents u ++ fills.flatMap (legs k.orderId))
    (hg : fills ++ (greedy (rule k) ahead r).1 = (greedy (rule k) l r₀).1) :
    Straying k l r₀ ahead.length u t := by
  have hstrays : Strays (rule k) (maxMatchesPerCall - 1) [] (greedy (rule k) ahead r)
      ahead.length (walk (rule k) maxMatchesPerCall [] ahead r []) :=
    walk_strays ahead (maxMatchesPerCall - 1) r [] hsp
  rcases hstrays with ⟨x, more, hf⟩ | ⟨hstop, hrem, ⟨before, hf, hbefore, hsp', hlen⟩ | ⟨hf, hnext⟩⟩
  · refine .inl ⟨x, more, ?_⟩
    rw [h.events, hev, hf, List.nil_append, List.append_assoc, ← List.flatMap_append,
      ← List.append_assoc, hg]
  · refine .inr ⟨_, _, fills ++ before, h.capped hstop, hrem, ?_, .inl ⟨?_, hsp', hlen⟩⟩
    · rw [h.events, hev, hf, List.nil_append, List.append_assoc, ← List.flatMap_append]
    · rw [List.append_assoc, hbefore, hg]
  · refine .inr ⟨_, _, _, h.capped hstop, hrem, ?_, .inr ⟨rfl, hnext⟩⟩
    rw [h.events, hev, hf, List.nil_append, List.append_assoc, ← List.flatMap_append, hg]

theorem exists_strayed_next {r₀ : ℕ} {ahead : List Maker} (hd : Drain env k t₀ n s)
    (hwait : Waiting k r ahead s) (hr : r ≠ 0) (hev : fillEvents s = fillEvents u ++
      (greedy (rule k) l r₀).1.flatMap (legs k.orderId))
    (hnext : ∃ a rest, ahead = a :: rest ∧ (rule k).trade a r ≠ 0) :
    ∃ n t, Drain env k t₀ n t ∧ Strayed k l r₀ u t := by
  obtain ⟨a, rest, rfl, htrade⟩ := hnext
  have hpoke : perform env ⟨⟨0, 0, 0⟩, .processHead⟩ s = _ := perform_poke hwait ⟨0, 0, 0⟩
  refine ⟨n + 1, _, hd.turn hwait.waits rfl hpoke, ?_⟩
  have hfirst : ∃ more, (walk (rule k) maxMatchesPerCall [] (a :: rest) r []).fills =
      [] ++ (a, (rule k).trade a r) :: more := walk_first hr htrade
  obtain ⟨more, hmore⟩ := hfirst
  refine ⟨(a, (rule k).trade a r), more, ?_⟩
  rw [(perform_next hwait hpoke rfl).events, hev, hmore, List.nil_append, List.append_assoc,
    ← List.flatMap_append]

/-- Calls that only run the head lead to the stray fill. -/
theorem exists_strayed {r₀ : ℕ} : ∀ (bound n : ℕ) (s : Book), Drain env k t₀ n s →
    Straying k l r₀ bound u s → ∃ n t, Drain env k t₀ n t ∧ Strayed k l r₀ u t := by
  intro bound
  induction bound with
  | zero =>
    intro n s hd hs
    rcases hs with hs | ⟨r, ahead, fills, hwait, hr, hev, ⟨-, -, hlt⟩ | ⟨rfl, hnext⟩⟩
    · exact ⟨n, s, hd, hs⟩
    · exact absurd hlt (Nat.not_lt_zero _)
    · exact exists_strayed_next hd hwait hr hev hnext
  | succ bound ih =>
    intro n s hd hs
    rcases hs with hs | ⟨r, ahead, fills, hwait, hr, hev, ⟨hg, hsp, hlt⟩ | ⟨rfl, hnext⟩⟩
    · exact ⟨n, s, hd, hs⟩
    · have hpoke : perform env ⟨⟨0, 0, 0⟩, .processHead⟩ s = _ := perform_poke hwait ⟨0, 0, 0⟩
      have hturn := perform_next hwait hpoke rfl
      refine ih (n + 1) _ (hd.turn hwait.waits rfl hpoke) ?_
      rcases hturn.straying hsp hev hg with hdone | ⟨r', ahead', fills', hw', hr', hev', hcase⟩
      · exact .inl hdone
      · refine .inr ⟨r', ahead', fills', hw', hr', hev', hcase.imp_left ?_⟩
        rintro ⟨hg', hsp', hlt'⟩
        exact ⟨hg', hsp', by omega⟩
    · exact exists_strayed_next hd hwait hr hev hnext

theorem priceTime_iff (h : Sound s) (hp : perform env tx s = .ok t) (hu : handed tx s = some u)
    (hc : Comes u e k) (hl : Line k u l) : PriceTime env k l e.amount u t ↔
      ¬ Spills (rule k) (maxMatchesPerCall - 1) (maxMatchesPerCall - 1) l e.amount := by
  have hturn := perform_first h hp hu hc hl
  have hev : fillEvents u = fillEvents u ++ [].flatMap (legs k.orderId) := by simp
  constructor
  · intro hpt hsp
    obtain ⟨n, v, hd, hv⟩ := exists_strayed _ 1 t .first (hturn.straying hsp hev rfl)
    obtain ⟨fills, hfills⟩ := hpt n v hd
    exact hv.not_inOrder hfills
  · intro hsp n v hd
    exact (drain_follower hd (hturn.follower hsp hev rfl (.inl le_rfl))).inOrder hl

/-- A taker that counts in base units ends with the first maker it cannot take whole. -/
theorem not_spills_of_base (hk : k.countsQuote = false) {cap : ℕ} : ∀ (l : List Maker) (left r : ℕ),
    ¬ Spills (rule k) cap left l r := by
  intro l
  induction l with
  | nil =>
    intro left r h
    exact h
  | cons m l ih =>
    intro left r h
    have htrade : (rule k).trade m r = min r m.amount := tradeOf_base hk
    by_cases hstop : r = 0 ∨ (rule k).trade m r = 0
    · exact not_spills_stop hstop h
    obtain ⟨hr, ht⟩ := not_or.mp hstop
    by_cases hw : (rule k).trade m r = (rule k).size m
    · exact ih _ _ ((spills_whole hr ht hw).mp h)
    · have hcost : (rule k).cost m ((rule k).trade m r) = (rule k).trade m r := by
        change consumed k _ _ = _
        unfold consumed
        rw [hk, if_neg Bool.false_ne_true]
      have hlt : r < m.amount := by
        by_contra hge
        rw [htrade, min_eq_right (not_lt.mp hge)] at hw
        exact hw rfl
      have hrest := ((spills_part hr ht hw).mp h).1
      rw [hcost, htrade, min_eq_left hlt.le] at hrest
      exact hrest (Nat.sub_self r)

/-! ## A placement that is turned away -/

def takerNow (u : Book) : Taker :=
  takerOf (if (headOf u).targetOrderId = 0 then u.nextOrderId else (headOf u).targetOrderId)
    (headOf u)

theorem checkAndMatch_events (h : ¬ (minFillOf e > 0 → (precheck k (minFillOf e) e s).2 = .reached))
    (he : e.precheckDone = false) : fillEvents (checkAndMatch k e s).1 = fillEvents s := by
  obtain ⟨hmin, hne⟩ := Classical.not_imp.mp h
  unfold checkAndMatch
  rw [if_pos ⟨hmin, he⟩]
  dsimp only
  generalize precheck k (minFillOf e) e s = r at hne ⊢
  obtain ⟨a, c⟩ := r
  cases c with
  | reached => exact absurd rfl hne
  | short => exact sayCancelled_events.trans priced_events
  | yielded p => rfl

/-- A placement that POST_ONLY or the pre-check holds up makes no fill. -/
theorem doPlace_events (hun : (headOf u).precheckDone = false)
    (hno : ¬ (((headOf u).targetOrderId = 0 →
        ¬ ((headOf u).flags &&& flagPostOnly ≠ 0 ∧ wouldTake (takerNow u) u = true)) ∧
      (minFillOf (headOf u) > 0 →
        (precheck (takerNow u) (minFillOf (headOf u)) (headOf u) u).2 = .reached))) :
    fillEvents (doPlace (headOf u) u).1 = fillEvents u := by
  unfold doPlace
  split
  · rename_i htarget
    have hcalm : Calm u (emitOrderPlaced u.nextOrderId (headOf u)
        { u.check (u.nextOrderId + 1 < u128) with nextOrderId := u.nextOrderId + 1 }) := by
      refine Calm.trans ?_ emitOrderPlaced_calm
      exact ⟨fun hl => { hl with }, rfl, rfl, rfl, rfl, rfl, fun hs => ⟨hs, _, rfl⟩⟩
    have hnow : takerNow u = takerOf u.nextOrderId (headOf u) := by
      unfold takerNow
      rw [if_pos htarget]
    dsimp only
    generalize emitOrderPlaced u.nextOrderId (headOf u) _ = v at hcalm ⊢
    rw [← hcalm.events]
    split
    · exact sayCancelled_events.trans priced_events
    · rename_i hpost
      rw [← hnow] at hpost ⊢
      rw [wouldTake_levels hcalm.levels] at hpost
      refine checkAndMatch_events ?_ hun
      rw [precheck_levels hcalm.levels]
      exact fun henough => hno ⟨fun _ => hpost, henough⟩
  · rename_i htarget
    have hnow : takerNow u = takerOf (headOf u).targetOrderId (headOf u) := by
      unfold takerNow
      rw [if_neg htarget]
    rw [← hnow]
    exact checkAndMatch_events (fun henough => hno ⟨fun hz => absurd hz htarget, henough⟩) hun

theorem refuseHead_events : fillEvents (refuseHead e s) = fillEvents s := by
  unfold refuseHead
  split
  · split
    · exact fillEvents_answer rfl
    · exact sayCancelled_events.trans priced_events
  · rfl

theorem processHeadCore_events (hplace : (headOf u).entryType = .place)
    (hun : (headOf u).precheckDone = false) (hno : ∀ k, ¬ Comes u (headOf u) k) :
    fillEvents (processHeadCore u) = fillEvents u := by
  have hp : Places (headOf u) := ⟨by simp [hplace], by simp [hplace]⟩
  unfold processHeadCore
  split
  · rfl
  rename_i hrun
  split
  · split
    · exact fillEvents_answer rfl
    · rfl
  rename_i hsize
  change fillEvents (if u.shutdownPending = true ∧ (headOf u).precheckDone = false then
    goOn (leaveHead (headOf u) (refuseHead (headOf u) u)) else goOn (if (runHead (headOf u) u).2 then
      (runHead (headOf u) u).1 else leaveHead (headOf u) (runHead (headOf u) u).1)) = _
  split
  · rw [goOn_events, leaveHead_events, refuseHead_events]
  · rename_i hturn
    have hev := doPlace_events hun fun hcomes => hno (takerNow u) ⟨(Bool.not_eq_true _).mp hrun,
      (Bool.not_eq_true _).mp fun hs => hturn ⟨hs, hun⟩, hsize, rfl, hplace, hun, rfl, hcomes.1,
      hcomes.2⟩
    rw [goOn_events, runHead_places hp]
    generalize doPlace (headOf u) u = r at hev ⊢
    obtain ⟨b, c⟩ := r
    cases c with
    | none =>
      dsimp only
      rw [if_neg Bool.false_ne_true, leaveHead_events]
      exact hev
    | some c => exact hev

instance (k : Taker) (a b : Maker) : Decidable (Before k a b) := by
  unfold Before
  infer_instance

instance (k : Taker) (s : Book) (m : Maker) : Decidable (InReach k s m) := by
  unfold InReach
  infer_instance

/-- A plain placement, without POST_ONLY or a minimal fill, comes to its match at once. -/
def comesPlain (u : Book) : Bool :=
  !u.shuttingDown && !u.shutdownPending && decide (u.queueSize ≠ 0) &&
    decide ((headOf u).entryType = .place) && !(headOf u).precheckDone &&
    decide ((headOf u).flags &&& flagPostOnly = 0) && decide (minFillOf (headOf u) = 0)

theorem comes_of_plain (h : comesPlain u = true) : Comes u (headOf u) (takerNow u) := by
  simp only [comesPlain, Bool.and_eq_true, Bool.not_eq_true', decide_eq_true_eq] at h
  obtain ⟨⟨⟨⟨⟨⟨hrun, hopen⟩, hsize⟩, hplace⟩, hcheck⟩, hpost⟩, hmin⟩ := h
  exact ⟨hrun, hopen, hsize, rfl, hplace, hcheck, rfl, fun _ hf => hf.1 hpost,
    fun hf => absurd hmin (Nat.pos_iff_ne_zero.mp hf)⟩

theorem line_of_keys (h : l.Pairwise (Before k)) (hmem : ∀ m ∈ l, InReach k u m)
    (hall : ∀ id ∈ u.orders.keys, InReach k u (makerOf u id) → makerOf u id ∈ l) : Line k u l := by
  refine ⟨h, fun m => ⟨hmem m, fun hm => ?_⟩⟩
  have heq := hm.1
  rw [heq] at hm ⊢
  exact hall m.id hm.2.1 hm

def sampleAsks : List Tx :=
  [sampleBatch 1 1 [{ price := 30, amount := 340000000, epochId := 1 },
    { price := 30, amount := 340000000, epochId := 1 }], samplePoke]

def sampleLimitBuy : Tx :=
  sampleBatch 2 1 [{ isBuy := true, price := 40, amount := 350000000, epochId := 1 }]

def sampleMarketBuy : Tx :=
  sampleBatch 2 1 [{ isBuy := true, flags := flagMarket, amount := 1000000, epochId := 1 }]

def sampleLine : List Maker := [⟨1, 30, 340000000⟩, ⟨2, 30, 340000000⟩]

/-- The call `tx` brings a plain placement of `amount` to its match with the sample asks. -/
def meetsAsks (tx : Tx) (amount : ℕ) (quote : Bool) (s : Book) : Bool :=
  (perform sampleEnv tx s).toOption.isSome && (handed tx s).any fun u =>
    comesPlain u && decide (sampleLine.Pairwise (Before (takerNow u))) &&
    decide (∀ m ∈ sampleLine, InReach (takerNow u) u m) &&
    decide (∀ id ∈ u.orders.keys, InReach (takerNow u) u (makerOf u id) →
      makerOf u id ∈ sampleLine) &&
    decide ((headOf u).amount = amount) && decide ((takerNow u).countsQuote = quote)

theorem meetsAsks_reachable (tx : Tx) (amount : ℕ) (quote : Bool)
    (h : (playedBook sampleAsks).any (meetsAsks tx amount quote) = true) :
    ∃ s t u, Reachable sampleEnv s ∧ perform sampleEnv tx s = .ok t ∧ handed tx s = some u ∧
      Comes u (headOf u) (takerNow u) ∧ Line (takerNow u) u sampleLine ∧
      (headOf u).amount = amount ∧ (takerNow u).countsQuote = quote := by
  obtain ⟨s, hs, hp⟩ := playedBook_reachable h
  unfold meetsAsks at hp
  rw [Bool.and_eq_true] at hp
  obtain ⟨hperform, hhanded⟩ := hp
  obtain ⟨u, hu, hp⟩ := (Option.any_eq_true _ _).mp hhanded
  simp only [Bool.and_eq_true, decide_eq_true_eq] at hp
  obtain ⟨⟨⟨⟨⟨hplain, hsorted⟩, hmem⟩, hall⟩, hamount⟩, hquote⟩ := hp
  cases ht : perform sampleEnv tx s with
  | error err =>
    rw [ht] at hperform
    cases hperform
  | ok t =>
    exact ⟨s, t, u, hs, ht, hu, comes_of_plain hplain, line_of_keys hsorted hmem hall, hamount,
      hquote⟩

end DexOrderBookDrains
