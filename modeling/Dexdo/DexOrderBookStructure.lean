import Dexdo.DexOrderBookMatching
import Dexdo.CircularWindow
import Mathlib.Data.Set.Card

/-! # The structure of every reachable dex OrderBook

The lists, the levels with their amounts, the count and the queue window hold after every
transaction, whatever the senders do. -/
namespace DexOrderBookStructure

open TokenContractState (Address u64 u128)
open SolidityMapping IntrusiveList CircularWindow DexOrderBookState DexOrderBookCalls
open DexOrderBookLists DexOrderBookMatching

variable {env : Env} {s t u : Book} {e : QueueEntry} {m : Msg}

def Apart (s : Book) : Prop :=
  ∀ outcome epoch, ∀ bid ∈ (s.levels ⟨outcome, true, epoch⟩).keys,
    ∀ ask ∈ (s.levels ⟨outcome, false, epoch⟩).keys, bid < ask

theorem Apart.mono (h : Apart s) (hl : ∀ side, (t.levels side).keys ⊆ (s.levels side).keys) :
    Apart t :=
  fun outcome epoch bid hb ask ha => h outcome epoch bid (hl _ hb) ask (hl _ ha)

def Places (e : QueueEntry) : Prop := e.entryType ≠ .cancel ∧ e.entryType ≠ .cancelAll

structure Sound (s : Book) : Prop where
  linked : Linked s
  window : Window queueCapacity s.queueHead s.queueSize s.queueTail s.queue.keys
  next_ne : s.nextOrderId ≠ 0
  ids : ∀ id ∈ s.orders.keys, id < s.nextOrderId
  cont : ∀ j, Places (s.queue.get j) → (s.queue.get j).targetOrderId ≠ 0 → j = s.queueHead ∧
    (s.queue.get j).targetOrderId < s.nextOrderId ∧
    ∀ id ∈ s.orders.keys, id < (s.queue.get j).targetOrderId
  apart : Apart s

theorem Sound.trimmed (h : Sound s) (ht : Trimmed s t) : Sound t := by
  have hf := ht.frame
  unfold Frame at hf
  have hqueue : t.queue = s.queue := by rw [hf]
  have hhead : t.queueHead = s.queueHead := by rw [hf]
  have htail : t.queueTail = s.queueTail := by rw [hf]
  have hsize : t.queueSize = s.queueSize := by rw [hf]
  have hnext : t.nextOrderId = s.nextOrderId := by rw [hf]
  refine ⟨ht.linked, ?_, ?_, fun id hid => ?_, fun j hp hj => ?_, h.apart.mono ht.levels⟩
  · rw [hqueue, hhead, htail, hsize]
    exact h.window
  · rw [hnext]
    exact h.next_ne
  · rw [hnext]
    exact h.ids id (ht.keys hid)
  · rw [hqueue] at hp hj ⊢
    obtain ⟨h1, h2, h3⟩ := h.cont j hp hj
    rw [hhead, hnext]
    exact ⟨h1, h2, fun id hid => h3 id (ht.keys hid)⟩

theorem Sound.quiet (h : Sound s) (hq : Quiet s t) : Sound t :=
  h.trimmed (.of_quiet h.linked hq)

/-! ## The queue -/

theorem enqueue_sound (h : Sound s) (hs : s.queueSize < queueCapacity)
    (he : Places e → e.targetOrderId = 0) : Sound (enqueue e s) := by
  refine ⟨{ h.linked with }, h.window.push hs, h.next_ne, h.ids, fun j hp hj => ?_, h.apart⟩
  by_cases hjt : j = s.queueTail
  · have hget : (enqueue e s).queue.get j = { e with queueId := s.nextQueueId } := by
      rw [hjt]
      exact Mapping.get_set
    rw [hget] at hp hj
    exact absurd (he hp) hj
  · have hget : (enqueue e s).queue.get j = s.queue.get j := Mapping.get_set_ne hjt
    rw [hget] at hp hj ⊢
    exact h.cont j hp hj

/-- What the run of a head entry that is done with leaves: the queue as it was, and every order
older than the next number. -/
structure Served (s t : Book) : Prop where
  linked : Linked t
  queue : t.queue = s.queue
  queueHead : t.queueHead = s.queueHead
  queueTail : t.queueTail = s.queueTail
  queueSize : t.queueSize = s.queueSize
  next_ne : t.nextOrderId ≠ 0
  ids : ∀ id ∈ t.orders.keys, id < t.nextOrderId
  apart : Apart t

theorem Served.of_trimmed (h : Sound s) (ht : Trimmed s t) : Served s t := by
  have hs := h.trimmed ht
  have hf := ht.frame
  unfold Frame at hf
  refine ⟨hs.linked, ?_, ?_, ?_, ?_, hs.next_ne, hs.ids, hs.apart⟩
  · rw [hf]
  · rw [hf]
  · rw [hf]
  · rw [hf]

theorem Served.quiet (h : Served s t) (hq : Quiet t u) : Served s u := by
  have hl := hq.linked h.linked
  rw [hq] at hl ⊢
  exact { h with linked := hl }

theorem advanceHead_sound (h : Sound s) (hs : s.queueSize ≠ 0) (ht : Served s t) :
    Sound (advanceHead t) := by
  have hwindow := h.window.pop hs
  have hlinked := ht.linked
  refine ⟨{ hlinked with }, ?_, ht.next_ne, ht.ids, fun j hp hj => ?_, ht.apart⟩
  · unfold advanceHead
    dsimp only
    rw [ht.queueHead, ht.queueSize, ht.queueTail, ht.queue]
    exact hwindow
  · -- only the head can be a placement that goes on, and the head is gone
    exfalso
    by_cases hjh : j = t.queueHead
    · have hget : (advanceHead t).queue.get j = default := by
        rw [hjh]
        exact Mapping.absent _ _ (Finset.notMem_erase t.queueHead _)
      rw [hget] at hj
      exact hj rfl
    · have hget : (advanceHead t).queue.get j = s.queue.get j := by
        rw [← ht.queue]
        exact Mapping.get_delete_ne hjh
      rw [hget] at hp hj
      rw [ht.queueHead] at hjh
      exact hjh (h.cont j hp hj).1

theorem notifyBatchAccepted_quiet {d n c : ℕ} : Quiet s (notifyBatchAccepted d n c s) := rfl

theorem leaveHead_sound (h : Sound s) (hs : s.queueSize ≠ 0) (ht : Served s t) :
    Sound (leaveHead e t) := by
  have hadvance := advanceHead_sound h hs ht
  unfold leaveHead
  dsimp only
  split
  · exact hadvance.quiet notifyBatchAccepted_quiet
  · exact hadvance

theorem goOn_quiet : Quiet s (goOn s) := by
  unfold goOn
  split
  · rfl
  · split <;> rfl

/-! ## A placement -/

/-- A number for a placement on the book `s`: given out, and younger than every order. -/
structure Fresh (id : ℕ) (s : Book) : Prop where
  ne : id ≠ 0
  old : ∀ j ∈ s.orders.keys, j < id
  lt : id < s.nextOrderId

theorem insert_apart {k : Taker} {a f : ℕ} (hapart : Apart s) (hmarket : k.isMarket = false)
    (hclear : ∀ p ∈ (s.levels k.opposite).keys, k.crosses p = false)
    (hin : Insertion k.orderId (restingOrder k a f) s t) : Apart t := by
  intro outcome epoch bid hb ask ha
  have hcross : ∀ p, k.crosses p = false →
      if k.isBuy then k.storedPrice < p else p < k.storedPrice := by
    intro p hp
    unfold Taker.crosses pricesCross at hp
    rw [hmarket, if_neg Bool.false_ne_true] at hp
    cases hk : k.isBuy with
    | true => simpa [hk] using hp
    | false => simpa [hk] using hp
  rw [hin.levels] at hb ha
  rcases hb with hb | hb
  · have hside := congrArg Prod.fst hb
    have hbuy : k.isBuy = true := (congrArg Side.isBuy hside).symm
    have hprice : bid = k.storedPrice := congrArg Prod.snd hb
    rcases ha with ha | ha
    · have hsell : k.isBuy = false := (congrArg (fun q : Side × ℕ => q.1.isBuy) ha).symm
      rw [hbuy] at hsell
      cases hsell
    · have hopp : k.opposite = ⟨outcome, false, epoch⟩ := by
        have ho : outcome = k.outcomeId := congrArg Side.outcomeId hside
        have he : epoch = k.epochId := congrArg Side.epochId hside
        unfold Taker.opposite
        rw [hbuy, ho, he]
        rfl
      have hlt := hcross ask (hclear ask (by rw [hopp]; exact ha))
      rw [hbuy, if_pos rfl] at hlt
      rw [hprice]
      exact hlt
  · rcases ha with ha | ha
    · have hside := congrArg Prod.fst ha
      have hsell : k.isBuy = false := (congrArg Side.isBuy hside).symm
      have hprice : ask = k.storedPrice := congrArg Prod.snd ha
      have hopp : k.opposite = ⟨outcome, true, epoch⟩ := by
        have ho : outcome = k.outcomeId := congrArg Side.outcomeId hside
        have he : epoch = k.epochId := congrArg Side.epochId hside
        unfold Taker.opposite
        rw [hsell, ho, he]
        rfl
      have hlt := hcross bid (hclear bid (by rw [hopp]; exact hb))
      rw [hsell, if_neg Bool.false_ne_true] at hlt
      rw [hprice]
      exact hlt
    · exact hapart outcome epoch bid hb ask ha

theorem cancelNoBookEntry_quiet {k : Taker} {a : ℕ} : Quiet s (cancelNoBookEntry k a s) := by
  unfold cancelNoBookEntry
  refine .trans ?_ sayCancelled_quiet
  split
  · rfl
  · exact priced_quiet

/-- The last event of a placement. -/
theorem finishPlace_served {k : Taker} {w : Progress} (h : Sound s) (ht : Trimmed s w.book)
    (hid : Fresh k.orderId s)
    (hclear : k.isMarket = false → w.remaining ≠ 0 →
      ∀ p ∈ (w.book.levels k.opposite).keys, k.crosses p = false) :
    Served s (finishPlace k w) := by
  have hserved := Served.of_trimmed h ht
  have hrest : Served s (if w.remaining > 0 then
      if k.flags &&& flagIoc ≠ 0 ∨ k.flags &&& flagFok ≠ 0 ∨ k.isMarket = true then
        cancelNoBookEntry k w.remaining w.book
      else insertIntoBook k.orderId (restingOrder k w.remaining w.filledAccum) w.book
    else w.book) := by
    split
    · rename_i hpos
      split
      · exact hserved.quiet cancelNoBookEntry_quiet
      · rename_i hrests
        have hmarket : k.isMarket = false := by
          rw [← Bool.not_eq_true]
          exact fun hm => hrests (.inr (.inr hm))
        have hin := insertIntoBook_insertion
          (o := restingOrder k w.remaining w.filledAccum) ht.linked hid.ne
          (fun j hj => hid.old j (ht.keys hj)) hpos.ne'
        have hf := hin.frame
        have hnext : w.book.nextOrderId = s.nextOrderId := by rw [ht.frame]
        refine ⟨hin.linked, ?_, ?_, ?_, ?_, ?_, fun j hj => ?_,
          insert_apart hserved.apart hmarket (hclear hmarket hpos.ne') hin⟩
        · rw [hf]
          exact hserved.queue
        · rw [hf]
          exact hserved.queueHead
        · rw [hf]
          exact hserved.queueTail
        · rw [hf]
          exact hserved.queueSize
        · rw [hf]
          exact hserved.next_ne
        · rw [hin.keys] at hj
          rw [hf]
          change j < w.book.nextOrderId
          rcases Finset.mem_insert.mp hj with rfl | hj
          · rw [hnext]
            exact hid.lt
          · exact hserved.ids j hj
    · exact hserved
  unfold finishPlace
  dsimp only
  generalize (if w.remaining > 0 then _ else w.book) = v at hrest ⊢
  split
  · split
    · exact hrest.quiet send_quiet
    · exact hrest.quiet send_quiet
  · exact hrest

def Placed (id : ℕ) (s : Book) (r : Book × Option Cont) : Prop :=
  match r.2 with
  | none => Served s r.1
  | some c => Trimmed s r.1 ∧ c.orderId = id

theorem runMatch_placed {k : Taker} {f : ℕ} (h : Sound s) (hid : Fresh k.orderId s) :
    Placed k.orderId s (runMatch k f s) := by
  have hmatch := (matchTaker_trimmed (k := k)
    (w := { book := s, remaining := k.amount, filledAccum := f }) h.linked).1
  have hclear := matchTaker_clear (k := k)
    (w := { book := s, remaining := k.amount, filledAccum := f })
  have hdust : (matchTaker k { book := s, remaining := k.amount, filledAccum := f }).2 = .dust →
      k.countsQuote = true := matchLevels_dust _ _ _ _
  unfold runMatch
  generalize matchTaker k _ = r at hmatch hclear hdust ⊢
  obtain ⟨w, e⟩ := r
  have hbase : k.isMarket = false → k.countsQuote = false := by
    intro hm
    simp [Taker.countsQuote, hm]
  cases e with
  | capped => exact ⟨hmatch, rfl⟩
  | done => exact finishPlace_served h hmatch hid fun hm hr => hclear (hbase hm) h.linked rfl hr
  | dust =>
    refine finishPlace_served h hmatch hid fun hm _ => ?_
    have hquote := hdust rfl
    rw [hbase hm] at hquote
    cases hquote

theorem Sound.placed_quiet {id : ℕ} (h : Sound s) (hq : Quiet s t) : Placed id s (t, none) :=
  .of_trimmed h (.of_quiet h.linked hq)

theorem Placed.of_quiet {id : ℕ} {r : Book × Option Cont} (hq : Quiet s t) (h : Placed id t r) :
    Placed id s r := by
  unfold Placed at h ⊢
  obtain ⟨v, c⟩ := r
  cases c with
  | none =>
    have hv : Served t v := h
    refine ⟨hv.linked, hv.queue.trans ?_, hv.queueHead.trans ?_, hv.queueTail.trans ?_,
      hv.queueSize.trans ?_, hv.next_ne, hv.ids, hv.apart⟩
    · rw [hq]
    · rw [hq]
    · rw [hq]
    · rw [hq]
  | some c =>
    obtain ⟨hv, hc⟩ : Trimmed t v ∧ c.orderId = id := h
    refine ⟨⟨hv.linked, hq.frame.trans hv.frame, ?_, fun side => ?_⟩, hc⟩
    · rw [← hq.orders]
      exact hv.keys
    · rw [← hq.levels]
      exact hv.levels side

theorem Fresh.quiet {id : ℕ} (h : Fresh id s) (hq : Quiet s t) : Fresh id t := by
  refine ⟨h.ne, ?_, ?_⟩
  · rw [hq.orders]
    exact h.old
  · have hnext : t.nextOrderId = s.nextOrderId := by rw [hq]
    rw [hnext]
    exact h.lt

theorem checkAndMatch_placed {k : Taker} (h : Sound s) (hid : Fresh k.orderId s) :
    Placed k.orderId s (checkAndMatch k e s) := by
  unfold checkAndMatch
  split
  · dsimp only
    generalize precheck k (minFillOf e) e s = r
    obtain ⟨a, c⟩ := r
    have hq : Quiet s (s.check (a < u128)) := check_quiet
    cases c with
    | reached => exact .of_quiet hq (runMatch_placed (h.quiet hq) (hid.quiet hq))
    | short => exact h.placed_quiet ((hq.trans priced_quiet).trans sayCancelled_quiet)
    | yielded price => exact ⟨.of_quiet h.linked hq, rfl⟩
  · exact runMatch_placed h hid

theorem emitOrderPlaced_quiet {id : ℕ} : Quiet s (emitOrderPlaced id e s) := by
  unfold emitOrderPlaced
  dsimp only
  have hpriced : Quiet s (if e.isBuy = true ∧ e.flags &&& flagMarket = 0 then
      Book.priced s true e.price e.amount else s) := by
    split
    · exact priced_quiet
    · rfl
  exact ((hpriced.trans check_quiet).trans send_quiet).trans answer_quiet

theorem Sound.numbered {b : Bool} (h : Sound s) :
    Sound { s with nextOrderId := s.nextOrderId + 1, fault := b } ∧
    Fresh s.nextOrderId { s with nextOrderId := s.nextOrderId + 1, fault := b } := by
  refine ⟨⟨{ h.linked with }, h.window, Nat.succ_ne_zero _, fun id hid => ?_, fun j hp hj => ?_,
    h.apart⟩, h.next_ne, h.ids, Nat.lt_succ_self _⟩
  · exact (h.ids id hid).trans (Nat.lt_succ_self _)
  · obtain ⟨h1, h2, h3⟩ := h.cont j hp hj
    exact ⟨h1, h2.trans (Nat.lt_succ_self _), h3⟩

/-- What a run of the head as a placement leaves behind: see `Placed`. -/
structure Outcome (s : Book) (r : Book × Option Cont) : Prop where
  done : r.2 = none → Served s r.1
  waits : ∀ c, r.2 = some c → Sound r.1 ∧ r.1.queue = s.queue ∧ r.1.queueHead = s.queueHead ∧
    r.1.queueSize = s.queueSize ∧ Fresh c.orderId r.1

theorem Placed.outcome {id : ℕ} {r : Book × Option Cont} (h : Sound s) (hid : Fresh id s)
    (hr : Placed id s r) : Outcome s r := by
  unfold Placed at hr
  obtain ⟨v, c⟩ := r
  cases c with
  | none =>
    refine ⟨fun _ => hr, fun c hc => ?_⟩
    cases hc
  | some c =>
    obtain ⟨hv, hc⟩ : Trimmed s v ∧ c.orderId = id := hr
    have hf := hv.frame
    unfold Frame at hf
    refine ⟨fun hn => (nomatch hn), fun d hd => ?_⟩
    cases hd
    rw [hc]
    refine ⟨h.trimmed hv, ?_, ?_, ?_, hid.ne, fun j hj => hid.old j (hv.keys hj), ?_⟩
    · rw [hf]
    · rw [hf]
    · rw [hf]
    · have hnext : v.nextOrderId = s.nextOrderId := by rw [hf]
      exact hnext ▸ hid.lt

theorem Outcome.congr {r : Book × Option Cont} (h : Outcome t r) (hqueue : t.queue = s.queue)
    (hhead : t.queueHead = s.queueHead) (htail : t.queueTail = s.queueTail)
    (hsize : t.queueSize = s.queueSize) : Outcome s r := by
  refine ⟨fun hn => ?_, fun c hc => ?_⟩
  · have hv := h.done hn
    exact ⟨hv.linked, hv.queue.trans hqueue, hv.queueHead.trans hhead, hv.queueTail.trans htail,
      hv.queueSize.trans hsize, hv.next_ne, hv.ids, hv.apart⟩
  · obtain ⟨h1, h2, h3, h4, h5⟩ := h.waits c hc
    exact ⟨h1, h2.trans hqueue, h3.trans hhead, h4.trans hsize, h5⟩

theorem doPlace_outcome (h : Sound s) (he : s.queue.get s.queueHead = e) (hp : Places e) :
    Outcome s (doPlace e s) := by
  unfold doPlace
  split
  · dsimp only
    obtain ⟨hs, hid⟩ := h.numbered (b := s.fault || !decide (s.nextOrderId + 1 < u128))
    have hq : Quiet { s with
        nextOrderId := s.nextOrderId + 1, fault := s.fault || !decide (s.nextOrderId + 1 < u128) }
      (emitOrderPlaced s.nextOrderId e { s.check (s.nextOrderId + 1 < u128) with
        nextOrderId := s.nextOrderId + 1 }) := emitOrderPlaced_quiet
    generalize emitOrderPlaced s.nextOrderId e _ = v at hq ⊢
    refine Outcome.congr (t := v) ?_ (by rw [hq]) (by rw [hq]) (by rw [hq]) (by rw [hq])
    have hv := hs.quiet hq
    have hfresh : Fresh (takerOf s.nextOrderId e).orderId v := hid.quiet hq
    split
    · exact Placed.outcome hv hfresh (hv.placed_quiet (priced_quiet.trans sayCancelled_quiet))
    · exact Placed.outcome hv hfresh (checkAndMatch_placed hv hfresh)
  · rename_i hcont
    subst he
    obtain ⟨-, hlt, hold⟩ := h.cont _ hp hcont
    have hfresh : Fresh (takerOf (s.queue.get s.queueHead).targetOrderId
      (s.queue.get s.queueHead)).orderId s := ⟨hcont, hold, hlt⟩
    exact Placed.outcome h hfresh (checkAndMatch_placed h hfresh)

/-! ## Cancels -/

theorem doCancel_trimmed {owner id n : ℕ} (h : Linked s) : Trimmed s (doCancel owner id n s) := by
  unfold doCancel
  dsimp only
  split
  · exact .refl h
  split
  · exact .refl h
  · rename_i hfound _
    by_cases hid : id ∈ s.orders.keys
    · exact (cancelResting_one h hid).toTrimmed
    · -- an absent order reads as zero, which the first test sees
      rw [s.orders.absent id hid] at hfound
      exact absurd ⟨rfl, rfl⟩ hfound

theorem ownerNext {owner cur : ℕ} (h : Linked s) (hmem : cur ∈ s.orders.keys)
    (hnote : (s.orders.get cur).depositHash = owner) (hone : OneMaker cur s t)
    (hn : (s.orders.get cur).nextInOwner ≠ 0) :
    (s.orders.get cur).nextInOwner ∈ t.orders.keys ∧
      (t.orders.get (s.orders.get cur).nextInOwner).depositHash = owner := by
  obtain ⟨hnext, hcls, hlt⟩ := h.owners.next_mem hmem hn
  obtain ⟨hnext', hterms⟩ := hone.others _ hnext hlt.ne'
  refine ⟨hnext', ?_⟩
  rw [congrArg Terms.depositHash hterms]
  exact hcls.trans hnote

theorem cancelAllFrom_trimmed {owner n : ℕ} : ∀ {left cur : ℕ} {s : Book}, Linked s →
    (cur ≠ 0 → cur ∈ s.orders.keys ∧ (s.orders.get cur).depositHash = owner) →
    Trimmed s (cancelAllFrom owner n left cur s).1 := by
  intro left
  induction left with
  | zero =>
    intro cur s h hcur
    exact .refl h
  | succ left ih =>
    intro cur s h hcur
    unfold cancelAllFrom
    split
    · exact .refl h
    rename_i hne
    obtain ⟨hmem, hnote⟩ := hcur hne
    have hone : OneMaker cur s (cancelResting owner cur n s) := cancelResting_one h hmem
    exact hone.toTrimmed.trans (ih hone.linked (ownerNext h hmem hnote hone))

theorem doCancelAll_trimmed {owner n : ℕ} (h : Linked s) :
    Trimmed s (doCancelAll owner n s).1 :=
  cancelAllFrom_trimmed h fun hne => h.owners.first_mem hne

theorem drainOrders_trimmed : ∀ (l : List ℕ) {s : Book}, Linked s → l.Nodup →
    (∀ id ∈ l, id ∈ s.orders.keys) → Trimmed s (drainOrders l s) := by
  intro l
  induction l with
  | nil =>
    intro s h _ _
    exact .refl h
  | cons id l ih =>
    intro s h hnodup hmem
    obtain ⟨hnot, hnodup⟩ := List.nodup_cons.mp hnodup
    have hone : OneMaker id s (cancelResting (s.orders.get id).depositHash id 0 s) :=
      cancelResting_one h (hmem id List.mem_cons_self)
    refine hone.toTrimmed.trans (ih hone.linked hnodup fun j hj => ?_)
    have hne : j ≠ id := by
      rintro rfl
      exact hnot hj
    exact (hone.others j (hmem j (List.mem_cons_of_mem _ hj)) hne).1

/-! ## Running the head -/

/-- The head waits with the figures of `c`. -/
theorem waits_sound {c : Cont} (h : Sound s) (hs : s.queueSize ≠ 0) (hc : Fresh c.orderId s) :
    Sound { s with queue := s.queue.modify s.queueHead fun q => { q with
      amount := c.remaining, targetOrderId := c.orderId, precheckDone := c.precheckDone
      precheckAccum := c.precheckAccum, precheckLastPrice := c.precheckLastPrice
      filledAccum := c.filledAccum } } := by
  have hhead := h.window.head_mem hs
  refine ⟨{ h.linked with }, ?_, h.next_ne, h.ids, fun j hp hj => ?_, h.apart⟩
  · have hw := h.window
    rw [← Mapping.keys_modify (f := fun q : QueueEntry => { q with
      amount := c.remaining, targetOrderId := c.orderId, precheckDone := c.precheckDone
      precheckAccum := c.precheckAccum, precheckLastPrice := c.precheckLastPrice
      filledAccum := c.filledAccum }) hhead] at hw
    exact hw
  · dsimp only at hp hj ⊢
    by_cases hjh : j = s.queueHead
    · subst hjh
      rw [Mapping.get_modify]
      exact ⟨rfl, hc.lt, hc.old⟩
    · rw [Mapping.get_modify_ne hjh] at hp hj
      exact absurd (h.cont j hp hj).1 hjh

/-- The run of a head entry and what `_processHeadCore` does with the head afterwards. -/
def Kept (e : QueueEntry) (r : Book × Bool) : Prop := Sound (if r.2 then r.1 else leaveHead e r.1)

theorem Kept.drop (h : Sound s) (hs : s.queueSize ≠ 0) (ht : Served s t) : Kept e (t, false) :=
  leaveHead_sound h hs ht

theorem runPlace_kept (h : Sound s) (hs : s.queueSize ≠ 0) (he : s.queue.get s.queueHead = e)
    (hp : Places e) : Kept e (match doPlace e s with
    | (s, some c) =>
      ({ s with queue := s.queue.modify s.queueHead fun q => { q with
          amount := c.remaining, targetOrderId := c.orderId, precheckDone := c.precheckDone
          precheckAccum := c.precheckAccum, precheckLastPrice := c.precheckLastPrice
          filledAccum := c.filledAccum } }, true)
    | (s, none) => (s, false)) := by
  have hout := doPlace_outcome h he hp
  generalize doPlace e s = r at hout ⊢
  obtain ⟨v, c⟩ := r
  cases c with
  | none => exact .drop h hs (hout.done rfl)
  | some c =>
    obtain ⟨hv, hqueue, hhead, hsize, hfresh⟩ := hout.waits c rfl
    exact waits_sound hv (by rw [hsize]; exact hs) hfresh

theorem runHead_kept (h : Sound s) (hs : s.queueSize ≠ 0) (he : s.queue.get s.queueHead = e) :
    Kept e (runHead e s) := by
  unfold runHead
  cases htype : e.entryType with
  | cancel => exact .drop h hs (.of_trimmed h (doCancel_trimmed h.linked))
  | cancelAll =>
    have ht : Trimmed s (doCancelAll e.depositHash e.opNonce s).1 := doCancelAll_trimmed h.linked
    unfold Kept
    dsimp only
    split
    · exact h.trimmed ht
    · exact leaveHead_sound h hs (.of_trimmed h ht)
  | place => exact runPlace_kept h hs he ⟨by simp [htype], by simp [htype]⟩
  | absent => exact runPlace_kept h hs he ⟨by simp [htype], by simp [htype]⟩

theorem refuseHead_quiet : Quiet s (refuseHead e s) := by
  unfold refuseHead
  split
  · split
    · rfl
    · exact priced_quiet.trans sayCancelled_quiet
  · rfl

theorem processHeadCore_sound (h : Sound s) : Sound (processHeadCore s) := by
  unfold processHeadCore
  split
  · exact h
  split
  · split
    · exact h.quiet send_quiet
    · exact h
  rename_i hs
  dsimp only
  split
  · refine Sound.quiet ?_ goOn_quiet
    exact leaveHead_sound h hs (.of_trimmed h (.of_quiet h.linked refuseHead_quiet))
  · exact Sound.quiet (runHead_kept h hs rfl) goOn_quiet

/-! ## Transactions -/

theorem submitPlace_sound {d n c i : ℕ} {op : PlaceParams} (h : Sound s) :
    Sound (submitPlace d n c i op s).1 := by
  unfold submitPlace
  split
  · split
    · rename_i hsize
      exact enqueue_sound h (hsize.trans (by decide)) fun _ => rfl
    · exact h.quiet rfl
  · exact h.quiet rfl

theorem submitCancel_sound {kind : EntryType} {d id n c : ℕ} (h : Sound s)
    (hk : kind = .cancel ∨ kind = .cancelAll) : Sound (submitCancel kind d id n c s).1 := by
  unfold submitCancel
  split
  · rename_i hsize
    refine enqueue_sound h hsize fun hp => ?_
    rcases hk with rfl | rfl
    · exact absurd rfl hp.1
    · exact absurd rfl hp.2
  · exact h.quiet rfl

theorem submitCancels_sound {d n c : ℕ} : ∀ (l : List ℕ) (r : Book × Bool), Sound r.1 →
    Sound (submitCancels d n c l r).1 := by
  intro l
  induction l with
  | nil =>
    intro r h
    exact h
  | cons id l ih =>
    intro r h
    exact ih _ (submitCancel_sound h (.inl rfl))

theorem markEnd_sound {slot : ℕ} (h : Sound s) (hslot : slot ∈ s.queue.keys) :
    Sound { s with queue := s.queue.modify slot fun q => { q with isBatchEnd := true } } := by
  refine ⟨{ h.linked with }, ?_, h.next_ne, h.ids, fun j hp hj => ?_, h.apart⟩
  · have hw := h.window
    rw [← Mapping.keys_modify (f := fun q : QueueEntry => { q with isBatchEnd := true }) hslot] at hw
    exact hw
  · dsimp only at hp hj ⊢
    by_cases hjs : j = slot
    · subst hjs
      rw [Mapping.get_modify] at hp hj ⊢
      exact h.cont j hp hj
    · rw [Mapping.get_modify_ne hjs] at hp hj ⊢
      exact h.cont j hp hj

theorem lastSlot_mem (h : Sound s) (hs : s.queueSize ≠ 0) : lastSlot s ∈ s.queue.keys := by
  have hw := h.window
  rw [hw.mem]
  refine ⟨s.queueSize - 1, by omega, ?_⟩
  have htail := hw.tail_eq
  have hhead := hw.head_lt
  have hsize := hw.size_le
  unfold lastSlot
  unfold queueCapacity at *
  split <;> omega

def Flagged (r : Book × Bool) : Prop := Sound r.1 ∧ (r.2 = true → r.1.queueSize ≠ 0)

theorem submitCancel_size {kind : EntryType} {d id n c : ℕ} :
    s.queueSize ≤ (submitCancel kind d id n c s).1.queueSize ∧
    ((submitCancel kind d id n c s).2 = true →
      (submitCancel kind d id n c s).1.queueSize ≠ 0) := by
  unfold submitCancel
  split
  · exact ⟨Nat.le_succ _, fun _ => Nat.succ_ne_zero _⟩
  · exact ⟨le_rfl, fun hf => nomatch hf⟩

theorem submitPlace_size {d n c i : ℕ} {op : PlaceParams} :
    s.queueSize ≤ (submitPlace d n c i op s).1.queueSize ∧
    ((submitPlace d n c i op s).2 = true → (submitPlace d n c i op s).1.queueSize ≠ 0) := by
  unfold submitPlace
  split
  · split
    · exact ⟨Nat.le_succ _, fun _ => Nat.succ_ne_zero _⟩
    · exact ⟨le_rfl, fun hf => nomatch hf⟩
  · exact ⟨le_rfl, fun hf => nomatch hf⟩

theorem Flagged.or {r q : Book × Bool} (h : Flagged r) (hq : Sound q.1)
    (hsize : r.1.queueSize ≤ q.1.queueSize ∧ (q.2 = true → q.1.queueSize ≠ 0)) :
    Flagged (q.1, r.2 || q.2) := by
  refine ⟨hq, fun hf => ?_⟩
  rcases Bool.or_eq_true_iff.mp hf with hr | hr
  · have hne := h.2 hr
    change q.1.queueSize ≠ 0
    omega
  · exact hsize.2 hr

theorem submitCancels_flagged {d n c : ℕ} : ∀ (l : List ℕ) (r : Book × Bool), Flagged r →
    Flagged (submitCancels d n c l r) := by
  intro l
  induction l with
  | nil =>
    intro r h
    exact h
  | cons id l ih =>
    intro r h
    exact ih _ (h.or (submitCancel_sound h.1 (.inl rfl)) submitCancel_size)

theorem submitPlaces_flagged {d n c : ℕ} : ∀ (l : List PlaceParams) (i : ℕ) (r : Book × Bool),
    Flagged r → Flagged (submitPlaces d n c i l r) := by
  intro l
  induction l with
  | nil =>
    intro i r h
    exact h
  | cons op l ih =>
    intro i r h
    exact ih _ _ (h.or (submitPlace_sound h.1) submitPlace_size)

theorem closeBatch_sound {d n c : ℕ} {r : Book × Bool} (h : Flagged r) :
    Sound (closeBatch d n c r) := by
  unfold closeBatch
  split
  · rename_i hr
    exact processHeadCore_sound (markEnd_sound h.1 (lastSlot_mem h.1 (h.2 hr)))
  · exact (processHeadCore_sound h.1).quiet notifyBatchAccepted_quiet

theorem Sound.with_admitted {a : List Admitted} (h : Sound s) : Sound { s with admitted := a } :=
  ⟨{ h.linked with }, h.window, h.next_ne, h.ids, h.cont, h.apart⟩

theorem toCancel_mem {id : ℕ} (h : id ∈ toCancel s) : id ∈ s.orders.keys := by
  have hamount := (List.mem_filter.mp h).2
  simp only [gt_iff_lt, decide_eq_true_eq] at hamount
  exact Linked.mem_of_amount hamount.ne'

theorem toCancel_nodup : (toCancel s).Nodup := List.Nodup.filter _ (List.nodup_range' 1)

theorem tearDown_sound (h : Sound s) : Sound (tearDown s) := by
  unfold tearDown
  dsimp only
  split
  · exact ⟨{ h.linked with }, h.window, h.next_ne, h.ids, h.cont, h.apart⟩
  · exact ⟨{ h.linked with }, h.window, h.next_ne, h.ids, h.cont, h.apart⟩

theorem shutdown_sound (h : Sound s) (hd : shutdown m s = .ok t) : Sound t := by
  simp only [shutdown, require_bind_ok] at hd
  obtain ⟨-, hd⟩ := hd
  split at hd
  · cases hd
    exact ⟨{ h.linked with }, h.window, h.next_ne, h.ids, h.cont, h.apart⟩
  · cases hd
    have hs : ∀ c, Sound { s with
        shuttingDown := true, shutdownPending := false, shutdownCursor := c } := fun _ =>
      ⟨{ h.linked with }, h.window, h.next_ne, h.ids, h.cont, h.apart⟩
    have hmem : ∀ id ∈ toCancel { s with shuttingDown := true, shutdownPending := false },
        id ∈ s.orders.keys := fun id hid => toCancel_mem hid
    have hdrain := (hs (scanEnd { s with shuttingDown := true, shutdownPending := false })).trimmed
      (drainOrders_trimmed _ (hs _).linked toCancel_nodup hmem)
    split
    · exact hdrain.quiet send_quiet
    · exact tearDown_sound hdrain

theorem dispatch_sound {c : Call} (h : Sound s) (hd : dispatch env m s c = .ok t) : Sound t := by
  cases c with
  | executeBatch d o l n =>
    simp only [dispatch, executeBatch, require_bind_ok] at hd
    obtain ⟨-, -, -, -, -, hd⟩ := hd
    cases hd
    refine closeBatch_sound (submitPlaces_flagged _ _ _ (submitCancels_flagged _ _ ?_))
    exact ⟨h.with_admitted, by intros; contradiction⟩
  | cancelAllOrders d n =>
    simp only [dispatch, cancelAllOrders, require_bind_ok] at hd
    obtain ⟨-, -, -, hd⟩ := hd
    cases hd
    exact closeBatch_sound ⟨submitCancel_sound h.with_admitted (.inr rfl), submitCancel_size.2⟩
  | processHead =>
    cases hd
    exact processHeadCore_sound h
  | shutdown => exact shutdown_sound h hd
  | setResultStart r =>
    simp only [dispatch, setResultStart, require_bind_ok] at hd
    obtain ⟨-, -, -, hd⟩ := hd
    cases hd
    exact ⟨{ h.linked with }, h.window, h.next_ne, h.ids, h.cont, h.apart⟩
  | onBounce =>
    cases hd
    exact h.quiet send_quiet

theorem perform_sound {tx : Tx} (h : Sound s) (hp : perform env tx s = .ok t) : Sound t := by
  simp only [perform, require_bind_ok] at hp
  exact dispatch_sound (s := enter tx.msg s)
    ⟨{ h.linked with }, h.window, h.next_ne, h.ids, h.cont, h.apart⟩ hp.2.2

theorem exec_perform {tx : Tx} (he : exec env tx s = .ok t) :
    perform env tx s = .ok t ∧ t.fault = false := by
  unfold exec at he
  split at he
  · cases he
  · rename_i u hu
    split at he
    · cases he
    · rename_i hf
      cases he
      exact ⟨hu, by simpa using hf⟩

theorem constructed_sound (h : Constructed env s) : Sound s := by
  obtain ⟨_, _, _, _, m, hc⟩ := h
  simp only [construct, require_bind_ok] at hc
  obtain ⟨-, hc⟩ := hc
  cases hc
  have hempty : Linked ({} : Book) := by
    refine ⟨fun k => ⟨[], ⟨rfl, rfl, trivial⟩, List.Pairwise.nil, fun x => ?_⟩,
      fun k => ⟨[], ⟨rfl, rfl, trivial⟩, List.Pairwise.nil, fun x => ?_⟩, fun b p => ?_,
      fun b p => ?_, rfl, fun id hid => ?_⟩
    · exact iff_of_false List.not_mem_nil fun hx => Finset.notMem_empty x hx.1
    · exact iff_of_false List.not_mem_nil fun hx => Finset.notMem_empty x hx.1
    · exact iff_of_false (Finset.notMem_empty p) fun hf => hf rfl
    · exact (Finset.sum_empty).symm
    · exact absurd hid (Finset.notMem_empty id)
  exact ⟨{ hempty with }, .empty (by decide), Nat.one_ne_zero,
    fun id hid => absurd hid (Finset.notMem_empty id), fun j _ hj => absurd rfl hj,
    fun _ _ bid hb => absurd hb (Finset.notMem_empty bid)⟩

theorem reachable_sound (h : Reachable env s) : Sound s :=
  h.invariant (fun _ => constructed_sound)
    fun _ _ _ hs _ he => perform_sound hs (exec_perform he).1

def Rests (s : Book) (id : ℕ) : Prop := id ∈ s.orders.keys

/-- Both families of lists thread exactly the resting orders, in the order of their numbers; levels
hold what rests on them and the count is theirs; the queue occupies its window; bids and asks of
one outcome and epoch do not cross. -/
structure Structured (s : Book) : Prop where
  levels : ∀ side price, ∃ l : List ℕ,
    Threaded (fun id => (s.orders.get id).nextAtPrice) (fun id => (s.orders.get id).prevAtPrice)
      (s.level side price).firstOrderId (s.level side price).lastOrderId l ∧
    l.Pairwise (· < ·) ∧
    (∀ id, id ∈ l ↔
      Rests s id ∧ (s.orders.get id).side = side ∧ (s.orders.get id).price = price) ∧
    (price ∈ (s.levels side).keys ↔ l ≠ []) ∧
    (s.level side price).totalAmount = (l.map fun id => (s.orders.get id).amount).sum
  positive : ∀ id, Rests s id → 0 < (s.orders.get id).amount
  owners : ∀ note, ∃ l : List ℕ,
    Threaded (fun id => (s.orders.get id).nextInOwner) (fun id => (s.orders.get id).prevInOwner)
      (s.ownerHead note) (s.ownerTail note) l ∧
    l.Pairwise (· < ·) ∧ ∀ id, id ∈ l ↔ Rests s id ∧ (s.orders.get id).depositHash = note
  count : s.orderCount = Set.ncard {id | Rests s id}
  tail : s.queueTail = (s.queueHead + s.queueSize) % queueCapacity
  size : s.queueSize ≤ queueCapacity
  slots : ∀ slot, slot ∈ s.queue.keys ↔
    ∃ i < s.queueSize, slot = (s.queueHead + i) % queueCapacity
  apart : ∀ bid ask, Rests s bid → Rests s ask →
    (s.orders.get bid).outcomeId = (s.orders.get ask).outcomeId →
    (s.orders.get bid).epochId = (s.orders.get ask).epochId →
    (s.orders.get bid).isBuy = true → (s.orders.get ask).isBuy = false →
    (s.orders.get bid).price < (s.orders.get ask).price

theorem total_eq_sum {k : Side × ℕ} {l : List ℕ} (hnodup : l.Nodup)
    (hmem : ∀ id, id ∈ l ↔ id ∈ s.orders.keys ∧ (s.orders.get id).place = k) :
    s.orders.total (restingAt k) = (l.map fun id => (s.orders.get id).amount).sum := by
  have hset : s.orders.keys.filter (fun id => (s.orders.get id).place = k) = l.toFinset := by
    ext id
    rw [Finset.mem_filter, List.mem_toFinset, hmem]
  unfold Mapping.total restingAt
  rw [← Finset.sum_filter, hset, List.sum_toFinset _ hnodup]

theorem Linked.level_mem {id : ℕ} (h : Linked s) (hid : id ∈ s.orders.keys) :
    (s.orders.get id).price ∈ (s.levels (s.orders.get id).side).keys :=
  (h.level_iff _ _).mpr (h.prices.first_ne_zero hid)

theorem orderBook_structured (env : Env) (s : Book) (h : Reachable env s) : Structured s := by
  have hs := reachable_sound h
  have hl := hs.linked
  refine ⟨fun side price => ?_, fun id hid => Nat.pos_of_ne_zero (hl.live id hid), fun note => ?_,
    ?_, hs.window.tail_eq, hs.window.size_le, hs.window.mem, ?_⟩
  · obtain ⟨l, hthread, hsorted, hmem⟩ := hl.prices (side, price)
    refine ⟨l, hthread, hsorted, fun id => ?_, ?_, ?_⟩
    · rw [hmem id]
      exact and_congr_right fun _ => Prod.mk.injEq .. |>.to_iff
    · rw [hl.level_iff]
      exact not_congr hthread.first_eq_zero
    · rw [hl.totals]
      exact total_eq_sum hsorted.nodup hmem
  · obtain ⟨l, hthread, hsorted, hmem⟩ := hl.owners note
    exact ⟨l, hthread, hsorted, hmem⟩
  · have hset : {id | Rests s id} = (s.orders.keys : Set ℕ) := rfl
    rw [hset, Set.ncard_coe_finset]
    exact hl.count
  · intro bid ask hb ha houtcome hepoch hbuy hsell
    have hbid := Linked.level_mem hl hb
    have hask := Linked.level_mem hl ha
    unfold Terms.side at hbid hask
    rw [hbuy, houtcome, hepoch] at hbid
    rw [hsell] at hask
    exact hs.apart _ _ _ hbid _ hask

/-! ## A book in use -/

def sampleEnv : Env where
  noteAddress h := 1000 + h
  pmpAddress tokenType := 500 + tokenType

def sampleBook : Book :=
  { tokenType := currenciesIdUsdc, self := 9, pmpAddress := 503, resultStart := 1000
    numOutcomes := 2, nextOrderId := 1, nextQueueId := 1, now := 10 }

theorem sampleBook_constructed : Constructed sampleEnv sampleBook :=
  ⟨currenciesIdUsdc, 9, 1000, 2, ⟨503, 10, 0⟩, by
    simp [construct, sampleEnv, sampleBook, require, bind, Except.bind, pure, Except.pure,
      currenciesIdUsdc]⟩

def playedBook (l : List Tx) : Option Book :=
  TransactionSystem.play (exec sampleEnv) (fun _ _ => True) l sampleBook

theorem playedBook_reachable {l : List Tx} {p : Book → Bool} (h : (playedBook l).any p = true) :
    ∃ s, Reachable sampleEnv s ∧ p s = true := by
  obtain ⟨s, hs, hp⟩ := (Option.any_eq_true _ _).mp h
  exact ⟨s, TransactionSystem.Reachable.play (.start sampleBook_constructed) hs, hp⟩

def sampleBatch (h nonce : ℕ) (orders : List PlaceParams) : Tx :=
  ⟨⟨1000 + h, 20, 0⟩, .executeBatch h orders [] nonce⟩

def samplePoke : Tx := ⟨⟨77, 20, 0⟩, .processHead⟩

/-- Two asks at one price, a bid that takes the first and part of the second, and a bid that
rests below. -/
theorem orderBook_structured_three : ∃ s, Reachable sampleEnv s ∧ s.orderCount = 2 ∧
    (s.level ⟨0, false, 1⟩ 5000).totalAmount = 3000000 ∧ s.ownerHead 2 = 4 ∧ Structured s := by
  have hplay : (playedBook [sampleBatch 1 1
        [{ price := 5000, amount := 4000000, epochId := 1 },
          { price := 5000, amount := 6000000, epochId := 1 }], samplePoke,
      sampleBatch 2 1 [{ isBuy := true, price := 6000, amount := 7000000, epochId := 1 },
        { isBuy := true, price := 4000, amount := 5000000, epochId := 1 }],
      samplePoke]).any (fun s => decide (s.orderCount = 2) &&
        decide ((s.level ⟨0, false, 1⟩ 5000).totalAmount = 3000000) &&
        decide (s.ownerHead 2 = 4)) = true := by
    decide +kernel
  obtain ⟨s, hs, hp⟩ := playedBook_reachable hplay
  simp only [Bool.and_eq_true, decide_eq_true_eq] at hp
  exact ⟨s, hs, hp.1.1, hp.1.2, hp.2, orderBook_structured sampleEnv s hs⟩

end DexOrderBookStructure
