import Dexdo.InferenceOrderBookMatching
import Dexdo.CircularWindow
import Mathlib.Data.Set.Card

/-! # The structure of every reachable book

The lists, the levels, the count and the queue window hold after every transaction, whatever the
senders do. -/
namespace InferenceOrderBookStructure

open TokenContractState SolidityMapping IntrusiveList CircularWindow InferenceOrderBookState
open InferenceOrderBookCalls InferenceOrderBookLists InferenceOrderBookMatching

variable {env : Env} {s t : Book} {e : QueueEntry} {m : Msg}

structure Sound (s : Book) : Prop where
  linked : Linked s
  window : Window queueCapacity s.queueHead s.queueSize s.queueTail s.queue.keys
  next_ne : s.nextOrderId ≠ 0
  ids : ∀ id ∈ s.orders.keys, id < s.nextOrderId
  cont : ∀ j, (s.queue.get j).contOrderId ≠ 0 → j = s.queueHead ∧
    (s.queue.get j).contOrderId < s.nextOrderId ∧
    ∀ id ∈ s.orders.keys, id < (s.queue.get j).contOrderId

theorem Sound.trimmed (h : Sound s) (ht : Trimmed s t) : Sound t := by
  refine ⟨ht.linked, ?_, ?_, fun id hid => ?_, fun j hj => ?_⟩
  · rw [ht.queueHead, ht.queueSize, ht.queueTail, ht.queue]
    exact h.window
  · rw [ht.nextOrderId]
    exact h.next_ne
  · rw [ht.nextOrderId]
    exact h.ids id (ht.keys hid)
  · rw [ht.queue] at hj ⊢
    obtain ⟨h1, h2, h3⟩ := h.cont j hj
    rw [ht.queueHead, ht.nextOrderId]
    exact ⟨h1, h2, fun id hid => h3 id (ht.keys hid)⟩

theorem Sound.quiet (h : Sound s) (hq : Quiet s t) : Sound t :=
  h.trimmed (.of_quiet h.linked hq)

/-! ## The queue -/

theorem enqueue_sound (h : Sound s) (hs : s.queueSize < queueCapacity) (he : e.contOrderId = 0) :
    Sound (enqueue e s) := by
  refine ⟨{ h.linked with }, h.window.push hs, h.next_ne, h.ids, fun j hj => ?_⟩
  by_cases hjt : j = s.queueTail
  · have hget : (enqueue e s).queue.get j = e := by
      rw [hjt]
      exact Mapping.get_set
    rw [hget] at hj
    exact absurd he hj
  · have hget : (enqueue e s).queue.get j = s.queue.get j := Mapping.get_set_ne hjt
    rw [hget] at hj ⊢
    exact h.cont j hj

/-- What the run of a head entry that is done with leaves: the queue as it was, and every order
older than the next number. -/
structure Served (s t : Book) : Prop where
  linked : Linked t
  queue : t.queue = s.queue
  queueHead : t.queueHead = s.queueHead
  queueTail : t.queueTail = s.queueTail
  queueSize : t.queueSize = s.queueSize
  next_ne : t.nextOrderId ≠ 0
  ids : ∀ id ∈ t.orders.keys, id < t.nextOrderId

theorem Served.of_trimmed (h : Sound s) (ht : Trimmed s t) : Served s t := by
  have hs := h.trimmed ht
  exact ⟨hs.linked, ht.queue, ht.queueHead, ht.queueTail, ht.queueSize, hs.next_ne, hs.ids⟩

theorem advanceHead_sound (h : Sound s) (hs : s.queueSize ≠ 0) (ht : Served s t) :
    Sound (advanceHead t) := by
  have hwindow := h.window.pop hs
  have hlinked := ht.linked
  refine ⟨{ hlinked with }, ?_, ht.next_ne, ht.ids, fun j hj => ?_⟩
  · unfold advanceHead
    dsimp only
    rw [ht.queueHead, ht.queueSize, ht.queueTail, ht.queue]
    exact hwindow
  · -- only the head can be a continued placement, and the head is gone
    exfalso
    by_cases hjh : j = t.queueHead
    · have hget : (advanceHead t).queue.get j = default := by
        rw [hjh]
        exact Mapping.absent _ _ (Finset.notMem_erase t.queueHead _)
      rw [hget] at hj
      exact hj rfl
    · have hget : (advanceHead t).queue.get j = s.queue.get j := by
        rw [← ht.queue]
        exact Mapping.get_delete_ne hjh
      rw [hget] at hj
      rw [ht.queueHead] at hjh
      exact hjh (h.cont j hj).1

/-! ## Running the head -/

/-- The run of a head entry and what `_processHeadCore` does with the head afterwards. -/
def Kept (r : Book × Bool) : Prop := Sound (if r.2 then r.1 else advanceHead r.1)

theorem Kept.drop (h : Sound s) (hs : s.queueSize ≠ 0) (ht : Served s t) : Kept (t, false) :=
  advanceHead_sound h hs ht

theorem finalizeTaker_served {id remaining leftover : ℕ} (h : Sound s)
    (ht : Trimmed s t) (hid : id ≠ 0) (hold : ∀ j ∈ s.orders.keys, j < id)
    (hnew : id < s.nextOrderId) : Served s (finalizeTaker id e remaining leftover t) := by
  have hserved := Served.of_trimmed h ht
  have hinsert : ∀ (o : Order) (p : Prop) [Decidable p], o.amount ≠ 0 →
      Served s (insertIntoBook id o (t.check p)) := by
    intro o p _ hamount
    have hlinked : Linked (t.check p) := { ht.linked with }
    have hin := insertIntoBook_insertion (o := o) hlinked hid (fun j hj => hold j (ht.keys hj))
      hamount
    have hf := hin.frame
    refine ⟨hin.linked, ?_, ?_, ?_, ?_, ?_, fun j hj => ?_⟩
    · rw [hf]
      exact ht.queue
    · rw [hf]
      exact ht.queueHead
    · rw [hf]
      exact ht.queueTail
    · rw [hf]
      exact ht.queueSize
    · rw [hf]
      exact hserved.next_ne
    · rw [hin.keys] at hj
      rw [hf]
      change j < t.nextOrderId
      rcases Finset.mem_insert.mp hj with rfl | hj
      · rw [ht.nextOrderId]
        exact hnew
      · exact hserved.ids j hj
  unfold finalizeTaker
  dsimp only
  split
  · split
    · exact .of_trimmed h { ht with linked := { ht.linked with } }
    · rename_i hrest
      exact hinsert _ _ (by simp only; omega)
  · split
    · rename_i hrest
      exact hinsert _ _ (by simp only; omega)
    split
    · exact .of_trimmed h { ht with linked := { ht.linked with } }
    · exact hserved

theorem runPlace_kept {id amount escrow resume : ℕ} (h : Sound s) (hs : s.queueSize ≠ 0)
    (hid : id ≠ 0) (hold : ∀ j ∈ s.orders.keys, j < id) (hnew : id < s.nextOrderId) :
    Kept (runPlace id amount escrow resume e s) := by
  have ht := matchTaker_trimmed (takerOf id e) amount escrow resume h.linked
  unfold runPlace
  generalize matchTaker _ _ _ _ _ = r at ht ⊢
  obtain ⟨p, c⟩ := r
  cases c with
  | none => exact .drop h hs (finalizeTaker_served h ht hid hold hnew)
  | some cur =>
    have hp := h.trimmed ht
    have hkeys : insert p.book.queueHead p.book.queue.keys = p.book.queue.keys :=
      Finset.insert_eq_of_mem (hp.window.head_mem (by rw [ht.queueSize]; exact hs))
    refine ⟨{ hp.linked with }, ?_, hp.next_ne, hp.ids, fun j hj => ?_⟩
    · have hw := hp.window
      rw [← hkeys] at hw
      exact hw
    · dsimp only at hj ⊢
      by_cases hjh : j = p.book.queueHead
      · subst hjh
        rw [if_pos rfl, Mapping.get_set]
        dsimp only
        rw [ht.nextOrderId]
        exact ⟨rfl, hnew, fun i hi => hold i (ht.keys hi)⟩
      · rw [if_pos rfl, Mapping.get_set_ne hjh] at hj
        exact absurd (hp.cont j hj).1 hjh

theorem dropLapsed_quiet : Quiet s (dropLapsed e s) := by
  unfold dropLapsed rejectToNote
  refine .trans ?_ rfl
  have hfree : Quiet s (if e.isBuy = true then s else freeDeal e.tokenContract s) := by
    split
    · rfl
    · exact freeDeal_quiet
  split
  · exact hfree.trans rfl
  · exact hfree.trans rfl

theorem refusePlacement_quiet {reason : PlaceRej} : Quiet s (refusePlacement reason e s) := by
  unfold refusePlacement rejectToNote
  refine .trans (.trans ?_ sendFor_quiet) sendFor_quiet
  split
  · rfl
  · exact freeDeal_quiet

theorem doPlaceHead_kept (h : Sound s) (hs : s.queueSize ≠ 0) : Kept (doPlaceHead s) := by
  have hquiet : ∀ {t}, Quiet s t → Kept (t, false) := fun hq =>
    .drop h hs (.of_trimmed h (.of_quiet h.linked hq))
  unfold doPlaceHead
  generalize he : s.queue.get s.queueHead = e
  dsimp only
  split
  · exact hquiet dropLapsed_quiet
  split
  · rename_i hfirst
    split
    · exact hquiet refusePlacement_quiet
    split
    · exact hquiet refusePlacement_quiet
    · refine runPlace_kept ?_ hs h.next_ne h.ids (Nat.lt_succ_self _)
      refine ⟨{ h.linked with }, h.window, Nat.succ_ne_zero _,
        fun id hid => (h.ids id hid).trans (Nat.lt_succ_self _), fun j hj => ?_⟩
      obtain ⟨h1, h2, h3⟩ := h.cont j hj
      exact ⟨h1, h2.trans (Nat.lt_succ_self _), h3⟩
  · rename_i hcont
    subst he
    obtain ⟨-, hlt, hold⟩ := h.cont _ hcont
    exact runPlace_kept h hs hcont hold hlt

theorem doCancel_trimmed {owner : Address} {id : ℕ} (h : Linked s) :
    Trimmed s (doCancel owner id s) := by
  have hquiet : ∀ {t}, Quiet s t → Trimmed s t := fun hq =>
    .of_quiet h hq
  unfold doCancel
  dsimp only
  split
  · exact hquiet rfl
  split
  · exact hquiet rfl
  · rename_i hfound _
    by_cases hid : id ∈ s.orders.keys
    · exact (cancelRemove_one _ h hid).toTrimmed
    · -- an absent order reads as zero, which the first test sees
      rw [s.orders.absent id hid] at hfound
      exact absurd ⟨rfl, rfl⟩ hfound

theorem ownerNext {owner : Address} {cur : ℕ} (h : Linked s) (hmem : cur ∈ s.orders.keys)
    (hnote : (s.orders.get cur).note = owner) (hone : OneMaker cur s t)
    (hn : (s.orders.get cur).nextInOwner ≠ 0) :
    (s.orders.get cur).nextInOwner ∈ t.orders.keys ∧
      (t.orders.get (s.orders.get cur).nextInOwner).note = owner := by
  obtain ⟨hnext, hcls, hlt⟩ := h.owners.next_mem hmem hn
  obtain ⟨hnext', hterms⟩ := hone.others _ hnext hlt.ne'
  refine ⟨hnext', ?_⟩
  rw [congrArg Terms.note hterms]
  exact hcls.trans hnote

theorem cancelAllFrom_trimmed {owner : Address} : ∀ {left cur : ℕ} {s : Book}, Linked s →
    (cur ≠ 0 → cur ∈ s.orders.keys ∧ (s.orders.get cur).note = owner) →
    Trimmed s (cancelAllFrom owner left cur s).1 := by
  intro left
  induction left with
  | zero =>
    intro cur s h hcur
    exact .refl h
  | succ left ih =>
    intro cur s h hcur
    unfold cancelAllFrom
    split
    · exact .refl h
    rename_i hne
    obtain ⟨hmem, hnote⟩ := hcur hne
    have hone := cancelRemove_one owner h hmem
    exact hone.toTrimmed.trans (ih hone.linked (ownerNext h hmem hnote hone))

theorem doCancelAll_trimmed (owner : Address) (h : Linked s) :
    Trimmed s (doCancelAll owner s).1 :=
  cancelAllFrom_trimmed h fun hne => h.owners.first_mem hne

theorem doExpire_trimmed {id : ℕ} (h : Linked s) : Trimmed s (doExpire id s) := by
  unfold doExpire
  dsimp only
  split
  · exact .refl h
  rename_i hfound
  split
  · exact .refl h
  have hid : id ∈ s.orders.keys := by
    by_contra hid
    rw [s.orders.absent id hid] at hfound
    exact hfound ⟨rfl, rfl⟩
  split
  · exact (removeExpiredBid_one h hid).toTrimmed
  · exact (removeExpiredSell_one h hid).toTrimmed

theorem runHead_kept (h : Sound s) (hs : s.queueSize ≠ 0) : Kept (runHead s) := by
  unfold runHead
  dsimp only
  split
  · exact .drop h hs (.of_trimmed h (doCancel_trimmed h.linked))
  · have ht := doCancelAll_trimmed (s.queue.get s.queueHead).owner h.linked
    unfold Kept
    dsimp only
    split
    · exact h.trimmed ht
    · exact advanceHead_sound h hs (.of_trimmed h ht)
  · exact .drop h hs (.of_trimmed h (doExpire_trimmed h.linked))
  · exact doPlaceHead_kept h hs
  · exact doPlaceHead_kept h hs

theorem processHeadCore_sound (h : Sound s) : Sound (processHeadCore s) := by
  unfold processHeadCore
  split
  · exact h
  rename_i hs
  have hkept := runHead_kept h hs
  unfold Kept at hkept
  dsimp only
  generalize (if (runHead s).2 = true then (runHead s).1 else advanceHead (runHead s).1) = u
    at hkept ⊢
  split
  · exact hkept.quiet sendFor_quiet
  · exact hkept

/-! ## Transactions -/

theorem submit_sound (h : Sound s) (hs : s.queueSize < queueCapacity) (he : e.contOrderId = 0) :
    Sound (processHeadCore (enqueue e s)) :=
  processHeadCore_sound (enqueue_sound h hs he)

theorem dispatch_sound {c : Call} (h : Sound s) (hd : dispatch env m s c = .ok t) : Sound t := by
  have hlimit : ∀ {n}, n < queuePlaceLimit → n < queueCapacity := fun hn =>
    hn.trans (by decide)
  cases c with
  | placeSellOffer p n f k i o d =>
    simp only [dispatch, placeSellOffer, require_bind_ok] at hd
    obtain ⟨-, hd⟩ := hd
    split at hd
    · cases hd
      exact h.quiet rfl
    · rename_i hgood
      cases hd
      exact submit_sound h (hlimit (not_le.mp (not_or.mp hgood).2)) rfl
  | placeBuyOrder c e p n f d k i =>
    simp only [dispatch, placeBuyOrder, require_bind_ok] at hd
    obtain ⟨-, -, -, -, -, -, -, -, -, -, -, -, -, hs, hd⟩ := hd
    cases hd
    refine submit_sound ?_ (hlimit hs) rfl
    exact ⟨{ h.linked with }, h.window, h.next_ne, h.ids, h.cont⟩
  | cancelOrder id =>
    cases hd
    unfold cancelOrder
    split
    · exact h.quiet rfl
    · exact submit_sound h (by omega) rfl
  | cancelAllOrders =>
    cases hd
    unfold cancelAllOrders
    split
    · exact h.quiet rfl
    · exact submit_sound h (by omega) rfl
  | expireOrder id =>
    simp only [dispatch, expireOrder, require_bind_ok] at hd
    obtain ⟨hs, hd⟩ := hd
    cases hd
    exact submit_sound h (hlimit hs) rfl
  | processHead =>
    cases hd
    exact processHeadCore_sound h
  | onHandoverAccepted =>
    cases hd
    exact h.quiet rfl
  | onBounce paid =>
    cases hd
    unfold onBounce
    dsimp only
    split
    · refine Sound.quiet ?_ payShell_quiet
      exact h.quiet rfl
    · exact h.quiet rfl

theorem perform_sound {tx : Tx} (h : Sound s) (hp : perform env tx s = .ok t) : Sound t :=
  dispatch_sound (s := enter tx.msg s)
    ⟨{ h.linked with }, h.window, h.next_ne, h.ids, h.cont⟩ hp

theorem exec_perform {tx : Tx} (he : exec env tx s = .ok t) :
    perform env tx s = .ok t ∧ t.fault = false := by
  unfold exec at he
  split at he
  · cases he
  · rename_i u hu
    split at he
    · cases he
    · rename_i hf
      cases he
      exact ⟨hu, by simpa using hf⟩

theorem constructed_sound (h : Constructed env s) : Sound s := by
  obtain ⟨hash, d, n, m, hc⟩ := h
  simp only [construct, require_bind_ok] at hc
  obtain ⟨-, -, -, hc⟩ := hc
  cases hc
  have hempty : Linked ({} : Book) := by
    refine ⟨fun k => ⟨[], ⟨rfl, rfl, trivial⟩, List.Pairwise.nil, fun x => ?_⟩,
      fun k => ⟨[], ⟨rfl, rfl, trivial⟩, List.Pairwise.nil, fun x => ?_⟩, fun b p => ?_, rfl,
      fun id hid => ?_⟩
    · exact iff_of_false List.not_mem_nil fun hx => Finset.notMem_empty x hx.1
    · exact iff_of_false List.not_mem_nil fun hx => Finset.notMem_empty x hx.1
    · exact iff_of_false (Finset.notMem_empty p) fun hf => hf rfl
    · exact absurd hid (Finset.notMem_empty id)
  exact ⟨{ hempty with }, .empty (by decide), Nat.one_ne_zero,
    fun id hid => absurd hid (Finset.notMem_empty id), fun j hj => absurd rfl hj⟩

theorem reachable_sound (h : Reachable env s) : Sound s :=
  h.invariant (fun _ => constructed_sound)
    fun _ _ _ hs _ he => perform_sound hs (exec_perform he).1

def Live (s : Book) (id : ℕ) : Prop := (s.orders.get id).amount ≠ 0

theorem Linked.live_iff (h : Linked s) {id : ℕ} : Live s id ↔ id ∈ s.orders.keys :=
  ⟨Linked.mem_of_amount, h.live id⟩

/-- Both families of lists thread exactly the live orders, in the order of their numbers; levels
and count agree with them; the queue occupies its window. -/
structure Structured (s : Book) : Prop where
  prices : ∀ isBuy price, ∃ l : List ℕ,
    Threaded (fun id => (s.orders.get id).nextAtPrice) (fun id => (s.orders.get id).prevAtPrice)
      (s.level isBuy price).firstOrderId (s.level isBuy price).lastOrderId l ∧
    l.Pairwise (· < ·) ∧
    (∀ id, id ∈ l ↔
      Live s id ∧ (s.orders.get id).isBuy = isBuy ∧ (s.orders.get id).price = price) ∧
    (price ∈ (s.levels isBuy).keys ↔ l ≠ [])
  owners : ∀ note, ∃ l : List ℕ,
    Threaded (fun id => (s.orders.get id).nextInOwner) (fun id => (s.orders.get id).prevInOwner)
      (s.ownerHead note) (s.ownerTail note) l ∧
    l.Pairwise (· < ·) ∧ ∀ id, id ∈ l ↔ Live s id ∧ (s.orders.get id).note = note
  count : s.orderCount = Set.ncard {id | Live s id}
  tail : s.queueTail = (s.queueHead + s.queueSize) % queueCapacity
  size : s.queueSize ≤ queueCapacity
  slots : ∀ slot, slot ∈ s.queue.keys ↔
    ∃ i < s.queueSize, slot = (s.queueHead + i) % queueCapacity

theorem reachable_structured (env : Env) (s : Book) (h : Reachable env s) : Structured s := by
  have hs := reachable_sound h
  have hl := hs.linked
  refine ⟨fun isBuy price => ?_, fun note => ?_, ?_, hs.window.tail_eq, hs.window.size_le,
    hs.window.mem⟩
  · obtain ⟨l, hthread, hsorted, hmem⟩ := hl.prices (isBuy, price)
    refine ⟨l, hthread, hsorted, fun id => ?_, ?_⟩
    · rw [hmem id, Linked.live_iff hl, Prod.mk.injEq]
    · rw [hl.level_iff]
      exact not_congr hthread.first_eq_zero
  · obtain ⟨l, hthread, hsorted, hmem⟩ := hl.owners note
    refine ⟨l, hthread, hsorted, fun id => ?_⟩
    rw [hmem id, Linked.live_iff hl]
  · have hset : {id | Live s id} = (s.orders.keys : Set ℕ) := by
      ext id
      exact Linked.live_iff hl
    rw [hset, Set.ncard_coe_finset]
    exact hl.count

/-! ## A book in use -/

def emptyNameHash : ℕ := 0xe3b0c44298fc1c149afbf4c8996fb92427ae41e4649b934ca495991b7852b855

def sampleEnv : Env where
  noteAddress h := 1000 + h
  tokenContractAddress pubkey nonce := 2000 + 10 * pubkey + nonce
  sha256 _ := emptyNameHash

def sampleBook : Book :=
  Book.send { modelHash := emptyNameHash, deployerNote := 1001, nextOrderId := 1, now := 10 }
    (.inferenceOrderBookDeployed 1001 emptyNameHash "")

theorem sampleBook_constructed : Constructed sampleEnv sampleBook :=
  ⟨emptyNameHash, 1, "", ⟨1001, 10⟩, by
    simp [construct, sampleEnv, sampleBook, require, bind, Except.bind, pure, Except.pure]⟩

def playedBook (l : List Tx) : Option Book :=
  TransactionSystem.play (exec sampleEnv) (fun _ _ => True) l sampleBook

theorem playedBook_reachable {l : List Tx} {p : Book → Bool} (h : (playedBook l).any p = true) :
    ∃ s, Reachable sampleEnv s ∧ p s = true := by
  obtain ⟨s, hs, hp⟩ := (Option.any_eq_true _ _).mp h
  exact ⟨s, TransactionSystem.Reachable.play (.start sampleBook_constructed) hs, hp⟩

/-- An offer of `ticks` at `price` steps by the deal with this key, posted for note `1002`. -/
def sampleSell (pubkey price ticks flags now : ℕ) : Tx :=
  ⟨⟨2000 + 10 * pubkey, now⟩,
    .placeSellOffer (price * priceStep) ticks flags pubkey 0 1002 500⟩

def sampleBuy (price ticks flags escrow now : ℕ) : Tx :=
  ⟨⟨1003, now⟩, .placeBuyOrder 7 (escrow * priceStep) (price * priceStep) ticks flags 0 0 3⟩

/-- Two offers and two bids, one of which took the first offer. -/
theorem reachable_structured_four : ∃ s, Reachable sampleEnv s ∧ s.orderCount = 2 ∧
    (s.level false (2 * priceStep)).firstOrderId = 2 ∧ s.ownerHead 1003 = 3 ∧ Structured s := by
  have hplay : (playedBook [sampleSell 1 2 5 0 20, sampleSell 2 2 4 0 30, sampleBuy 1 8 0 100 40,
      sampleBuy 2 5 0 100 50]).any (fun s => decide (s.orderCount = 2) &&
        decide ((s.level false (2 * priceStep)).firstOrderId = 2) &&
        decide (s.ownerHead 1003 = 3)) = true := by
    decide +kernel
  obtain ⟨s, hs, hp⟩ := playedBook_reachable hplay
  simp only [Bool.and_eq_true, decide_eq_true_eq] at hp
  exact ⟨s, hs, hp.1.1, hp.1.2, hp.2, reachable_structured sampleEnv s hs⟩

end InferenceOrderBookStructure
