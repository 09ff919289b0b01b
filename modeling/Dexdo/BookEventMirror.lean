import Dexdo.BookEvents
import Dexdo.InferenceOrderBookMoves

/-! # The event fold against the book

Every run of a book leaves a trace of its events, and what the trace has in view are the resting
orders and the announced order at the head that still waits to be matched. -/
namespace BookEventMirror

open TokenContractState hiding Out Err Sent
open SolidityMapping InferenceOrderBookState InferenceOrderBookCalls InferenceOrderBookLists
open InferenceOrderBookMatching InferenceOrderBookStructure InferenceOrderBookAccounts
open InferenceOrderBookEscrow hiding Closes
open InferenceOrderBookMoves BookEvents

variable {env : Env} {m : Msg} {s t u : Book} {k : Taker} {p q : Progress} {e : QueueEntry}
variable {id cur lp n j : ℕ} {a tc : Address}

/-! ## Rows -/

def rowOf (id : ℕ) (o : Terms) : LiveBookOrder :=
  ⟨id, o.isBuy, o.price, o.amount, o.note, o.tokenContract, o.deadline, o.flags, false⟩

def entryRow (id : ℕ) (e : QueueEntry) (ticks : ℕ) : LiveBookOrder :=
  ⟨id, e.isBuy, e.price, ticks, e.owner, e.tokenContract, e.deadline, e.flags, false⟩

def rows (m : Mapping Terms) : View :=
  fun id => if id ∈ m.keys then some (rowOf id (m.get id)) else none

def resting (s : Book) : View := rows (flat s).orders

def beside (id : ℕ) (e : QueueEntry) (ticks : ℕ) (v : View) : View :=
  Function.update v id (if ticks = 0 then none else some (entryRow id e ticks))

theorem rows_delete (m : Mapping Terms) (id : ℕ) :
    rows (m.delete id) = Function.update (rows m) id none := by
  funext i
  by_cases hi : i = id
  · subst hi
    rw [Function.update_self]
    exact if_neg (Finset.notMem_erase i m.keys)
  · rw [Function.update_of_ne hi]
    unfold rows
    have hkeys : i ∈ (m.delete id).keys ↔ i ∈ m.keys := by
      change i ∈ m.keys.erase id ↔ _
      simp [hi]
    rw [Mapping.get_delete_ne hi]
    simp only [hkeys]

theorem rows_set (m : Mapping Terms) (id : ℕ) (o : Terms) :
    rows (m.set id o) = Function.update (rows m) id (some (rowOf id o)) := by
  funext i
  by_cases hi : i = id
  · subst hi
    rw [Function.update_self]
    have hmem : i ∈ (m.set i o).keys := Finset.mem_insert_self ..
    unfold rows
    rw [if_pos hmem, Mapping.get_set]
  · rw [Function.update_of_ne hi]
    unfold rows
    have hkeys : i ∈ (m.set id o).keys ↔ i ∈ m.keys := by
      change i ∈ insert id m.keys ↔ _
      simp [hi]
    rw [Mapping.get_set_ne hi]
    simp only [hkeys]

theorem rows_mem {m : Mapping Terms} (h : id ∈ m.keys) : rows m id = some (rowOf id (m.get id)) :=
  if_pos h

/-! ## Events -/

theorem events_sendFor (s : Book) (n : ℕ) (o : Out) : events (s.sendFor n o).out =
    events s.out ++ if isEvent o then [o] else [] := by
  unfold events Book.sendFor
  dsimp only
  rw [List.map_append, List.filter_append]
  cases h : isEvent o <;> simp [h]

theorem events_send (s : Book) (o : Out) : events (s.send o).out =
    events s.out ++ if isEvent o then [o] else [] := events_sendFor s 0 o

theorem events_payShell (dest : Address) (amount tag : ℕ) (s : Book) :
    events (payShell dest amount tag s).out = events s.out := by
  unfold payShell
  split
  · rfl
  · rw [events_sendFor]
    exact List.append_nil _

theorem events_freeDeal (tc : Address) (s : Book) :
    events (freeDeal tc s).out = events s.out := by
  unfold freeDeal
  split
  · rw [events_send]
    exact List.append_nil _
  · rfl

theorem events_rejectToNote (note : Address) (c : ℕ) (reason : PlaceRej) (r tag : ℕ) (s : Book) :
    events (rejectToNote note c reason r tag s).out = events s.out := by
  unfold rejectToNote
  rw [events_sendFor]
  exact List.append_nil _

theorem events_removeFromBook (id : ℕ) (cause : Removed) (r : ℕ) (s : Book) :
    events (removeFromBook id cause r s).out = events s.out := by
  unfold removeFromBook
  dsimp only
  split
  · rfl
  · simp only [Book.check]
    rw [events_send]
    exact List.append_nil _

theorem events_insertIntoBook (id : ℕ) (o : Order) (s : Book) :
    events (insertIntoBook id o s).out = events s.out := by
  unfold insertIntoBook
  dsimp only
  rw [events_send]
  exact List.append_nil _

theorem events_refundAndRemove (id : ℕ) (cause : Removed) (s : Book) :
    events (refundAndRemove id cause s).out = events s.out ++
      if (s.orders.get id).escrow > 0 then
        [Out.inferenceRefunded id (s.orders.get id).note (s.orders.get id).escrow] else [] := by
  unfold refundAndRemove
  dsimp only
  split
  · rw [events_send, events_payShell, events_removeFromBook]
    rfl
  · rw [events_removeFromBook, List.append_nil]

theorem events_settleFill (makerId takerId : ℕ) (bn sn : Address) (pk : ℕ) (tc : Address)
    (n clearing : ℕ) (b : Bool) (d c tag : ℕ) (s : Book) :
    events (settleFill makerId takerId bn sn pk tc n clearing b d c tag s).out = events s.out ++
      [Out.inferenceFilled makerId takerId n clearing tc bn sn,
        Out.inferenceExecuted n clearing (n * unit clearing)] := by
  simp [settleFill, events, Book.send, Book.sendFor, Book.check, isEvent, List.filter]

/-! ## Resting orders that end -/

theorem resting_drop {l : List Out} (h : flat u = ((flat s).drop cur).post l) :
    resting u = Function.update (resting s) cur none := by
  unfold resting
  rw [h]
  exact rows_delete _ _

theorem resting_mem (h : cur ∈ s.orders.keys) :
    resting s cur = some (rowOf cur (s.orders.get cur).toTerms) := rows_mem (m := (flat s).orders) h

def Covers (v : View) (s : Book) : Prop := ∀ i ∈ s.orders.keys, v i = resting s i

theorem Covers.ne_none {v : View} (h : Covers v s) (hcur : cur ∈ s.orders.keys) : v cur ≠ none := by
  rw [h cur hcur, resting_mem hcur]
  exact Option.some_ne_none _

variable {v : View} {d : List ℕ}

theorem trace_cancelRemove (ht : Trace (events s.out) v n d) (hv : Covers v s)
    (hcur : cur ∈ s.orders.keys) :
    Trace (events (cancelRemove a cur s).out) (Function.update v cur none) n d := by
  have hevents : events (cancelRemove a cur s).out = events s.out ++
      [Out.inferenceOrderCancelled cur (s.orders.get cur).escrow a] := by
    unfold cancelRemove
    dsimp only
    split
    · rw [events_payShell, events_send, events_removeFromBook]
      rfl
    · rw [events_freeDeal, events_payShell, events_send, events_removeFromBook]
      rfl
  rw [hevents]
  exact ht.cancel cur _ a (hv.ne_none hcur)

theorem trace_removeExpiredBid (ht : Trace (events s.out) v n d) (hv : Covers v s)
    (hcur : cur ∈ s.orders.keys) :
    Trace (events (removeExpiredBid cur s).out) (Function.update v cur none) n d := by
  unfold removeExpiredBid
  dsimp only
  rw [events_send, events_refundAndRemove, List.append_assoc]
  apply ht.expire cur _ true _ _ (hv.ne_none hcur)
  split
  · exact Or.inr ⟨_, rfl⟩
  · exact Or.inl rfl

theorem trace_removeExpiredSell (ht : Trace (events s.out) v n d) (hv : Covers v s)
    (hcur : cur ∈ s.orders.keys) :
    Trace (events (removeExpiredSell cur s).out) (Function.update v cur none) n d := by
  unfold removeExpiredSell
  dsimp only
  rw [events_send, events_freeDeal, events_removeFromBook]
  exact ht.expire cur [] false _ _ (hv.ne_none hcur) (Or.inl rfl)

theorem trace_dust (ht : Trace (events s.out) v n d) (hv : Covers v s)
    (hcur : cur ∈ s.orders.keys) (hl : Linked s) (hs : Solvent s)
    (hb : (s.orders.get cur).isBuy = true) :
    Trace (events (refundAndRemove cur .dust s).out) (Function.update v cur none) n (cur :: d) := by
  have hrow := (hv cur hcur).trans (resting_mem hcur)
  have hprice : 0 < (s.orders.get cur).price := ht.tallied.priced cur _ hrow hb
  have hescrow : (s.orders.get cur).escrow > 0 := by
    have hcover := (hs.orders cur hcur).escrow hb
    have hamount := Nat.pos_of_ne_zero (hl.live cur hcur)
    have hcost : 0 < (s.orders.get cur).amount * unit (s.orders.get cur).price :=
      Nat.mul_pos hamount (by unfold unit; omega)
    unfold fillDebit at hcover
    exact lt_of_lt_of_le hcost ((Nat.le_add_right _ _).trans hcover)
  rw [events_refundAndRemove, if_pos hescrow]
  exact ht.drop cur _ _ (hv.ne_none hcur)

/-! ## The walk of a taker -/

theorem covers_beside (e : QueueEntry) (ticks : ℕ) (hid : ∀ i ∈ s.orders.keys, i < id) :
    Covers (beside id e ticks (resting s)) s := by
  intro i hi
  exact Function.update_of_ne (hid i hi).ne _ _

theorem beside_update {ticks : ℕ} {x : Option LiveBookOrder} (hne : cur ≠ id) :
    Function.update (beside id e ticks v) cur x = beside id e ticks (Function.update v cur x) :=
  Function.update_comm hne.symm _ _ _

/-- A walk beside its trace: what is in view are the resting orders and the taker, and a BUY with
nothing left has been filled to the last tick it announced. -/
structure Abreast (id : ℕ) (e : QueueEntry) (n : ℕ) (p : Progress) : Prop where
  trace : ∃ d, Trace (events p.book.out) (beside id e p.remaining (resting p.book)) n d
  filled : p.remaining = 0 → e.isBuy = true →
    placedTicks (events p.book.out) id ≤ filledTicks (events p.book.out) id

theorem drops_abreast (h : Abreast id e n p) (hl : Linked p.book) (hs : Solvent p.book)
    (hid : ∀ i ∈ p.book.orders.keys, i < id) (hrem : p.remaining ≠ 0)
    (hat : At (takerOf id e) lp cur p.book) (hdrop : Drops (takerOf id e) cur p.book u) :
    Abreast id e n { p with book := u, matched := p.matched + 1 } := by
  obtain ⟨d, ht⟩ := h.trace
  have hcur := hat.1
  have hne : cur ≠ id := (hid cur hcur).ne
  have hv := covers_beside e p.remaining hid
  refine ⟨?_, fun hz => absurd hz hrem⟩
  cases hdrop with
  | offer hb =>
    refine ⟨d, ?_⟩
    dsimp only
    rw [resting_drop (flat_removeExpiredSell hl hcur), ← beside_update hne]
    exact trace_removeExpiredSell ht hv hcur
  | bid hb =>
    refine ⟨d, ?_⟩
    dsimp only
    rw [resting_drop (flat_removeExpiredBid hl hcur), ← beside_update hne]
    exact trace_removeExpiredBid ht hv hcur
  | dust hb =>
    refine ⟨cur :: d, ?_⟩
    dsimp only
    rw [resting_drop (flat_refundAndRemove .dust hl hcur), ← beside_update hne]
    exact trace_dust ht hv hcur hl hs (by rw [hat.2.1, hb]; rfl)

theorem events_fillMaker_buy (lp cur n : ℕ) (p : Progress) (hk : k.isBuy = true) :
    events (fillMaker k lp cur n p).book.out = events p.book.out ++
      [Out.inferenceFilled cur k.id n lp (p.book.orders.get cur).tokenContract k.note
        (p.book.orders.get cur).note, Out.inferenceExecuted n lp (n * unit lp)] := by
  have hsettle := events_settleFill cur k.id k.note (p.book.orders.get cur).note k.buyerPubkey
    (p.book.orders.get cur).tokenContract n lp true (k.flags &&& dealFlagsMask) k.clientId k.tag
    p.book
  unfold fillMaker
  simp only [hk, if_true]
  generalize settleFill _ _ _ _ _ _ _ _ _ _ _ _ _ = w at hsettle ⊢
  rw [events_removeFromBook]
  exact hsettle

theorem events_fillMaker_sell (lp cur n : ℕ) (p : Progress) (hk : k.isBuy = false) :
    ∃ paid, events (fillMaker k lp cur n p).book.out = events p.book.out ++
        ([Out.inferenceFilled cur k.id n k.price k.tc (p.book.orders.get cur).note k.note,
          Out.inferenceExecuted n k.price (n * unit k.price)] ++ paid) ∧
      (paid = [] ∨ (p.book.orders.get cur).amount = n ∧
        ∃ note amount, paid = [Out.inferenceRefunded cur note amount]) := by
  have hsettle := events_settleFill cur k.id (p.book.orders.get cur).note k.note
    (p.book.orders.get cur).buyerPubkey k.tc n k.price false
    ((p.book.orders.get cur).flags &&& dealFlagsMask) k.clientId (p.book.orders.get cur).tag p.book
  unfold fillMaker
  simp only [hk, Bool.false_eq_true, if_false]
  generalize settleFill _ _ _ _ _ _ _ _ _ _ _ _ _ = w at hsettle ⊢
  split
  · rename_i hwhole
    rw [events_refundAndRemove]
    refine ⟨_, (congrArg (· ++ _) hsettle).trans (List.append_assoc _ _ _), ?_⟩
    split
    · exact Or.inr ⟨hwhole, _, _, rfl⟩
    · exact Or.inl rfl
  · exact ⟨[], hsettle, Or.inl rfl⟩

theorem beside_self {ticks : ℕ} (h : ticks ≠ 0) :
    beside id e ticks v id = some (entryRow id e ticks) := by
  unfold beside
  rw [Function.update_self, if_neg h]

theorem beside_beside {ticks left : ℕ} : Function.update (beside id e ticks v) id
    (if left = 0 then none else some (entryRow id e left)) = beside id e left v :=
  Function.update_idem _ _ _

theorem fillBuy_abreast (h : Abreast id e n p) (hl : Linked p.book)
    (hid : ∀ i ∈ p.book.orders.keys, i < id) (hrem : p.remaining ≠ 0) (hb : e.isBuy = true)
    (hat : At (takerOf id e) lp cur p.book) {k : ℕ} (hk : k ≤ p.remaining)
    (hk' : k ≤ (p.book.orders.get cur).amount) :
    Abreast id e n (fillMaker (takerOf id e) lp cur k p) := by
  obtain ⟨d, ht⟩ := h.trace
  have hcur := hat.1
  have hne : cur ≠ id := (hid cur hcur).ne
  have hside : (p.book.orders.get cur).isBuy = false := by
    rw [hat.2.1, show (takerOf id e).isBuy = true from hb]
    rfl
  have hmaker := (covers_beside e p.remaining hid cur hcur).trans
    (resting_mem hcur)
  have htaker : beside id e p.remaining (resting p.book) id = some (entryRow id e p.remaining) :=
    beside_self hrem
  have hrest : resting (fillMaker (takerOf id e) lp cur k p).book =
      Function.update (resting p.book) cur none := by
    unfold resting
    rw [flat_fillMaker_buy hb hl hcur]
    exact rows_delete _ _
  have hleft : (fillMaker (takerOf id e) lp cur k p).remaining = p.remaining - k := by
    unfold fillMaker
    simp only [show (takerOf id e).isBuy = true from hb, if_true]
  have hlog := ht.fills cur id k lp (k * unit lp) (p.book.orders.get cur).tokenContract e.owner
    (p.book.orders.get cur).note hmaker htaker hne hk' hk
  have hmrow : fillRow k (rowOf cur (p.book.orders.get cur).toTerms) = none := by
    simp [fillRow, rowOf, hside]
  have htrow : fillRow k (entryRow id e p.remaining) =
      if p.remaining - k = 0 then none else some (entryRow id e (p.remaining - k)) := by
    simp [fillRow, entryRow, hb]
  rw [hmrow, htrow] at hlog
  refine ⟨⟨d, ?_⟩, ?_⟩
  · rw [hrest, hleft, events_fillMaker_buy lp cur k p hb]
    rw [beside_update hne, beside_beside] at hlog
    exact hlog
  · intro hz _
    rw [hleft] at hz
    obtain ⟨-, -, -, -, hticks⟩ := ht.tallied.rows id _ htaker
    rw [events_fillMaker_buy lp cur k p hb, placedTicks_append, filledTicks_append]
    simp only [entryRow] at hticks
    simp [placedTicks, filledTicks, takerOf] at hticks ⊢
    omega

theorem fillRow_bid {o : Terms} (hb : o.isBuy = true) : fillRow n (rowOf cur o) =
    if o.amount - n = 0 then none else some (rowOf cur { o with amount := o.amount - n }) := by
  simp [fillRow, rowOf, hb]

theorem fillSell_abreast (h : Abreast id e n p) (hl : Linked p.book)
    (hid : ∀ i ∈ p.book.orders.keys, i < id) (hrem : p.remaining ≠ 0) (hb : e.isBuy = false)
    (hat : At (takerOf id e) lp cur p.book) {k : ℕ} (hk : k ≤ p.remaining)
    (hk' : k ≤ (p.book.orders.get cur).amount) :
    Abreast id e n (fillMaker (takerOf id e) lp cur k p) := by
  obtain ⟨d, ht⟩ := h.trace
  have hcur := hat.1
  have hne : cur ≠ id := (hid cur hcur).ne
  have hside : (p.book.orders.get cur).isBuy = true := by
    rw [hat.2.1, show (takerOf id e).isBuy = false from hb]
    rfl
  have hmaker := (covers_beside e p.remaining hid cur hcur).trans
    (resting_mem hcur)
  have htaker : beside id e p.remaining (resting p.book) id = some (entryRow id e p.remaining) :=
    beside_self hrem
  have hleft : (fillMaker (takerOf id e) lp cur k p).remaining = 0 := by
    unfold fillMaker
    simp only [show (takerOf id e).isBuy = false from hb, Bool.false_eq_true, if_false]
  have hrest : resting (fillMaker (takerOf id e) lp cur k p).book =
      Function.update (resting p.book) cur
        (if (p.book.orders.get cur).amount - k = 0 then none
          else some (rowOf cur { (p.book.orders.get cur).toTerms with
            amount := (p.book.orders.get cur).amount - k })) := by
    obtain ⟨w, hwl, hwm, hwo, hwh, hflat, hbook⟩ := flat_fillMaker_sell lp k
      (k := takerOf id e) hb hl hcur
    rw [hbook]
    by_cases hwhole : (p.book.orders.get cur).amount = k
    · rw [if_pos hwhole, if_pos (by omega), resting_drop (flat_refundAndRemove .filled hwl hwm)]
      unfold resting
      rw [hflat]
      exact (congrArg (Function.update · cur none) (rows_set _ _ _)).trans
        (Function.update_idem _ _ _)
    · rw [if_neg hwhole, if_neg (by omega)]
      unfold resting
      rw [flat_editOrder, hflat, hwo]
      exact (congrArg rows (Mapping.set_set ..)).trans (rows_set _ _ _)
  have hlog := ht.fills cur id k e.price (k * unit e.price) e.tokenContract
    (p.book.orders.get cur).note e.owner hmaker htaker hne hk' hk
  have htrow : fillRow k (entryRow id e p.remaining) =
      if 0 = 0 then none else some (entryRow id e 0) := by
    simp [fillRow, entryRow, hb]
  rw [fillRow_bid hside, htrow, beside_update hne, beside_beside] at hlog
  obtain ⟨paid, hevents, hpaid⟩ := events_fillMaker_sell (k := takerOf id e) lp cur k p hb
  refine ⟨⟨d, ?_⟩, fun _ hbuy => absurd (hbuy.symm.trans hb) (by decide)⟩
  rw [hrest, hleft, hevents, ← List.append_assoc]
  rcases hpaid with rfl | ⟨hwhole, note, amount, rfl⟩
  · rw [List.append_nil]
    exact hlog
  · apply hlog.spare cur note amount
    -- the fill that took all of the bid brings its tally to what it announced
    obtain ⟨-, -, -, -, hticks⟩ := ht.tallied.rows cur _ hmaker
    rw [placedTicks_append, filledTicks_append, hticks]
    simp [placedTicks, filledTicks, rowOf, hwhole]

/-- Meeting a maker keeps a walk abreast. -/
theorem matchMaker_abreast {budget : ℕ} (hw : Walk (takerOf id e) s budget p)
    (hk : Ready (takerOf id e)) (hid : ∀ i ∈ s.orders.keys, i < id) (h : Abreast id e n p)
    (hcross : crosses e.isBuy e.price (takerOf id e).isMarket lp = true)
    (hat : At (takerOf id e) lp cur p.book) (hrem : p.remaining ≠ 0) :
    Abreast id e n (matchMaker (takerOf id e) lp cur p).1 := by
  have hl := hw.trimmed.linked
  have hold : ∀ i ∈ p.book.orders.keys, i < id := fun i hi => hid i (hw.trimmed.keys hi)
  rcases matchMaker_outcomes hw.solvent hk hcross hat with
    heq | ⟨b, hdrop, heq⟩ | ⟨trade, -, hsuit, heq⟩
  · rw [heq]
    exact h
  · rw [heq]
    exact drops_abreast h hl hw.solvent hold hrem hat hdrop
  · have hle : trade ≤ p.remaining := hsuit.fits ▸ tradeable_le.1
    have hle' : trade ≤ (p.book.orders.get cur).amount := hsuit.fits ▸ tradeable_le.2
    rw [heq]
    cases hb : e.isBuy with
    | true => exact fillBuy_abreast h hl hold hrem hb hat hle hle'
    | false => exact fillSell_abreast h hl hold hrem hb hat hle hle'

theorem matchTaker_abreast (amount budget resume : ℕ) (hl : Linked s) (hs : Solvent s)
    (hk : Ready (takerOf id e)) (hcov : e.isBuy = true → e.flags &&& flagMarket = 0 →
      fillDebit amount e.price e.flags ≤ budget) (hid : ∀ i ∈ s.orders.keys, i < id)
    (h : Abreast id e n { book := s, remaining := amount, leftoverEscrow := budget }) :
    Abreast id e n (matchTaker (takerOf id e) amount budget resume s).1 := by
  have hstart : Walk (takerOf id e) s budget
      { book := s, remaining := amount, leftoverEscrow := budget } := by
    refine ⟨.refl hl, hs, fun hb hm => .inr (hcov hb ?_), fun t a _ hmine => ⟨hmine, rfl⟩⟩
    simpa [takerOf] using hm
  exact (matchTaker_rule (I := fun p => Walk (takerOf id e) s budget p ∧ Abreast id e n p)
    (fun _ h => h.1.trimmed.linked)
    (fun lp cur p hcross h hat hrem => ⟨walk_step h.1 hk hcross hat hrem,
      matchMaker_abreast h.1 hk hid h.2 hcross hat hrem⟩) ⟨hstart, h⟩).1.2

/-! ## The end of an entry -/

/-- What an entry of the queue was posted with. -/
structure Posted (e : QueueEntry) : Prop where
  bid : e.entryType = .place → e.isBuy = true → e.tokenContract = 0 ∧ 0 < e.price
  offer : e.entryType = .place → e.isBuy = false → e.tokenContract ≠ 0
  cont : e.contOrderId ≠ 0 → e.entryType = .place

theorem resting_absent (hid : ∀ i ∈ s.orders.keys, i < id) : resting s id = none :=
  if_neg fun hmem => absurd (hid id hmem) (Nat.lt_irrefl id)

theorem beside_zero (hid : ∀ i ∈ s.orders.keys, i < id) : beside id e 0 (resting s) = resting s := by
  unfold beside
  rw [if_pos rfl]
  exact Function.update_eq_self_iff.mpr (resting_absent hid).symm

theorem resting_post {l : List Out} (h : flat u = (flat s).post l) : resting u = resting s := by
  unfold resting
  rw [h]
  rfl

theorem trace_refunded {l : List Out} {ticks : ℕ}
    (ht : Trace l (beside id e ticks (resting s)) n d) (hid : ∀ i ∈ s.orders.keys, i < id)
    (hfilled : ticks = 0 → placedTicks l id ≤ filledTicks l id) (note : Address) (amount : ℕ) :
    ∃ d, Trace (l ++ [Out.inferenceRefunded id note amount]) (resting s) n d := by
  by_cases hz : ticks = 0
  · subst hz
    rw [beside_zero hid] at ht
    exact ⟨d, ht.spare id note amount (hfilled rfl)⟩
  · have hdrop := ht.drop id note amount (by rw [beside_self hz]; exact Option.some_ne_none _)
    have hview : Function.update (beside id e ticks (resting s)) id none = resting s :=
      (Function.update_idem _ _ _).trans (Function.update_eq_self_iff.mpr (resting_absent hid).symm)
    rw [hview] at hdrop
    exact ⟨_, hdrop⟩

theorem resting_insert {o : Order} {c : Prop} [Decidable c] (hl : Linked s) (hid : id ≠ 0)
    (hmax : ∀ i ∈ s.orders.keys, i < id) (hamount : o.amount ≠ 0)
    (hrow : rowOf id o.toTerms = entryRow id e o.amount) :
    resting (insertIntoBook id o (s.check c)) = beside id e o.amount (resting s) := by
  have hlc : Linked (s.check c) := check_quiet.linked hl
  have hflat := flat_insertIntoBook (o := o) hlc hid hmax hamount
  unfold beside
  rw [if_neg hamount, ← hrow]
  unfold resting
  rw [hflat]
  exact rows_set _ _ _

theorem finalizeTaker_trace (h : Abreast id e n p) (hp : Posted e) (hkind : e.entryType = .place)
    (hl : Linked p.book) (hid : id ≠ 0) (hmax : ∀ i ∈ p.book.orders.keys, i < id) :
    ∃ d, Trace (events (finalizeTaker id e p.remaining p.leftoverEscrow p.book).out)
      (resting (finalizeTaker id e p.remaining p.leftoverEscrow p.book)) n d := by
  obtain ⟨d, ht⟩ := h.trace
  unfold finalizeTaker
  dsimp only
  split
  · rename_i hb
    split
    · have hrest : resting (rejectToNote e.owner e.clientOrderId .endTaker p.leftoverEscrow e.tag
          (p.book.send (.inferenceRefunded id e.owner p.leftoverEscrow))) = resting p.book :=
        (resting_post flat_rejectToNote).trans (resting_post flat_send)
      rw [hrest, events_rejectToNote, events_send]
      exact trace_refunded ht hmax (fun hz => h.filled hz hb) _ _
    · rename_i hrest
      refine ⟨d, ?_⟩
      rw [events_insertIntoBook, resting_insert (e := e) hl hid hmax (by dsimp only; omega)]
      · exact ht
      · unfold rowOf entryRow
        simp [hb, (hp.bid hkind hb).1]
  · rename_i hb
    have hb : e.isBuy = false := Bool.eq_false_iff.mpr hb
    split
    · rename_i hrest
      refine ⟨d, ?_⟩
      rw [events_insertIntoBook, resting_insert (e := e) hl hid hmax hrest.1.ne']
      · exact ht
      · unfold rowOf entryRow
        simp [hb]
    split
    · rename_i hrest
      have hsame : resting ((p.book.send (.onSellClosed e.tokenContract)).send
          (.inferenceRefunded id e.owner 0)) = resting p.book :=
        (resting_post flat_send).trans (resting_post flat_send)
      rw [hsame, events_send, events_send]
      simp only [isEvent, Bool.false_eq_true, if_false, if_true, List.append_nil]
      exact trace_refunded ht hmax (fun hz => absurd hz hrest.1.ne') _ _
    · rename_i hno
      have hz : p.remaining = 0 := by
        by_contra hz
        exact hno ⟨Nat.pos_of_ne_zero hz, hp.offer hkind hb⟩
      rw [hz, beside_zero hmax] at ht
      exact ⟨d, ht⟩

/-! ## The run of the head -/

def inView (s : Book) : View :=
  let e := s.queue.get s.queueHead
  if e.contOrderId = 0 then resting s else beside e.contOrderId e e.contRemaining (resting s)

def Traced (s : Book) : Prop := ∃ d, Trace (events s.out) (inView s) s.nextOrderId d

theorem inView_idle (h : (s.queue.get s.queueHead).contOrderId = 0) : inView s = resting s :=
  if_pos h

theorem inView_advanceHead (hs : Sound s) (hq : u.queue = s.queue)
    (hh : u.queueHead = s.queueHead) : inView (advanceHead u) = resting u := by
  have hidle : ((advanceHead u).queue.get (advanceHead u).queueHead).contOrderId = 0 := by
    generalize (advanceHead u).queueHead = j
    by_cases hj : j = u.queueHead
    · have hget : (advanceHead u).queue.get j = default := by
        rw [hj]
        exact Mapping.absent _ _ (Finset.notMem_erase u.queueHead _)
      rw [hget]
      rfl
    · have hget : (advanceHead u).queue.get j = s.queue.get j := by
        rw [← hq]
        exact Mapping.get_delete_ne hj
      rw [hget]
      by_contra hcont
      exact hj ((hs.cont j hcont).1.trans hh.symm)
  rw [inView_idle hidle]
  rfl

theorem traced_advanceHead (hs : Sound s) (hq : u.queue = s.queue) (hh : u.queueHead = s.queueHead)
    (ht : ∃ d, Trace (events u.out) (resting u) u.nextOrderId d) : Traced (advanceHead u) := by
  unfold Traced
  rw [inView_advanceHead hs hq hh]
  exact ht

theorem runPlace_traced {amount escrow : ℕ} (resume : ℕ) (hs : Sound s) (hf : Funded s)
    (he : s.queue.get s.queueHead = e) (hheld : escrow = held e)
    (hcov : e.isBuy = true → e.flags &&& flagMarket = 0 →
      fillDebit amount e.price e.flags ≤ held e) (hid : id ≠ 0)
    (hmax : ∀ i ∈ s.orders.keys, i < id) (hp : Posted e) (hkind : e.entryType = .place)
    (h : Abreast id e s.nextOrderId { book := s, remaining := amount, leftoverEscrow := escrow }) :
    Traced (turned (runPlace id amount escrow resume e s)) := by
  have hentry : CoveredEntry e := he ▸ hf.entries _
  subst hheld
  have hwalk := matchTaker_abreast amount (held e) resume hs.linked hf.solvent
    (ready_takerOf hentry) hcov hmax h
  have ht := matchTaker_trimmed (takerOf id e) amount (held e) resume hs.linked
  unfold runPlace turned
  generalize matchTaker _ _ _ _ _ = r at hwalk ht ⊢
  obtain ⟨p, c⟩ := r
  dsimp only at hwalk ht ⊢
  cases c with
  | none =>
    obtain ⟨hq, hh⟩ := finalizeTaker_queue id p.remaining p.leftoverEscrow e p.book
    have hnext : (finalizeTaker id e p.remaining p.leftoverEscrow p.book).nextOrderId =
        s.nextOrderId := by
      rw [← ht.nextOrderId]
      unfold finalizeTaker rejectToNote insertIntoBook
      dsimp only
      split_ifs <;> rfl
    apply traced_advanceHead hs (hq.trans ht.queue) (hh.trans ht.queueHead)
    rw [hnext]
    exact finalizeTaker_trace hwalk hp hkind ht.linked hid fun i hi => hmax i (ht.keys hi)
  | some cur =>
    obtain ⟨d, htrace⟩ := hwalk.trace
    have hview : inView { p.book with
        queue := p.book.queue.set p.book.queueHead { e with
          contOrderId := id, contRemaining := p.remaining, contLeftover := p.leftoverEscrow
          contScanOrder := cur } } = beside id e p.remaining (resting p.book) := by
      unfold inView
      dsimp only
      rw [Mapping.get_set, if_neg hid]
      rfl
    refine ⟨d, ?_⟩
    rw [if_pos rfl, hview]
    exact (ht.nextOrderId.symm ▸ htrace : Trace _ _ p.book.nextOrderId d)

theorem doPlaceHead_traced (hr : Regular s) (hsize : s.queueSize ≠ 0)
    (hp : Posted (s.queue.get s.queueHead)) (hkind : (s.queue.get s.queueHead).entryType = .place)
    (h : Traced s) : Traced (turned (doPlaceHead s)) := by
  have hs := hr.sound
  have hj := hs.window.head_mem hsize
  have hentry := hr.funded.entries s.queueHead
  have hrest := (hr.formed _ hj).place hkind
  have hold := hs.cont s.queueHead
  obtain ⟨d, ht⟩ := h
  -- a refusal before the order is announced is not about any order
  have hrefused : ∀ {u o}, Quiet s u → (s.queue.get s.queueHead).contOrderId = 0 →
      idle o = true → resting u = resting s → events u.out = events s.out ++ [o] →
      Traced (advanceHead u) := by
    intro u o hq hfirst ho hview hlog
    apply traced_advanceHead hs (by rw [hq]) (by rw [hq])
    rw [inView_idle hfirst] at ht
    refine ⟨d, ?_⟩
    rw [hlog, hview, show u.nextOrderId = s.nextOrderId by rw [hq]]
    exact ht.idle o ho
  have hfreed : ∀ e : QueueEntry, events (if e.isBuy = true then s else freeDeal e.tokenContract s).out =
      events s.out := by
    intro e
    split
    · rfl
    · exact events_freeDeal _ _
  unfold doPlaceHead
  unfold inView at ht
  generalize he : s.queue.get s.queueHead = e at *
  dsimp only at ht ⊢
  split
  · change Traced (advanceHead (dropLapsed e s))
    by_cases hfirst : e.contOrderId = 0
    · refine hrefused (o := .inferenceOrderRejected .expired e.owner e.tokenContract
        (if e.isBuy = true then e.escrow else 0)) dropLapsed_quiet hfirst rfl
        (resting_post flat_dropLapsed) ?_
      unfold dropLapsed
      dsimp only
      rw [events_rejectToNote]
      simp only [hfirst, if_true]
      rw [events_send, hfreed]
      rfl
    · rw [if_neg hfirst] at ht
      apply traced_advanceHead hs (by rw [dropLapsed_quiet (s := s)]) (by rw [dropLapsed_quiet (s := s)])
      rw [resting_post flat_dropLapsed,
        show (dropLapsed e s).nextOrderId = s.nextOrderId by rw [dropLapsed_quiet (s := s)]]
      have hlog : events (dropLapsed e s).out = events s.out ++
          [Out.inferenceRefunded e.contOrderId e.owner (if e.isBuy = true then e.contLeftover else 0)] := by
        unfold dropLapsed
        dsimp only
        rw [events_rejectToNote]
        simp only [hfirst, if_false]
        rw [events_send, hfreed]
        rfl
      rw [hlog]
      refine trace_refunded ht (hold hfirst).2.2 (fun hz => absurd ?_ hrest) _ _
      unfold rest
      rw [if_neg hfirst, hz]
  split
  · rename_i hfirst
    have hlog : ∀ reason, events (refusePlacement reason e s).out = events s.out ++
        [Out.inferenceOrderRejected reason e.owner e.tokenContract
          (if e.isBuy = true ∧ e.escrow > 0 then e.escrow else 0)] := by
      intro reason
      unfold refusePlacement
      dsimp only
      rw [events_rejectToNote, events_send, hfreed]
      rfl
    split
    · exact hrefused refusePlacement_quiet hfirst rfl (resting_post (flat_refusePlacement hfirst))
        (hlog _)
    split
    · exact hrefused refusePlacement_quiet hfirst rfl (resting_post (flat_refusePlacement hfirst))
        (hlog _)
    · have hamount : e.amount ≠ 0 := by
        have hr := hrest
        unfold rest at hr
        rwa [if_pos hfirst] at hr
      rw [if_pos hfirst] at ht
      have hplace := ht.place (entryRow s.nextOrderId e e.amount) rfl rfl (Nat.pos_of_ne_zero hamount)
        fun hb => (hp.bid hkind hb).2
      generalize hw : Book.send { s.check (s.nextOrderId + 1 < u128) with
        nextOrderId := s.nextOrderId + 1 } _ = w
      have hws : Sound w := by
        rw [← hw]
        exact numbered_sound hs
      have hwf : flat w = flat s := by
        rw [← hw, flat_send]
        exact post_nil
      have hlogw : events w.out = events s.out ++ [announce (entryRow s.nextOrderId e e.amount)] := by
        rw [← hw, events_send]
        rfl
      refine runPlace_traced 0 hws ?_ ?_ ?_ ?_ hs.next_ne ?_ hp hkind ⟨⟨d, ?_⟩, ?_⟩
      · rw [← hw]
        exact ⟨{ hr.funded.solvent with }, hr.funded.entries⟩
      · rw [← hw]
        exact he
      · unfold held
        rw [if_pos hfirst]
      · intro hb hm
        have hcov := hentry.first hb hm hfirst
        unfold held
        rw [if_pos hfirst]
        exact hcov
      · rw [← hw]
        exact hs.ids
      · dsimp only
        unfold beside resting
        rw [if_neg hamount, hwf, hlogw, ← hw]
        exact hplace
      · exact fun hz => absurd hz hamount
  · rename_i hcont
    rw [if_neg hcont] at ht
    have hleft : e.contRemaining ≠ 0 := by
      have hr := hrest
      unfold rest at hr
      rwa [if_neg hcont] at hr
    refine runPlace_traced _ hs hr.funded he ?_ ?_ hcont (hold hcont).2.2 hp hkind
      ⟨⟨d, ht⟩, fun hz => absurd hz hleft⟩
    · unfold held
      rw [if_neg hcont]
    · intro hb hm
      have hcov := hentry.again hb hm hcont
      unfold held
      rw [if_neg hcont]
      exact hcov

theorem covers_resting : Covers (resting s) s := fun _ _ => rfl

theorem doCancel_trace (hl : Linked s) (ht : Trace (events s.out) (resting s) n d) :
    Trace (events (doCancel a id s).out) (resting (doCancel a id s)) n d := by
  have hrefuse : ∀ reason, Trace (events (rejectCancel id reason a s).out)
      (resting (rejectCancel id reason a s)) n d := by
    intro reason
    have hrest : resting (rejectCancel id reason a s) = resting s :=
      (resting_post flat_send).trans (resting_post flat_send)
    have hlog : events (rejectCancel id reason a s).out =
        events s.out ++ [Out.inferenceOrderCancelRejected id reason a] := by
      unfold rejectCancel
      dsimp only
      rw [events_send, events_send]
      exact List.append_nil _
    rw [hrest, hlog]
    exact ht.idle _ rfl
  unfold doCancel
  dsimp only
  split
  · exact hrefuse _
  rename_i hfound
  split
  · exact hrefuse _
  · rename_i hown
    have hid : id ∈ s.orders.keys := by
      by_contra hid
      rw [s.orders.absent id hid] at hfound
      exact hfound ⟨rfl, rfl⟩
    rw [resting_drop (flat_cancelRemove hl hid (not_not.mp hown))]
    exact trace_cancelRemove ht covers_resting hid

theorem cancelAllFrom_trace : ∀ (left : ℕ) {cur : ℕ} {s : Book}, Linked s →
    (cur ≠ 0 → cur ∈ s.orders.keys ∧ (s.orders.get cur).note = a) →
    Trace (events s.out) (resting s) n d →
    Trace (events (cancelAllFrom a left cur s).1.out) (resting (cancelAllFrom a left cur s).1) n d := by
  intro left
  induction left with
  | zero =>
    intro cur s _ _ ht
    exact ht
  | succ left ih =>
    intro cur s h hcur ht
    unfold cancelAllFrom
    split
    · exact ht
    rename_i hne
    obtain ⟨hmem, hnote⟩ := hcur hne
    have hone := cancelRemove_one a h hmem
    apply ih hone.linked (ownerNext h hmem hnote hone)
    rw [resting_drop (flat_cancelRemove h hmem hnote)]
    exact trace_cancelRemove ht covers_resting hmem

theorem doExpire_trace (hl : Linked s) (ht : Trace (events s.out) (resting s) n d) :
    Trace (events (doExpire id s).out) (resting (doExpire id s)) n d := by
  unfold doExpire
  dsimp only
  split
  · exact ht
  rename_i hfound
  split
  · exact ht
  have hid : id ∈ s.orders.keys := by
    by_contra hid
    rw [s.orders.absent id hid] at hfound
    exact hfound ⟨rfl, rfl⟩
  split
  · rw [resting_drop (flat_removeExpiredBid hl hid)]
    exact trace_removeExpiredBid ht covers_resting hid
  · rw [resting_drop (flat_removeExpiredSell hl hid)]
    exact trace_removeExpiredSell ht covers_resting hid

theorem runHead_traced (hr : Regular s) (hsize : s.queueSize ≠ 0)
    (hp : Posted (s.queue.get s.queueHead)) (h : Traced s) : Traced (turned (runHead s)) := by
  have hs := hr.sound
  have hj := hs.window.head_mem hsize
  -- only a placement waits announced
  have hplain : (s.queue.get s.queueHead).entryType ≠ .place →
      ∃ d, Trace (events s.out) (resting s) s.nextOrderId d := by
    intro hne
    have hidle : (s.queue.get s.queueHead).contOrderId = 0 := by
      by_contra hcont
      exact hne (hp.cont hcont)
    obtain ⟨d, ht⟩ := h
    rw [inView_idle hidle] at ht
    exact ⟨d, ht⟩
  unfold runHead
  dsimp only
  cases hkind : (s.queue.get s.queueHead).entryType with
  | cancel =>
    obtain ⟨d, ht⟩ := hplain (by rw [hkind]; decide)
    have htrim : Trimmed s (doCancel (s.queue.get s.queueHead).owner
        (s.queue.get s.queueHead).targetOrderId s) := doCancel_trimmed hs.linked
    apply traced_advanceHead hs htrim.queue htrim.queueHead
    rw [htrim.nextOrderId]
    exact ⟨d, doCancel_trace hs.linked ht⟩
  | cancelAll =>
    obtain ⟨d, ht⟩ := hplain (by rw [hkind]; decide)
    have htrim := doCancelAll_trimmed (s.queue.get s.queueHead).owner hs.linked
    have htrace : Trace (events (doCancelAll (s.queue.get s.queueHead).owner s).1.out)
        (resting (doCancelAll (s.queue.get s.queueHead).owner s).1) s.nextOrderId d :=
      cancelAllFrom_trace _ hs.linked (fun hne => hs.linked.owners.first_mem hne) ht
    unfold turned
    dsimp only
    split
    · refine ⟨d, ?_⟩
      rw [htrim.nextOrderId, inView_idle]
      · exact htrace
      · rw [htrim.queue, htrim.queueHead]
        by_contra hcont
        rw [hp.cont hcont] at hkind
        cases hkind
    · apply traced_advanceHead hs htrim.queue htrim.queueHead
      rw [htrim.nextOrderId]
      exact ⟨d, htrace⟩
  | expire =>
    obtain ⟨d, ht⟩ := hplain (by rw [hkind]; decide)
    have htrim : Trimmed s (doExpire (s.queue.get s.queueHead).targetOrderId s) :=
      doExpire_trimmed hs.linked
    apply traced_advanceHead hs htrim.queue htrim.queueHead
    rw [htrim.nextOrderId]
    exact ⟨d, doExpire_trace hs.linked ht⟩
  | place => exact doPlaceHead_traced hr hsize hp hkind h
  | absent => exact absurd hkind (hr.formed _ hj).known

/-! ## Entries stay as they were posted -/

theorem posted_default : Posted default := ⟨nofun, nofun, fun h => absurd rfl h⟩

theorem posted_delete (h : ∀ j, Posted (s.queue.get j)) (hq : u.queue = s.queue) :
    ∀ j, Posted ((advanceHead u).queue.get j) := by
  intro j
  by_cases hj : j = u.queueHead
  · have hget : (advanceHead u).queue.get j = default := by
      rw [hj]
      exact Mapping.absent _ _ (Finset.notMem_erase u.queueHead _)
    rw [hget]
    exact posted_default
  · have hget : (advanceHead u).queue.get j = s.queue.get j := by
      rw [← hq]
      exact Mapping.get_delete_ne hj
    rw [hget]
    exact h j

theorem runHead_posted (hr : Regular s) (hsize : s.queueSize ≠ 0)
    (h : ∀ j, Posted (s.queue.get j)) : ∀ j, Posted ((turned (runHead s)).queue.get j) := by
  have hs := hr.sound
  have hj := hs.window.head_mem hsize
  unfold runHead
  dsimp only
  cases hkind : (s.queue.get s.queueHead).entryType with
  | cancel => exact posted_delete h (doCancel_trimmed hs.linked).queue
  | cancelAll =>
    have hq := (doCancelAll_trimmed (s.queue.get s.queueHead).owner hs.linked).queue
    unfold turned
    dsimp only
    split
    · rw [hq]
      exact h
    · exact posted_delete h hq
  | expire => exact posted_delete h (doExpire_trimmed hs.linked).queue
  | place =>
    have hkept := doPlaceHead_queue hs
    unfold turned
    dsimp only
    generalize doPlaceHead s = r at hkept ⊢
    obtain ⟨-, hq | ⟨hkeep, id, n, l, c, -, -, hq⟩⟩ := hkept
    · split
      · rw [hq]
        exact h
      · exact posted_delete h hq
    · rw [if_pos hkeep, hq]
      intro j
      by_cases hjh : j = s.queueHead
      · rw [hjh, Mapping.get_set]
        exact ⟨(h s.queueHead).bid, (h s.queueHead).offer, fun _ => hkind⟩
      · rw [Mapping.get_set_ne hjh]
        exact h j
  | absent => exact absurd hkind (hr.formed _ hj).known

structure Mirrored (s : Book) : Prop where
  regular : Regular s
  posted : ∀ j, Posted (s.queue.get j)
  traced : Traced s

theorem processHeadCore_mirrored (h : Mirrored s) : Mirrored (processHeadCore s) := by
  have hr := h.regular
  have hregular : Regular (processHeadCore s) := ⟨processHeadCore_sound hr.sound,
    (processHeadCore_balanced hr.sound hr.funded).funded, processHeadCore_formed hr.sound hr.formed⟩
  unfold processHeadCore at hregular ⊢
  split
  · exact h
  rename_i hsize
  rw [if_neg hsize] at hregular
  have hposted := runHead_posted hr hsize h.posted
  have htraced := runHead_traced hr hsize (h.posted _) h.traced
  unfold turned at hposted htraced
  dsimp only at hregular ⊢
  generalize (if (runHead s).2 = true then (runHead s).1 else advanceHead (runHead s).1) = u
    at hregular hposted htraced ⊢
  split
  · rename_i hmore
    rw [if_pos hmore] at hregular
    refine ⟨hregular, hposted, ?_⟩
    obtain ⟨d, ht⟩ := htraced
    refine ⟨d, ?_⟩
    rw [events_send]
    simp only [isEvent, Bool.false_eq_true, if_false, List.append_nil]
    exact ht
  · rename_i hmore
    rw [if_neg hmore] at hregular
    exact ⟨hregular, hposted, htraced⟩

theorem Mirrored.quiet (h : Mirrored s) (hr : Regular u) (hq : Quiet s u)
    (hlog : events u.out = events s.out ∨ ∃ o, idle o = true ∧ events u.out = events s.out ++ [o]) :
    Mirrored u := by
  obtain ⟨d, ht⟩ := h.traced
  have hview : inView u = inView s := by
    rw [hq]
    rfl
  refine ⟨hr, by rw [show u.queue = s.queue by rw [hq]]; exact h.posted, d, ?_⟩
  rw [hview, show u.nextOrderId = s.nextOrderId by rw [hq]]
  rcases hlog with hlog | ⟨o, ho, hlog⟩
  · rw [hlog]
    exact ht
  · rw [hlog]
    exact ht.idle o ho

theorem enqueue_mirrored (h : Mirrored s) (hsize : s.queueSize < queueCapacity)
    (hcont : e.contOrderId = 0) (hcov : CoveredEntry e) (hform : FormedEntry e) (hp : Posted e) :
    Mirrored (processHeadCore (enqueue e s)) := by
  have hr := h.regular
  apply processHeadCore_mirrored
  refine ⟨⟨enqueue_sound hr.sound hsize hcont,
    (enqueue_charged hr.sound hsize hr.funded hcov hcont).funded, enqueue_formed hr.formed hform⟩,
    ?_, ?_⟩
  · intro j
    by_cases hj : j = s.queueTail
    · rw [hj, show (enqueue e s).queue.get s.queueTail = e from Mapping.get_set]
      exact hp
    · rw [show (enqueue e s).queue.get j = s.queue.get j from Mapping.get_set_ne hj]
      exact h.posted j
  · obtain ⟨d, ht⟩ := h.traced
    have hview : inView (enqueue e s) = inView s := by
      by_cases hhead : s.queueHead = s.queueTail
      · have hbefore : (s.queue.get s.queueHead).contOrderId = 0 := by
          rw [hhead, s.queue.absent _ (hr.sound.window.tail_notMem hsize)]
          rfl
        have hafter : ((enqueue e s).queue.get (enqueue e s).queueHead).contOrderId = 0 := by
          change ((enqueue e s).queue.get s.queueHead).contOrderId = 0
          rw [hhead, show (enqueue e s).queue.get s.queueTail = e from Mapping.get_set]
          exact hcont
        rw [inView_idle hbefore, inView_idle hafter]
        rfl
      · have hget : (enqueue e s).queue.get (enqueue e s).queueHead = s.queue.get s.queueHead :=
          Mapping.get_set_ne hhead
        unfold inView
        rw [hget]
        rfl
    refine ⟨d, ?_⟩
    rw [hview]
    exact ht

/-! ## Transactions -/

/-- Deals have an address: `address.makeAddrStd` of a hash is not the zero address. -/
def Addressed (env : Env) : Prop := ∀ k i, env.tokenContractAddress k i ≠ 0

theorem posted_request {kind : EntryType} {target : ℕ} (hkind : kind ≠ .place) :
    Posted { entryType := kind, owner := a, targetOrderId := target } :=
  ⟨fun h => absurd h hkind, fun h => absurd h hkind, fun h => absurd rfl h⟩

theorem dispatch_mirrored {c : Call} (henv : Addressed env) (h : Mirrored s)
    (hd : dispatch env m s c = .ok t) : Mirrored t := by
  have hregular := (dispatch_moves h.regular hd).1
  have hlimit : ∀ {n}, n < queuePlaceLimit → n < queueCapacity := fun hn => hn.trans (by decide)
  have hrequest : ∀ {kind target owner}, kind ≠ .place → kind ≠ .absent →
      s.queueSize < queueCapacity → Mirrored (processHeadCore (enqueue
        { entryType := kind, owner := owner, targetOrderId := target } s)) := by
    intro kind target owner hkind hknown hsize
    exact enqueue_mirrored h hsize rfl covered_plain (formed_request hkind hknown)
      (posted_request hkind)
  cases c with
  | placeSellOffer p n f k i o d =>
    simp only [dispatch, placeSellOffer, require_bind_ok] at hd
    obtain ⟨hsender, hd⟩ := hd
    split at hd
    · cases hd
      refine h.quiet hregular sendFor_quiet (Or.inl ?_)
      rw [events_send]
      exact List.append_nil _
    · rename_i hgood
      obtain ⟨hbad, hsize⟩ := not_or.mp hgood
      cases hd
      have hticks : n ≠ 0 := fun hz => hbad (.inl (by omega))
      refine enqueue_mirrored h (hlimit (not_le.mp hsize)) rfl (offer_covered hbad)
        ⟨by simp, fun _ => hticks, fun hne => absurd rfl hne⟩
        ⟨by intros; contradiction, fun _ _ => ?_, fun hc => absurd rfl hc⟩
      dsimp only
      rw [hsender]
      exact henv k i
  | placeBuyOrder c e p n f d k i =>
    simp only [dispatch, placeBuyOrder, require_bind_ok] at hd
    obtain ⟨-, hticks, -, -, -, hwhole, -, -, -, hmarket, hprice, -, hcover, hsize, hd⟩ := hd
    cases hd
    have h' : Mirrored { s with bids := s.bids + 1 } := by
      have hs := h.regular.sound
      exact ⟨⟨⟨{ hs.linked with }, hs.window, hs.next_ne, hs.ids, hs.cont⟩,
        ⟨{ h.regular.funded.solvent with }, h.regular.funded.entries⟩, h.regular.formed⟩,
        h.posted, h.traced⟩
    refine enqueue_mirrored h' (hlimit hsize) rfl (bid_covered hwhole hmarket hcover)
      ⟨by simp, fun _ => by change n ≠ 0; omega, fun hne => absurd rfl hne⟩
      ⟨fun _ _ => ⟨rfl, ?_⟩, by intros; contradiction, fun hc => absurd rfl hc⟩
    dsimp only
    split
    · exact Nat.sub_pos_of_lt (Nat.one_lt_two_pow (by decide))
    · rename_i hlim
      exact (hprice.resolve_left hlim).1
  | cancelOrder id =>
    cases hd
    unfold cancelOrder at hregular ⊢
    split
    · rename_i hfull
      rw [if_pos hfull] at hregular
      refine h.quiet hregular sendFor_quiet (Or.inr ⟨_, ?_, events_send ..⟩)
      rfl
    · rename_i hsize
      exact hrequest (by decide) (by decide) (not_le.mp hsize)
  | cancelAllOrders =>
    cases hd
    unfold cancelAllOrders at hregular ⊢
    split
    · rename_i hfull
      rw [if_pos hfull] at hregular
      refine h.quiet hregular sendFor_quiet (Or.inr ⟨_, ?_, events_send ..⟩)
      rfl
    · rename_i hsize
      exact hrequest (by decide) (by decide) (not_le.mp hsize)
  | expireOrder id =>
    simp only [dispatch, expireOrder, require_bind_ok] at hd
    obtain ⟨hsize, hd⟩ := hd
    cases hd
    exact hrequest (by decide) (by decide) (hlimit hsize)
  | processHead =>
    cases hd
    exact processHeadCore_mirrored h
  | onHandoverAccepted =>
    cases hd
    exact h.quiet hregular rfl (Or.inl rfl)
  | onBounce paid =>
    cases hd
    have hclear : Quiet s { s with
        handoverBuyer := Function.update s.handoverBuyer m.sender 0 } := rfl
    refine h.quiet hregular ?_ (Or.inl ?_)
    · unfold onBounce
      dsimp only
      split
      · exact hclear.trans payShell_quiet
      · exact hclear
    · unfold onBounce
      dsimp only
      split
      · rw [events_payShell]
      · rfl

theorem constructed_mirrored (h : Constructed env s) : Mirrored s := by
  refine ⟨constructed_regular h, ?_, ?_⟩
  all_goals
    obtain ⟨hash, d, n, m, hc⟩ := h
    simp only [construct, require_bind_ok] at hc
    obtain ⟨-, -, -, hc⟩ := hc
    cases hc
  · exact fun j => posted_default
  · exact ⟨[], (Trace.start 1).idle (.inferenceOrderBookDeployed m.sender hash n) rfl⟩

theorem reachable_mirrored (henv : Addressed env) (h : Reachable env s) : Mirrored s := by
  refine h.invariant (fun _ => constructed_mirrored) ?_
  intro s tx t hs _ he
  have henter : Mirrored (InferenceOrderBookCalls.enter tx.msg s) :=
    ⟨hs.regular.enter, hs.posted, hs.traced⟩
  exact dispatch_mirrored henv henter (exec_perform he).1

def FoldIsBook (s : Book) : Prop :=
  ∃ f, foldEvents (events s.out) = .ok f ∧ ∀ id r,
    (f.orders id = some r ∧ r.expiredByEvent = false) ↔
      Live s id ∧ r = rowOf id (s.orders.get id).toTerms

/-- The fold equals the book, when no entry waits in the middle of a match, just when every
announced price fits a `u128` and every refund is of an order filled up or called expired. -/
theorem foldIsBook_iff (henv : Addressed env) (h : Reachable env s)
    (hidle : ∀ j, (s.queue.get j).contOrderId = 0) :
    FoldIsBook s ↔ Fits (events s.out) ∧ Closes (events s.out) := by
  obtain ⟨d, ht⟩ := (reachable_mirrored henv h).traced
  have hl := (reachable_sound h).linked
  rw [inView_idle (hidle _)] at ht
  rw [← ht.folded_iff]
  have hrow : ∀ id r, resting s id = some r ↔ Live s id ∧ r = rowOf id (s.orders.get id).toTerms := by
    intro id r
    rw [Linked.live_iff hl]
    by_cases hid : id ∈ s.orders.keys
    · rw [resting_mem hid]
      simp [hid, eq_comm]
    · have hnone : resting s id = none := if_neg hid
      rw [hnone]
      simp [hid]
  constructor
  · rintro ⟨f, hf, hshow⟩
    exact ⟨f, hf, fun id r => (hshow id r).trans (hrow id r).symm⟩
  · rintro ⟨f, hf, hshow⟩
    exact ⟨f, hf, fun id r => (hshow id r).trans (hrow id r)⟩

def plain : Out → Bool
  | .inferenceOrderPlaced _ _ price _ _ _ _ _ => decide (price < u128)
  | .inferenceRefunded .. => false
  | _ => true

theorem plain_sound {l : List Out} (h : l.all plain = true) : Fits l ∧ Closes l := by
  rw [List.all_eq_true] at h
  constructor
  · intro id b p k note tc dl fl hmem
    exact of_decide_eq_true (h _ hmem)
  · intro a b id note amount e
    exact absurd (h (.inferenceRefunded id note amount) (by simp [e])) (by simp [plain])

/-- An offer and a bid below it, both resting. -/
theorem foldIsBook_two : ∃ s, Reachable sampleEnv s ∧ s.orderCount = 2 ∧ FoldIsBook s := by
  have hplay : (playedBook [sampleSell 1 2 5 0 20, sampleBuy 1 8 0 100 40]).any (fun s =>
      decide (s.orderCount = 2) && decide (s.queue.keys = ∅) && (events s.out).all plain) = true := by
    decide
  obtain ⟨s, hs, hp⟩ := playedBook_reachable hplay
  simp only [Bool.and_eq_true, decide_eq_true_eq] at hp
  obtain ⟨⟨hcount, hempty⟩, hplain⟩ := hp
  refine ⟨s, hs, hcount, (foldIsBook_iff ?_ hs ?_).mpr (plain_sound hplain)⟩
  · intro k i
    simp [sampleEnv]
  · intro j
    rw [s.queue.absent j (by simp [hempty])]
    rfl

/-- An immediate-or-cancel bid that meets no offer ends with a refund: the fold goes on showing
its eight ticks. -/
theorem fold_shows_dropped_bid : ¬ ∀ s, Reachable sampleEnv s →
    (∀ j, (s.queue.get j).contOrderId = 0) → FoldIsBook s := by
  have hplay : (playedBook [sampleBuy 1 8 flagIoc 100 40]).any (fun s =>
      decide ((s.orders.get 1).amount = 0) && decide (s.queue.keys = ∅) &&
        match foldEvents (events s.out) with
        | .ok f => (f.orders 1).any fun r => !r.expiredByEvent
        | .error _ => false) = true := by
    decide
  obtain ⟨s, hs, hp⟩ := playedBook_reachable hplay
  simp only [Bool.and_eq_true, decide_eq_true_eq] at hp
  obtain ⟨⟨hgone, hempty⟩, hfold⟩ := hp
  intro hall
  obtain ⟨f, hf, hshow⟩ := hall s hs fun j => by
    rw [s.queue.absent j (by simp [hempty])]
    rfl
  rw [hf] at hfold
  obtain ⟨r, hr, hexp⟩ := (Option.any_eq_true _ _).mp hfold
  exact ((hshow 1 r).mp ⟨hr, by simpa using hexp⟩).1 hgone

end BookEventMirror
