import Mathlib.Logic.Relation
import Dexdo.InferenceOrderBookEscrow

/-! # What a book does, without its lists

The flat book keeps what orders say, what each queue entry still stands for, the handovers on
record and the messages to notes and deals. -/
namespace InferenceOrderBookMoves

open TokenContractState hiding Out Err Sent
open SolidityMapping InferenceOrderBookState InferenceOrderBookCalls InferenceOrderBookLists
open InferenceOrderBookMatching InferenceOrderBookStructure InferenceOrderBookAccounts
open InferenceOrderBookEscrow

/-! ## The flat book -/

/-- A queue entry with the ticks and the escrow it has left. -/
structure Pledge where
  kind : EntryType := .absent
  owner : Address := 0
  buyerPubkey : ℕ := 0
  isBuy : Bool := false
  flags : ℕ := 0
  price : ℕ := 0
  amount : ℕ := 0
  tokenContract : Address := 0
  deadline : ℕ := 0
  clientOrderId : ℕ := 0
  rest : ℕ := 0
  held : ℕ := 0

instance : Inhabited Pledge := ⟨{}⟩

def rest (e : QueueEntry) : ℕ := if e.contOrderId = 0 then e.amount else e.contRemaining

def pledgeOf (e : QueueEntry) : Pledge :=
  { kind := e.entryType, owner := e.owner, buyerPubkey := e.buyerPubkey, isBuy := e.isBuy
    flags := e.flags, price := e.price, amount := e.amount, tokenContract := e.tokenContract
    deadline := e.deadline, clientOrderId := e.clientOrderId, rest := rest e, held := held e }

theorem pledgeOf_default : pledgeOf default = default := rfl

instance : Inhabited Terms := ⟨{}⟩

def heard : Out → Bool
  | .fundFromOrderBook .. | .onSellClosed .. | .creditFromBook .. | .onInferencePlaced ..
  | .onInferenceFilled .. | .onInferenceRejected .. | .onInferenceOrderRemoved .. => true
  | _ => false

attribute [grind =] heard

structure Flat where
  modelHash : ℕ
  orders : Mapping Terms
  queue : Mapping Pledge
  handoverBuyer : Address → Address
  out : List Out

def mail (l : List InferenceOrderBookState.Sent) : List Out :=
  (l.map fun m => m.body).filter heard

def flat (s : Book) : Flat where
  modelHash := s.modelHash
  orders := s.orders.map Order.toTerms rfl
  queue := s.queue.map pledgeOf pledgeOf_default
  handoverBuyer := s.handoverBuyer
  out := mail s.out

namespace Flat

def post (f : Flat) (l : List Out) : Flat := { f with out := f.out ++ l }
def drop (f : Flat) (id : ℕ) : Flat := { f with orders := f.orders.delete id }
def put (f : Flat) (id : ℕ) (o : Terms) : Flat := { f with orders := f.orders.set id o }
def pledge (f : Flat) (j : ℕ) (e : Pledge) : Flat := { f with queue := f.queue.set j e }
def pop (f : Flat) (j : ℕ) : Flat := { f with queue := f.queue.delete j }
def record (f : Flat) (tc note : Address) : Flat :=
  { f with handoverBuyer := Function.update f.handoverBuyer tc note }

end Flat

def credit (note : Address) (amount hash : ℕ) : List Out :=
  if amount = 0 then [] else [.creditFromBook note amount hash]

def release (tc : Address) : List Out := if tc ≠ 0 then [.onSellClosed tc] else []

/-- What a fill sends, the removal of a filled offer apart. -/
def fillMail (hash : ℕ) (tc buyer : Address) (pk dealFlags buyerOrder buyerClient : ℕ)
    (seller : Address) (sellerOrder sellerClient n clearing : ℕ) : List Out :=
  [.fundFromOrderBook tc (fillDebit n clearing dealFlags) buyer pk dealFlags,
    .onInferenceFilled buyer hash tc buyerOrder buyerClient n clearing
      (fillDebit n clearing dealFlags) true,
    .onInferenceFilled seller hash tc sellerOrder sellerClient n clearing
      (fillDebit n clearing dealFlags) false]

/-- The order the rest of a pledge becomes. -/
def restingBid (e : Pledge) (ts tag : ℕ) : Terms :=
  { note := e.owner, buyerPubkey := e.buyerPubkey, price := e.price, amount := e.rest
    initialAmount := e.amount, filledAccum := e.amount - e.rest, escrow := e.held
    deadline := e.deadline, clientOrderId := e.clientOrderId, ts := ts, flags := e.flags
    isBuy := true, tag := tag }

def restingOffer (e : Pledge) (ts : ℕ) : Terms :=
  { note := e.owner, tokenContract := e.tokenContract, price := e.price, amount := e.rest
    initialAmount := e.amount, filledAccum := e.amount - e.rest
    deadline := e.deadline, clientOrderId := e.clientOrderId, ts := ts, flags := e.flags }

def afterFill (o : Terms) (n debit : ℕ) : Terms :=
  { o with
    escrow := o.escrow - debit, filledAccum := o.filledAccum + n
    amount := if o.amount = n then o.amount else o.amount - n }

/-- The moves. `j` is the slot of the entry being run, `id` the number of an order. -/
inductive Move (f : Flat) : Flat → Prop where
  /-- A cancel that names no order of its sender. -/
  | refuse (a : Address) (id : ℕ) :
      Move f (f.post [.onInferenceOrderRemoved a f.modelHash id .rejected 0])
  /-- A bid leaves with its escrow. -/
  | endBid (id : ℕ) (cause : Removed) : id ∈ f.orders.keys → (f.orders.get id).isBuy = true →
      cause ≠ .rejected →
      Move f ((f.drop id).post (.onInferenceOrderRemoved (f.orders.get id).note f.modelHash id cause
        (f.orders.get id).escrow ::
          credit (f.orders.get id).note (f.orders.get id).escrow f.modelHash))
  /-- An offer leaves unfilled and its deal is free. -/
  | endOffer (id : ℕ) (cause : Removed) (r : ℕ) : id ∈ f.orders.keys →
      (f.orders.get id).isBuy = false → cause ≠ .rejected → r = 0 ∨ r = (f.orders.get id).escrow →
      Move f ((f.drop id).post (.onInferenceOrderRemoved (f.orders.get id).note f.modelHash id cause
        r :: (credit (f.orders.get id).note r f.modelHash ++
          release (f.orders.get id).tokenContract)))
  /-- The BUY at `j` takes an offer. -/
  | fillOffer (j id n number : ℕ) : j ∈ f.queue.keys → id ∈ f.orders.keys →
      (f.queue.get j).isBuy = true → (f.orders.get id).isBuy = false → 2 ≤ n →
      n ≤ (f.queue.get j).rest → n ≤ (f.orders.get id).amount →
      fillDebit n (f.orders.get id).price ((f.queue.get j).flags &&& dealFlagsMask) ≤
        (f.queue.get j).held →
      Move f ((((f.record (f.orders.get id).tokenContract (f.queue.get j).owner).drop id).pledge j
        { f.queue.get j with
          rest := (f.queue.get j).rest - n
          held := (f.queue.get j).held -
            fillDebit n (f.orders.get id).price ((f.queue.get j).flags &&& dealFlagsMask) }).post
        (fillMail f.modelHash (f.orders.get id).tokenContract (f.queue.get j).owner
          (f.queue.get j).buyerPubkey ((f.queue.get j).flags &&& dealFlagsMask) number
          (f.queue.get j).clientOrderId (f.orders.get id).note id (f.orders.get id).clientOrderId n
          (f.orders.get id).price ++
          [.onInferenceOrderRemoved (f.orders.get id).note f.modelHash id .filled 0]))
  /-- The SELL at `j` takes a bid, and is done. -/
  | fillBid (j id n number : ℕ) : j ∈ f.queue.keys → id ∈ f.orders.keys →
      (f.queue.get j).isBuy = false → (f.orders.get id).isBuy = true → 2 ≤ n →
      n ≤ (f.queue.get j).rest → n ≤ (f.orders.get id).amount →
      fillDebit n (f.queue.get j).price ((f.orders.get id).flags &&& dealFlagsMask) ≤
        (f.orders.get id).escrow →
      Move f ((((f.record (f.queue.get j).tokenContract (f.orders.get id).note).put id
        (afterFill (f.orders.get id) n
          (fillDebit n (f.queue.get j).price ((f.orders.get id).flags &&& dealFlagsMask)))).pledge j
        { f.queue.get j with rest := 0 }).post
        (fillMail f.modelHash (f.queue.get j).tokenContract (f.orders.get id).note
          (f.orders.get id).buyerPubkey ((f.orders.get id).flags &&& dealFlagsMask) id
          (f.orders.get id).clientOrderId (f.queue.get j).owner number
          (f.queue.get j).clientOrderId n (f.queue.get j).price))
  /-- A BUY is sent back with what it has left. -/
  | reject (j : ℕ) (reason : PlaceRej) : j ∈ f.queue.keys → (f.queue.get j).isBuy = true →
      Move f ((f.pop j).post [.onInferenceRejected (f.queue.get j).owner f.modelHash
        (f.queue.get j).clientOrderId reason (f.queue.get j).held])
  /-- A SELL ends unfilled and its deal is free. -/
  | release (j : ℕ) : j ∈ f.queue.keys → (f.queue.get j).isBuy = false →
      (f.queue.get j).rest ≠ 0 →
      Move f ((f.pledge j { f.queue.get j with rest := 0 }).post
        (release (f.queue.get j).tokenContract))
  /-- Its owner hears of it. -/
  | tell (j : ℕ) (reason : PlaceRej) : j ∈ f.queue.keys → (f.queue.get j).isBuy = false →
      Move f (f.post [.onInferenceRejected (f.queue.get j).owner f.modelHash
        (f.queue.get j).clientOrderId reason 0])
  /-- An entry with nothing left is done with. -/
  | pop (j : ℕ) : j ∈ f.queue.keys → (f.queue.get j).isBuy = false → (f.queue.get j).rest = 0 →
      Move f (f.pop j)
  /-- The rest of a BUY rests. -/
  | restBid (j id ts tag : ℕ) : j ∈ f.queue.keys → (f.queue.get j).isBuy = true →
      2 ≤ (f.queue.get j).rest → (∀ i ∈ f.orders.keys, i < id) →
      Move f (((f.pop j).put id (restingBid (f.queue.get j) ts tag)).post
        [.onInferencePlaced (f.queue.get j).owner f.modelHash 0 id (f.queue.get j).clientOrderId
          true (f.queue.get j).price (f.queue.get j).rest])
  /-- An offer rests. -/
  | restOffer (j id ts : ℕ) : j ∈ f.queue.keys → (f.queue.get j).isBuy = false →
      (f.queue.get j).rest ≠ 0 → (∀ i ∈ f.orders.keys, i < id) →
      Move f (((f.pop j).put id (restingOffer (f.queue.get j) ts)).post
        [.onInferencePlaced (f.queue.get j).owner f.modelHash (f.queue.get j).tokenContract id
          (f.queue.get j).clientOrderId false (f.queue.get j).price (f.queue.get j).rest])

def Moves : Flat → Flat → Prop := Relation.ReflTransGen fun f g => Move f g

variable {env : Env} {m : Msg} {s t u : Book} {k : Taker} {p q : Progress} {e : QueueEntry}
variable {f g : Flat} {id cur lp n j : ℕ} {a tc : Address}

theorem Moves.refl : Moves f f := Relation.ReflTransGen.refl

theorem Moves.trans {h : Flat} (h₁ : Moves f g) (h₂ : Moves g h) : Moves f h :=
  Relation.ReflTransGen.trans h₁ h₂

theorem Move.one (h : Move f g) : Moves f g := Relation.ReflTransGen.single h

theorem Moves.step {h : Flat} (h₁ : Moves f g) (h₂ : Move g h) : Moves f h :=
  Relation.ReflTransGen.tail h₁ h₂

theorem Moves.invariant {I : Flat → Prop} (hI : ∀ f g, Move f g → I f → I g) (h : Moves f g)
    (h0 : I f) : I g := by
  induction h with
  | refl => exact h0
  | tail _ hmove ih => exact hI _ _ hmove ih

/-! ## The flat book of a book -/

@[simp] theorem post_nil : f.post [] = f := by
  unfold Flat.post
  rw [List.append_nil]

@[simp] theorem post_post {l l' : List Out} : (f.post l).post l' = f.post (l ++ l') := by
  unfold Flat.post
  dsimp only
  rw [List.append_assoc]

theorem flat_sendFor {o : Out} : flat (s.sendFor n o) =
    (flat s).post (if heard o then [o] else []) := by
  unfold flat Flat.post Book.sendFor mail
  dsimp only
  rw [List.map_append, List.filter_append]
  cases h : heard o <;> simp [h]

theorem flat_send {o : Out} : flat (s.send o) = (flat s).post (if heard o then [o] else []) :=
  flat_sendFor

theorem flat_payShell {amount tag : ℕ} :
    flat (payShell a amount tag s) = (flat s).post (credit a amount s.modelHash) := by
  unfold payShell credit
  split
  · exact post_nil.symm
  · exact flat_sendFor

theorem flat_freeDeal : flat (freeDeal tc s) = (flat s).post (release tc) := by
  unfold freeDeal release
  split
  · exact flat_send
  · exact post_nil.symm

theorem flat_removeFromBook (cause : Removed) (r : ℕ) (h : Linked s) (hcur : cur ∈ s.orders.keys) :
    flat (removeFromBook cur cause r s) = ((flat s).drop cur).post
      [.onInferenceOrderRemoved (s.orders.get cur).note s.modelHash cur cause r] := by
  have hrem := removeFromBook_removal cause r h hcur
  have horders : (removeFromBook cur cause r s).orders.map Order.toTerms rfl =
      (s.orders.map Order.toTerms rfl).delete cur := by
    refine Mapping.ext_keys hrem.keys fun j hj => ?_
    have hne : j ≠ cur := (Finset.mem_erase.mp hj).1
    rw [Mapping.get_delete_ne hne]
    exact hrem.terms j (by rw [hrem.keys]; exact hj)
  rw [removeFromBook_eq (h.live cur hcur)] at horders ⊢
  unfold flat Flat.post Flat.drop mail at *
  dsimp only at *
  rw [horders]
  simp [heard]

theorem flat_insertIntoBook {o : Order} (h : Linked s) (hid : id ≠ 0)
    (hmax : ∀ j ∈ s.orders.keys, j < id) (hamount : o.amount ≠ 0) :
    flat (insertIntoBook id o s) = ((flat s).put id o.toTerms).post
      [.onInferencePlaced o.note s.modelHash o.tokenContract id o.clientOrderId o.isBuy o.price
        o.amount] := by
  have hin := insertIntoBook_insertion (o := o) h hid hmax hamount
  have horders : (insertIntoBook id o s).orders.map Order.toTerms rfl =
      (s.orders.map Order.toTerms rfl).set id o.toTerms := by
    refine Mapping.ext_keys hin.keys fun j hj => ?_
    by_cases hjid : j = id
    · subst hjid
      rw [Mapping.get_set]
      exact hin.added
    · rw [Mapping.get_set_ne hjid]
      exact hin.terms j ((Finset.mem_insert.mp hj).resolve_left hjid)
  rw [insertIntoBook_eq] at horders ⊢
  unfold flat Flat.post Flat.put mail at *
  dsimp only at *
  rw [horders]
  simp [heard]

theorem flat_editOrder {h : Order → Order} :
    flat (s.editOrder cur h) = (flat s).put cur (h (s.orders.get cur)).toTerms := by
  unfold flat Flat.put Book.editOrder Mapping.modify
  dsimp only
  rw [Mapping.map_set]

theorem drop_post {l : List Out} : (f.post l).drop id = (f.drop id).post l := rfl

theorem drop_put {o : Terms} : (f.put id o).drop id = f.drop id := by
  unfold Flat.put Flat.drop
  dsimp only
  rw [Mapping.delete_set]

theorem flat_refundAndRemove (cause : Removed) (h : Linked s) (hcur : cur ∈ s.orders.keys) :
    flat (refundAndRemove cur cause s) = ((flat s).drop cur).post
      (.onInferenceOrderRemoved (s.orders.get cur).note s.modelHash cur cause
        (s.orders.get cur).escrow ::
          credit (s.orders.get cur).note (s.orders.get cur).escrow s.modelHash) := by
  have hgone := flat_removeFromBook cause (s.orders.get cur).escrow h hcur
  have hhash : (removeFromBook cur cause (s.orders.get cur).escrow s).modelHash = s.modelHash := by
    rw [removeFromBook_eq (h.live cur hcur)]
  unfold refundAndRemove
  dsimp only
  split
  · rw [flat_send, flat_payShell, hgone, hhash]
    simp [heard]
  · rename_i hzero
    have hz : (s.orders.get cur).escrow = 0 := Nat.eq_zero_of_not_pos hzero
    rw [hgone, hz]
    rfl

theorem flat_removeExpiredBid (h : Linked s) (hcur : cur ∈ s.orders.keys) :
    flat (removeExpiredBid cur s) = ((flat s).drop cur).post
      (.onInferenceOrderRemoved (s.orders.get cur).note s.modelHash cur .expired
        (s.orders.get cur).escrow ::
          credit (s.orders.get cur).note (s.orders.get cur).escrow s.modelHash) := by
  unfold removeExpiredBid
  dsimp only
  rw [flat_send, flat_refundAndRemove .expired h hcur]
  exact post_nil

theorem flat_removeExpiredSell (h : Linked s) (hcur : cur ∈ s.orders.keys) :
    flat (removeExpiredSell cur s) = ((flat s).drop cur).post
      (.onInferenceOrderRemoved (s.orders.get cur).note s.modelHash cur .expired 0 ::
        (credit (s.orders.get cur).note 0 s.modelHash ++
          release (s.orders.get cur).tokenContract)) := by
  unfold removeExpiredSell
  dsimp only
  rw [flat_send, flat_freeDeal, flat_removeFromBook .expired 0 h hcur]
  simp [heard, credit]

theorem flat_cancelRemove (h : Linked s) (hcur : cur ∈ s.orders.keys)
    (hown : (s.orders.get cur).note = a) : flat (cancelRemove a cur s) = ((flat s).drop cur).post
      (.onInferenceOrderRemoved (s.orders.get cur).note s.modelHash cur .cancelled
        (s.orders.get cur).escrow ::
        (credit (s.orders.get cur).note (s.orders.get cur).escrow s.modelHash ++
          if (s.orders.get cur).isBuy then [] else release (s.orders.get cur).tokenContract)) := by
  have hhash : (removeFromBook cur .cancelled (s.orders.get cur).escrow s).modelHash =
      s.modelHash := by
    rw [removeFromBook_eq (h.live cur hcur)]
  unfold cancelRemove
  dsimp only
  split
  · rw [flat_payShell, flat_send, flat_removeFromBook .cancelled _ h hcur, ← hown]
    simp [heard, Book.send, Book.sendFor, hhash]
  · rw [flat_freeDeal, flat_payShell, flat_send, flat_removeFromBook .cancelled _ h hcur, ← hown]
    simp [heard, Book.send, Book.sendFor, hhash]

theorem cancelRemove_moves (h : Linked s) (hcur : cur ∈ s.orders.keys)
    (hown : (s.orders.get cur).note = a) : Move (flat s) (flat (cancelRemove a cur s)) := by
  rw [flat_cancelRemove h hcur hown]
  cases hside : (s.orders.get cur).isBuy with
  | true =>
    rw [if_pos rfl, List.append_nil]
    exact Move.endBid (f := flat s) cur .cancelled hcur hside (by decide)
  | false =>
    exact Move.endOffer (f := flat s) cur .cancelled (s.orders.get cur).escrow hcur hside
      (by decide) (.inr rfl)

/-! ## The walk of a taker -/

theorem flat_settleFill (makerId takerId : ℕ) (bn sn : Address) (pk : ℕ) (tc : Address)
    (n clearing : ℕ) (b : Bool) (d c tag : ℕ) (s : Book) :
    flat (settleFill makerId takerId bn sn pk tc n clearing b d c tag s) =
      ((flat s).record tc bn).post (fillMail s.modelHash tc bn pk d
        (if b then takerId else makerId) (if b then c else (s.orders.get makerId).clientOrderId)
        sn (if b then makerId else takerId) (if b then (s.orders.get makerId).clientOrderId else c)
        n clearing) := by
  unfold settleFill flat Flat.post Flat.record mail fillMail
  simp [Book.send, Book.sendFor, Book.check, List.filter, heard]

def left (e : QueueEntry) (ticks escrow : ℕ) : Pledge :=
  { pledgeOf e with rest := ticks, held := escrow }

def during (j : ℕ) (e : QueueEntry) (p : Progress) : Flat :=
  (flat p.book).pledge j (left e p.remaining p.leftoverEscrow)

theorem during_get : (during j e p).queue.get j = left e p.remaining p.leftoverEscrow :=
  Mapping.get_set

theorem pledge_pledge {x y : Pledge} : (f.pledge j x).pledge j y = f.pledge j y := by
  unfold Flat.pledge
  dsimp only
  rw [Mapping.set_set]

theorem drops_moves (hl : Linked p.book) (hat : At (takerOf id e) lp cur p.book)
    (h : Drops (takerOf id e) cur p.book u) :
    Move (during j e p) (during j e { p with book := u, matched := n }) := by
  obtain ⟨hcur, hside, -⟩ := hat
  unfold during
  cases h with
  | offer hb =>
    dsimp only
    rw [flat_removeExpiredSell hl hcur]
    exact Move.endOffer (f := during j e p) cur .expired 0 hcur (by rw [hb] at hside; exact hside)
      (by decide) (.inl rfl)
  | bid hb =>
    dsimp only
    rw [flat_removeExpiredBid hl hcur]
    exact Move.endBid (f := during j e p) cur .expired hcur (by rw [hb] at hside; exact hside)
      (by decide)
  | dust hb =>
    dsimp only
    rw [flat_refundAndRemove .dust hl hcur]
    exact Move.endBid (f := during j e p) cur .dust hcur (by rw [hb] at hside; exact hside)
      (by decide)

theorem put_post {o : Terms} {l : List Out} : (f.post l).put id o = (f.put id o).post l := rfl

theorem put_put {o o' : Terms} : (f.put id o).put id o' = f.put id o' := by
  unfold Flat.put
  dsimp only
  rw [Mapping.set_set]

theorem settled_linked {h : Order → Order} (hl : Linked s) (hcur : cur ∈ s.orders.keys)
    (hq : Quiet s u) (hh : InPlace h) (hamount : (h (s.orders.get cur)).amount ≠ 0) :
    Linked (u.editOrder cur h) ∧ cur ∈ (u.editOrder cur h).orders.keys := by
  refine ⟨editOrder_linked (hq.linked hl) ?_ hh ?_, Finset.mem_insert_self ..⟩
  · rw [hq.orders]
    exact hcur
  · rw [hq.orders]
    exact hamount

theorem flat_fillMaker_buy (hk : k.isBuy = true) (hl : Linked p.book)
    (hcur : cur ∈ p.book.orders.keys) : flat (fillMaker k lp cur n p).book =
      (((flat p.book).record (p.book.orders.get cur).tokenContract k.note).drop cur).post
        (fillMail p.book.modelHash (p.book.orders.get cur).tokenContract k.note k.buyerPubkey
          (k.flags &&& dealFlagsMask) k.id k.clientId (p.book.orders.get cur).note cur
          (p.book.orders.get cur).clientOrderId n lp ++
        [.onInferenceOrderRemoved (p.book.orders.get cur).note p.book.modelHash cur .filled 0]) := by
  have hflat := flat_settleFill cur k.id k.note (p.book.orders.get cur).note k.buyerPubkey
    (p.book.orders.get cur).tokenContract n lp true (k.flags &&& dealFlagsMask) k.clientId k.tag
    p.book
  have hquiet : Quiet p.book (settleFill cur k.id k.note (p.book.orders.get cur).note k.buyerPubkey
    (p.book.orders.get cur).tokenContract n lp true (k.flags &&& dealFlagsMask) k.clientId k.tag
    p.book) := settleFill_quiet
  unfold fillMaker
  simp only [hk, if_true]
  generalize settleFill _ _ _ _ _ _ _ _ _ _ _ _ _ = v at hflat hquiet ⊢
  generalize hw : ({ v.check (fillDebit n lp (k.flags &&& dealFlagsMask) ≤ p.leftoverEscrow) with
    underflow := v.underflow || decide (p.leftoverEscrow <
      fillDebit n lp (k.flags &&& dealFlagsMask)) } : Book) = w
  have hqw : Quiet p.book w := by
    rw [← hw]
    exact hquiet.trans rfl
  have hfw : flat w = flat v := by
    rw [← hw]
    rfl
  have hwo : w.orders = p.book.orders := hqw.orders
  have hwh : w.modelHash = p.book.modelHash := by rw [hqw]
  obtain ⟨hlw, hmem⟩ := settled_linked hl hcur hqw (inPlace_filledAccum (n := n))
    (hl.live cur hcur)
  rw [flat_removeFromBook .filled 0 hlw hmem, flat_editOrder, drop_put, editOrder_get, hfw, hflat,
    hwo]
  change Flat.post (Flat.drop _ _) [.onInferenceOrderRemoved _ w.modelHash _ _ _] = _
  rw [hwh]
  simp only [if_true]
  rw [drop_post, post_post]

def reduced (n rest : ℕ) (o : Order) : Order :=
  { o with escrow := rest, filledAccum := o.filledAccum + n }

theorem flat_fillMaker_sell (lp n : ℕ) (hk : k.isBuy = false) (hl : Linked p.book)
    (hcur : cur ∈ p.book.orders.keys) :
    ∃ w, Linked w ∧ cur ∈ w.orders.keys ∧
      w.orders.get cur = reduced n ((p.book.orders.get cur).escrow - fillDebit n k.price
        ((p.book.orders.get cur).flags &&& dealFlagsMask)) (p.book.orders.get cur) ∧
      w.modelHash = p.book.modelHash ∧
      flat w = (((flat p.book).record k.tc (p.book.orders.get cur).note).put cur
        (reduced n ((p.book.orders.get cur).escrow - fillDebit n k.price
          ((p.book.orders.get cur).flags &&& dealFlagsMask)) (p.book.orders.get cur)).toTerms).post
        (fillMail p.book.modelHash k.tc (p.book.orders.get cur).note
          (p.book.orders.get cur).buyerPubkey ((p.book.orders.get cur).flags &&& dealFlagsMask) cur
          (p.book.orders.get cur).clientOrderId k.note k.id k.clientId n k.price) ∧
      (fillMaker k lp cur n p).book = if (p.book.orders.get cur).amount = n then
        refundAndRemove cur .filled w
        else w.editOrder cur fun o => { o with amount := (p.book.orders.get cur).amount - n } := by
  have hflat := flat_settleFill cur k.id (p.book.orders.get cur).note k.note
    (p.book.orders.get cur).buyerPubkey k.tc n k.price false
    ((p.book.orders.get cur).flags &&& dealFlagsMask) k.clientId (p.book.orders.get cur).tag p.book
  have hquiet : Quiet p.book (settleFill cur k.id (p.book.orders.get cur).note k.note
    (p.book.orders.get cur).buyerPubkey k.tc n k.price false
    ((p.book.orders.get cur).flags &&& dealFlagsMask) k.clientId (p.book.orders.get cur).tag
    p.book) := settleFill_quiet
  unfold fillMaker
  simp only [hk, Bool.false_eq_true, if_false]
  generalize settleFill _ _ _ _ _ _ _ _ _ _ _ _ _ = v at hflat hquiet ⊢
  generalize fillDebit n k.price ((p.book.orders.get cur).flags &&& dealFlagsMask) = cost at *
  generalize hw : ({ v.check (cost ≤ (p.book.orders.get cur).escrow) with
    underflow := v.underflow || decide ((p.book.orders.get cur).escrow < cost) } : Book) = w
  have hqw : Quiet p.book w := by
    rw [← hw]
    exact hquiet.trans rfl
  have hfw : flat w = flat v := by
    rw [← hw]
    rfl
  have hwo : w.orders = p.book.orders := hqw.orders
  have hwh : w.modelHash = p.book.modelHash := by rw [hqw]
  have hlive := hl.live cur hcur
  obtain ⟨hl1, hmem1⟩ := settled_linked hl hcur hqw
    (inPlace_escrow (n := (p.book.orders.get cur).escrow - cost)) hlive
  have hl2 := editOrder_linked hl1 hmem1 (inPlace_filledAccum (n := n)) (by
    rw [editOrder_get, hwo]
    exact hlive)
  refine ⟨_, hl2, Finset.mem_insert_self .., ?_, hwh, ?_, rfl⟩
  · rw [editOrder_get, editOrder_get, hwo]
    rfl
  · rw [flat_editOrder, flat_editOrder, put_put, editOrder_get, hfw, hflat, hwo]
    rfl

theorem fillOffer_moves {budget : ℕ} (h : Walk (takerOf id e) s budget p)
    (hk : Ready (takerOf id e)) (hb : e.isBuy = true)
    (hcross : crosses e.isBuy e.price (takerOf id e).isMarket lp = true)
    (hat : At (takerOf id e) lp cur p.book) (hrem : p.remaining ≠ 0) (hmin : 2 ≤ n)
    (hsuit : Suits (takerOf id e) lp cur n p) :
    Move (during j e p) (during j e (fillMaker (takerOf id e) lp cur n p)) := by
  obtain ⟨hcur, hside, hprice⟩ := hat
  have hl := h.trimmed.linked
  have hafford := buy_afforded hk hb hcross hsuit fun hm => (h.covered hb hm).resolve_left hrem
  have hmove := Move.fillOffer (f := during j e p) j cur n id (Finset.mem_insert_self ..) hcur
  rw [during_get] at hmove
  have hdone := hmove hb (by rw [show (takerOf id e).isBuy = true from hb] at hside; exact hside)
    hmin (hsuit.fits ▸ tradeable_le.1) (hsuit.fits ▸ tradeable_le.2) (by
      rw [fillDebit_mask]
      change fillDebit n (p.book.orders.get cur).price e.flags ≤ p.leftoverEscrow
      rw [hprice]
      exact hafford)
  have hnew : during j e (fillMaker (takerOf id e) lp cur n p) =
      (flat (fillMaker (takerOf id e) lp cur n p).book).pledge j (left e (p.remaining - n)
        (p.leftoverEscrow - fillDebit n lp (e.flags &&& dealFlagsMask))) := by
    unfold during fillMaker
    simp only [show (takerOf id e).isBuy = true from hb, if_true]
    rfl
  rw [hnew, flat_fillMaker_buy hb hl hcur, ← hprice]
  unfold during at hdone ⊢
  convert hdone using 1
  exact pledge_pledge.symm

/-- A bid that is filled up takes a second move to leave. -/
theorem fillBid_moves {budget : ℕ} (h : Walk (takerOf id e) s budget p)
    (hk : Ready (takerOf id e)) (hb : e.isBuy = false)
    (hcross : crosses e.isBuy e.price (takerOf id e).isMarket lp = true)
    (hat : At (takerOf id e) lp cur p.book) (hmin : 2 ≤ n)
    (hsuit : Suits (takerOf id e) lp cur n p) :
    Moves (during j e p) (during j e (fillMaker (takerOf id e) lp cur n p)) := by
  have hle : n ≤ (p.book.orders.get cur).amount := hsuit.fits ▸ tradeable_le.2
  have hafford := sell_afforded h.solvent hk hb hcross hat hle
  obtain ⟨hcur, hside, -⟩ := hat
  rw [show (takerOf id e).isBuy = false from hb] at hside
  have hl := h.trimmed.linked
  obtain ⟨w, hwl, hwm, hwo, hwh, hflat, hbook⟩ := flat_fillMaker_sell lp n
    (k := takerOf id e) hb hl hcur
  have hmove := Move.fillBid (f := during j e p) j cur n id (Finset.mem_insert_self ..) hcur
  rw [during_get] at hmove
  have hdone := hmove hb hside hmin (hsuit.fits ▸ tradeable_le.1) hle (by
      rw [fillDebit_mask]
      exact hafford)
  have hnew : during j e (fillMaker (takerOf id e) lp cur n p) =
      (flat (fillMaker (takerOf id e) lp cur n p).book).pledge j (left e 0 p.leftoverEscrow) := by
    unfold during fillMaker
    simp only [show (takerOf id e).isBuy = false from hb, Bool.false_eq_true, if_false]
  rw [hnew, hbook]
  have hfilled : Move (during j e p) (((((flat p.book).record e.tokenContract
      (p.book.orders.get cur).note).put cur (afterFill (p.book.orders.get cur).toTerms n
        (fillDebit n e.price ((p.book.orders.get cur).flags &&& dealFlagsMask)))).post
      (fillMail p.book.modelHash e.tokenContract (p.book.orders.get cur).note
        (p.book.orders.get cur).buyerPubkey ((p.book.orders.get cur).flags &&& dealFlagsMask) cur
        (p.book.orders.get cur).clientOrderId e.owner id e.clientOrderId n e.price)).pledge j
      (left e 0 p.leftoverEscrow)) := by
    convert hdone using 1
    exact pledge_pledge.symm
  by_cases hwhole : (p.book.orders.get cur).amount = n
  · have hterms : afterFill (p.book.orders.get cur).toTerms n (fillDebit n e.price
        ((p.book.orders.get cur).flags &&& dealFlagsMask)) =
        (reduced n ((p.book.orders.get cur).escrow - fillDebit n e.price
          ((p.book.orders.get cur).flags &&& dealFlagsMask)) (p.book.orders.get cur)).toTerms := by
      unfold afterFill reduced
      rw [if_pos hwhole]
    rw [hterms] at hfilled
    have hw : Move (during j e p) ((flat w).pledge j (left e 0 p.leftoverEscrow)) := by
      rw [hflat]
      exact hfilled
    rw [if_pos hwhole, flat_refundAndRemove .filled hwl hwm]
    refine hw.one.step ?_
    exact Move.endBid (f := (flat w).pledge j (left e 0 p.leftoverEscrow)) cur .filled hwm
      (by
        change (w.orders.get cur).isBuy = true
        rw [hwo]
        exact hside) (by decide)
  · have hterms : afterFill (p.book.orders.get cur).toTerms n (fillDebit n e.price
        ((p.book.orders.get cur).flags &&& dealFlagsMask)) = Order.toTerms { reduced n
          ((p.book.orders.get cur).escrow - fillDebit n e.price
            ((p.book.orders.get cur).flags &&& dealFlagsMask)) (p.book.orders.get cur) with
          amount := (p.book.orders.get cur).amount - n } := by
      unfold afterFill reduced
      rw [if_neg hwhole]
    rw [hterms] at hfilled
    rw [if_neg hwhole, flat_editOrder, hflat, hwo, put_post, put_put]
    exact hfilled.one

theorem matchMaker_moves {budget : ℕ} (h : Walk (takerOf id e) s budget p)
    (hk : Ready (takerOf id e))
    (hcross : crosses e.isBuy e.price (takerOf id e).isMarket lp = true)
    (hat : At (takerOf id e) lp cur p.book) (hrem : p.remaining ≠ 0) :
    Moves (during j e p) (during j e (matchMaker (takerOf id e) lp cur p).1) := by
  rcases matchMaker_outcomes h.solvent hk hcross hat with
    heq | ⟨b, hdrop, heq⟩ | ⟨trade, hmin, hsuit, heq⟩
  · rw [heq]
    exact .refl
  · rw [heq]
    exact (drops_moves h.trimmed.linked hat hdrop).one
  · rw [heq]
    cases hb : e.isBuy with
    | true => exact (fillOffer_moves h hk hb hcross hat hrem hmin hsuit).one
    | false => exact fillBid_moves h hk hb hcross hat hmin hsuit

theorem matchTaker_moves (amount budget resume : ℕ) (hl : Linked s) (hs : Solvent s)
    (hk : Ready (takerOf id e)) (hcov : e.isBuy = true → e.flags &&& flagMarket = 0 →
      fillDebit amount e.price e.flags ≤ budget) :
    Moves ((flat s).pledge j (left e amount budget))
      (during j e (matchTaker (takerOf id e) amount budget resume s).1) := by
  have hstart : Walk (takerOf id e) s budget
      { book := s, remaining := amount, leftoverEscrow := budget } := by
    refine ⟨.refl hl, hs, fun hb hm => .inr (hcov hb ?_), fun t a _ hmine => ⟨hmine, rfl⟩⟩
    simpa [takerOf] using hm
  have hrule : Walk (takerOf id e) s budget (matchTaker (takerOf id e) amount budget resume s).1 ∧
      Moves ((flat s).pledge j (left e amount budget))
        (during j e (matchTaker (takerOf id e) amount budget resume s).1) :=
    (matchTaker_rule (I := fun p => Walk (takerOf id e) s budget p ∧
      Moves ((flat s).pledge j (left e amount budget)) (during j e p))
      (fun _ h => h.1.trimmed.linked)
      (fun lp cur p hcross h hat hrem => ⟨walk_step h.1 hk hcross hat hrem,
        h.2.trans (matchMaker_moves h.1 hk hcross hat hrem)⟩) ⟨hstart, .refl⟩).1
  exact hrule.2

/-! ## The end of an entry -/

theorem flat_advanceHead : flat (advanceHead s) = (flat s).pop s.queueHead := by
  unfold flat advanceHead Flat.pop
  dsimp only
  rw [Mapping.map_delete]

theorem pop_pledge {x : Pledge} : (f.pledge j x).pop j = f.pop j := by
  unfold Flat.pledge Flat.pop
  dsimp only
  rw [Mapping.delete_set]

theorem pop_post {l : List Out} : (f.post l).pop j = (f.pop j).post l := rfl

theorem pledge_get {x : Pledge} : (f.pledge j x).queue.get j = x := Mapping.get_set

/-- A SELL that ends unfilled, with or without a word to its owner. -/
theorem sell_ends {l : List Out} (hj : j ∈ f.queue.keys) (hb : (f.queue.get j).isBuy = false)
    (hrest : (f.queue.get j).rest ≠ 0) (hl : l = [] ∨ ∃ reason, l = [.onInferenceRejected
      (f.queue.get j).owner f.modelHash (f.queue.get j).clientOrderId reason 0]) :
    Moves f ((f.post (release (f.queue.get j).tokenContract ++ l)).pop j) := by
  have hfree := Move.release j hj hb hrest
  generalize hg : (f.pledge j { f.queue.get j with rest := 0 }).post
    (release (f.queue.get j).tokenContract) = g at hfree
  have hget : g.queue.get j = { f.queue.get j with rest := 0 } := by
    rw [← hg]
    exact pledge_get
  have hjg : j ∈ g.queue.keys := by
    rw [← hg]
    exact Finset.mem_insert_self ..
  have htold : Moves g (g.post l) := by
    rcases hl with rfl | ⟨reason, rfl⟩
    · rw [post_nil]
      exact .refl
    · have htell := Move.tell j reason hjg (by rw [hget]; exact hb)
      rw [hget, show g.modelHash = f.modelHash by rw [← hg]; rfl] at htell
      exact htell.one
  have hpop := Move.pop (f := g.post l) j hjg (by rw [show (g.post l).queue = g.queue from rfl, hget]; exact hb) (by
    rw [show (g.post l).queue = g.queue from rfl, hget])
  have hend : (g.post l).pop j = (f.post (release (f.queue.get j).tokenContract ++ l)).pop j := by
    rw [← hg, post_post, pop_post, pop_pledge, pop_post]
  rw [← hend]
  exact (hfree.one.trans htold).step hpop

theorem flat_rejectToNote {c r tag : ℕ} {reason : PlaceRej} : flat (rejectToNote a c reason r tag s) =
    (flat s).post [.onInferenceRejected a s.modelHash c reason r] := flat_sendFor

/-- The rest of a taker. -/
theorem finalizeTaker_moves (hl : Linked p.book) (hid : id ≠ 0)
    (hmax : ∀ i ∈ p.book.orders.keys, i < id) :
    Moves (during j e p)
      ((flat (finalizeTaker id e p.remaining p.leftoverEscrow p.book)).pop j) := by
  have hj : j ∈ (during j e p).queue.keys := Finset.mem_insert_self ..
  have hget := during_get (j := j) (e := e) (p := p)
  have hpop : (during j e p).pop j = (flat p.book).pop j := pop_pledge
  unfold finalizeTaker
  dsimp only
  split
  · rename_i hb
    split
    · have hmove := Move.reject j .endTaker hj (by rw [hget]; exact hb)
      rw [hget, hpop] at hmove
      rw [flat_rejectToNote, flat_send]
      simp only [heard, Bool.false_eq_true, if_false, post_nil]
      exact hmove.one
    · rename_i hrest
      have htwo : 2 ≤ p.remaining := by omega
      have hmove := Move.restBid (f := during j e p) j id p.book.now e.tag hj (by rw [hget]; exact hb)
        (by rw [hget]; exact htwo) hmax
      rw [hget, hpop] at hmove
      have hlc : Linked (p.book.check (p.remaining ≤ e.amount)) := check_quiet.linked hl
      rw [flat_insertIntoBook hlc hid hmax (by dsimp only; omega)]
      exact hmove.one
  · rename_i hb
    have hb : e.isBuy = false := Bool.eq_false_iff.mpr hb
    split
    · rename_i hrest
      have hmove := Move.restOffer (f := during j e p) j id p.book.now hj (by rw [hget]; exact hb)
        (by rw [hget]; exact hrest.1.ne') hmax
      rw [hget, hpop] at hmove
      have hlc : Linked (p.book.check (p.remaining ≤ e.amount)) := check_quiet.linked hl
      rw [flat_insertIntoBook hlc hid hmax hrest.1.ne']
      exact hmove.one
    rename_i hno
    by_cases hzero : p.remaining = 0
    · have hmove := Move.pop j hj (by rw [hget]; exact hb) (by rw [hget]; exact hzero)
      rw [hpop] at hmove
      rw [if_neg (by omega)]
      exact hmove.one
    · have hmoves := sell_ends (l := []) hj (by rw [hget]; exact hb) (by rw [hget]; exact hzero)
        (.inl rfl)
      rw [hget, pop_post, hpop, List.append_nil] at hmoves
      have hflat : flat (if p.remaining > 0 ∧ e.tokenContract ≠ 0 then
          (p.book.send (.onSellClosed e.tokenContract)).send (.inferenceRefunded id e.owner 0)
          else p.book) = (flat p.book).post (release e.tokenContract) := by
        unfold release
        by_cases htc : e.tokenContract = 0
        · rw [if_neg (fun h => h.2 htc), if_neg (fun h => h htc), post_nil]
        · rw [if_pos ⟨by omega, htc⟩, if_pos htc, flat_send, flat_send]
          simp [heard]
      rw [hflat]
      exact hmoves

/-! ## The run of the head -/

structure FormedEntry (e : QueueEntry) : Prop where
  known : e.entryType ≠ .absent
  place : e.entryType = .place → rest e ≠ 0
  idle : e.entryType ≠ .place → e.isBuy = false ∧ rest e = 0

def Formed (s : Book) : Prop := ∀ j ∈ s.queue.keys, FormedEntry (s.queue.get j)

def turned (r : Book × Bool) : Book := if r.2 then r.1 else advanceHead r.1

theorem pledge_self (hj : j ∈ s.queue.keys) (he : s.queue.get j = e) :
    (flat s).pledge j (left e (rest e) (held e)) = flat s := by
  have hset := Mapping.set_get (m := (flat s).queue) (k := j) hj
  unfold Flat.pledge
  rw [show left e (rest e) (held e) = (flat s).queue.get j by subst he; rfl, hset]

theorem finalizeTaker_queue (id r l : ℕ) (e : QueueEntry) (s : Book) :
    (finalizeTaker id e r l s).queue = s.queue ∧
    (finalizeTaker id e r l s).queueHead = s.queueHead := by
  unfold finalizeTaker rejectToNote insertIntoBook
  dsimp only
  split_ifs <;> exact ⟨rfl, rfl⟩

theorem runPlace_moves {amount escrow : ℕ} (resume : ℕ) (hs : Sound s) (hsize : s.queueSize ≠ 0)
    (hf : Funded s) (he : s.queue.get s.queueHead = e) (hrest : amount = rest e)
    (hheld : escrow = held e) (hcov : e.isBuy = true → e.flags &&& flagMarket = 0 →
      fillDebit amount e.price e.flags ≤ held e) (hid : id ≠ 0)
    (hmax : ∀ i ∈ s.orders.keys, i < id) :
    Moves (flat s) (flat (turned (runPlace id amount escrow resume e s))) := by
  have hj := hs.window.head_mem hsize
  have hentry : CoveredEntry e := he ▸ hf.entries _
  subst hrest hheld
  have hready : Ready (takerOf id e) := ready_takerOf hentry
  have hmoves := matchTaker_moves (j := s.queueHead) (rest e) (held e) resume hs.linked hf.solvent
    hready hcov
  rw [pledge_self hj he] at hmoves
  have ht := matchTaker_trimmed (takerOf id e) (rest e) (held e) resume hs.linked
  unfold runPlace turned
  generalize matchTaker _ _ _ _ _ = r at ht hmoves ⊢
  obtain ⟨p, c⟩ := r
  dsimp only at ht hmoves ⊢
  cases c with
  | none =>
    dsimp only
    have hhead := (finalizeTaker_queue id p.remaining p.leftoverEscrow e p.book).2.trans
      ht.queueHead
    rw [if_neg (by decide), flat_advanceHead, hhead]
    exact hmoves.trans (finalizeTaker_moves ht.linked hid fun i hi => hmax i (ht.keys hi))
  | some cur =>
    dsimp only
    rw [if_pos rfl]
    have hflat : flat { p.book with
        queue := p.book.queue.set p.book.queueHead { e with
          contOrderId := id, contRemaining := p.remaining, contLeftover := p.leftoverEscrow
          contScanOrder := cur } } = during s.queueHead e p := by
      unfold flat during Flat.pledge
      dsimp only
      rw [Mapping.map_set, ht.queueHead]
      congr 2
      unfold left pledgeOf rest held
      simp [hid]
    rw [hflat]
    exact hmoves

def turnedAway (e : QueueEntry) (hash : ℕ) (reason : PlaceRej) : List Out :=
  (if e.isBuy then [] else release e.tokenContract) ++
    [.onInferenceRejected e.owner hash e.clientOrderId reason (if e.isBuy then held e else 0)]

theorem turnedAway_moves {reason : PlaceRej} (hj : j ∈ s.queue.keys) (he : s.queue.get j = e)
    (hrest : rest e ≠ 0) : Moves (flat s) (((flat s).post (turnedAway e s.modelHash reason)).pop j) := by
  subst he
  unfold turnedAway
  cases hb : (s.queue.get j).isBuy with
  | true => exact (Move.reject (f := flat s) j reason hj hb).one
  | false => exact sell_ends (f := flat s) hj hb hrest (.inr ⟨reason, rfl⟩)

theorem flat_freed : flat (if e.isBuy = true then s else freeDeal e.tokenContract s) =
    (flat s).post (if e.isBuy then [] else release e.tokenContract) := by
  split
  · exact post_nil.symm
  · exact flat_freeDeal

theorem freed_hash : (if e.isBuy = true then s else freeDeal e.tokenContract s).modelHash =
    s.modelHash := by
  unfold freeDeal
  split_ifs <;> rfl

theorem flat_dropLapsed :
    flat (dropLapsed e s) = (flat s).post (turnedAway e s.modelHash .expired) := by
  have hflat := flat_freed (e := e) (s := s)
  have hhash := freed_hash (e := e) (s := s)
  unfold dropLapsed turnedAway
  dsimp only
  generalize (if e.isBuy = true then s else freeDeal e.tokenContract s) = v at hflat hhash ⊢
  rw [flat_rejectToNote, ← post_post, ← hflat]
  unfold held
  by_cases hc : e.contOrderId = 0
  · simp only [hc, if_true]
    rw [flat_send, ← hhash]
    simp [heard, Book.send, Book.sendFor]
  · simp only [hc, if_false]
    rw [flat_send, ← hhash]
    simp [heard, Book.send, Book.sendFor]

theorem flat_refusePlacement {reason : PlaceRej} (hfirst : e.contOrderId = 0) :
    flat (refusePlacement reason e s) = (flat s).post (turnedAway e s.modelHash reason) := by
  have hflat := flat_freed (e := e) (s := s)
  have hhash := freed_hash (e := e) (s := s)
  have hback : (if e.isBuy = true ∧ e.escrow > 0 then e.escrow else 0) =
      if e.isBuy = true then held e else 0 := by
    unfold held
    rw [if_pos hfirst]
    by_cases hb : e.isBuy = true
    · by_cases hpos : e.escrow > 0
      · rw [if_pos ⟨hb, hpos⟩, if_pos hb]
      · rw [if_neg (fun h => hpos h.2), if_pos hb]
        omega
    · rw [if_neg (fun h => hb h.1), if_neg hb]
  unfold refusePlacement turnedAway
  dsimp only
  rw [hback]
  generalize (if e.isBuy = true then s else freeDeal e.tokenContract s) = v at hflat hhash ⊢
  rw [flat_rejectToNote, flat_send, ← post_post, ← hflat, ← hhash]
  simp [heard, Book.send, Book.sendFor]

theorem doPlaceHead_moves (hs : Sound s) (hsize : s.queueSize ≠ 0) (hf : Funded s)
    (hform : FormedEntry (s.queue.get s.queueHead))
    (hkind : (s.queue.get s.queueHead).entryType = .place) :
    Moves (flat s) (flat (turned (doPlaceHead s))) := by
  have hj := hs.window.head_mem hsize
  have hentry := hf.entries s.queueHead
  have hrest := hform.place hkind
  have haway : ∀ {reason u}, Quiet s u →
      flat u = (flat s).post (turnedAway (s.queue.get s.queueHead) s.modelHash reason) →
      Moves (flat s) (flat (turned (u, false))) := by
    intro reason u hq hflat
    have hhead : u.queueHead = s.queueHead := by rw [hq]
    change Moves (flat s) (flat (advanceHead u))
    rw [flat_advanceHead, hhead, hflat]
    exact turnedAway_moves hj rfl hrest
  unfold doPlaceHead
  generalize he : s.queue.get s.queueHead = e at *
  dsimp only
  split
  · exact haway dropLapsed_quiet flat_dropLapsed
  split
  · rename_i hfirst
    split
    · exact haway refusePlacement_quiet (flat_refusePlacement hfirst)
    split
    · exact haway refusePlacement_quiet (flat_refusePlacement hfirst)
    · -- the number taken and the event leave the flat book as it was
      generalize hw : Book.send { s.check (s.nextOrderId + 1 < u128) with
        nextOrderId := s.nextOrderId + 1 } _ = w
      have hws : Sound w := by
        rw [← hw]
        exact numbered_sound hs
      have hwf : flat w = flat s := by
        rw [← hw, flat_send]
        exact post_nil
      rw [← hwf]
      refine runPlace_moves 0 hws ?_ ?_ ?_ ?_ ?_ ?_ hs.next_ne ?_
      · rw [← hw]
        exact hsize
      · rw [← hw]
        exact ⟨{ hf.solvent with }, hf.entries⟩
      · rw [← hw]
        exact he
      · unfold rest
        rw [if_pos hfirst]
      · unfold held
        rw [if_pos hfirst]
      · intro hb hm
        have hcov := hentry.first hb hm hfirst
        unfold held
        rw [if_pos hfirst]
        exact hcov
      · rw [← hw]
        exact hs.ids
  · rename_i hcont
    have hold := hs.cont s.queueHead (by rw [he]; exact hcont)
    rw [he] at hold
    refine runPlace_moves _ hs hsize hf he ?_ ?_ ?_ hcont hold.2.2
    · unfold rest
      rw [if_neg hcont]
    · unfold held
      rw [if_neg hcont]
    · intro hb hm
      have hcov := hentry.again hb hm hcont
      unfold held
      rw [if_neg hcont]
      exact hcov

theorem doCancel_moves (h : Linked s) : Moves (flat s) (flat (doCancel a id s)) := by
  have hrefuse : ∀ reason, flat (rejectCancel id reason a s) =
      (flat s).post [.onInferenceOrderRemoved a s.modelHash id .rejected 0] := by
    intro reason
    unfold rejectCancel
    dsimp only
    rw [flat_send, flat_send]
    simp [heard, Book.send, Book.sendFor]
  unfold doCancel
  dsimp only
  split
  · rw [hrefuse]
    exact (Move.refuse a id).one
  rename_i hfound
  split
  · rw [hrefuse]
    exact (Move.refuse a id).one
  · rename_i hown
    have hid : id ∈ s.orders.keys := by
      by_contra hid
      rw [s.orders.absent id hid] at hfound
      exact hfound ⟨rfl, rfl⟩
    exact (cancelRemove_moves h hid (not_not.mp hown)).one

theorem cancelAllFrom_moves : ∀ (left : ℕ) {cur : ℕ} {s : Book}, Linked s →
    (cur ≠ 0 → cur ∈ s.orders.keys ∧ (s.orders.get cur).note = a) →
    Moves (flat s) (flat (cancelAllFrom a left cur s).1) := by
  intro left
  induction left with
  | zero =>
    intro cur s _ _
    exact .refl
  | succ left ih =>
    intro cur s h hcur
    unfold cancelAllFrom
    split
    · exact .refl
    rename_i hne
    obtain ⟨hmem, hnote⟩ := hcur hne
    have hone := cancelRemove_one a h hmem
    exact (cancelRemove_moves h hmem hnote).one.trans
      (ih hone.linked (ownerNext h hmem hnote hone))

theorem doExpire_moves (h : Linked s) : Moves (flat s) (flat (doExpire id s)) := by
  unfold doExpire
  dsimp only
  split
  · exact .refl
  rename_i hfound
  split
  · exact .refl
  have hid : id ∈ s.orders.keys := by
    by_contra hid
    rw [s.orders.absent id hid] at hfound
    exact hfound ⟨rfl, rfl⟩
  split
  · rename_i hb
    rw [flat_removeExpiredBid h hid]
    exact (Move.endBid (f := flat s) id .expired hid hb (by decide)).one
  · rename_i hb
    rw [flat_removeExpiredSell h hid]
    exact (Move.endOffer (f := flat s) id .expired 0 hid (Bool.eq_false_iff.mpr hb) (by decide)
      (.inl rfl)).one

theorem request_ends (ht : Trimmed s u) (hj : s.queueHead ∈ s.queue.keys)
    (hform : FormedEntry (s.queue.get s.queueHead))
    (hkind : (s.queue.get s.queueHead).entryType ≠ .place) (hmoves : Moves (flat s) (flat u)) :
    Moves (flat s) (flat (advanceHead u)) := by
  obtain ⟨hb, hrest⟩ := hform.idle hkind
  have hqueue : (flat u).queue = (flat s).queue := by
    unfold flat
    dsimp only
    rw [ht.queue]
  rw [flat_advanceHead, ht.queueHead]
  refine hmoves.step (Move.pop _ ?_ ?_ ?_)
  · rw [hqueue]
    exact hj
  · rw [hqueue]
    exact hb
  · rw [hqueue]
    exact hrest

theorem runHead_moves (hs : Sound s) (hsize : s.queueSize ≠ 0) (hf : Funded s) (hform : Formed s) :
    Moves (flat s) (flat (turned (runHead s))) := by
  have hj := hs.window.head_mem hsize
  have hentry := hform _ hj
  unfold runHead
  dsimp only
  cases hkind : (s.queue.get s.queueHead).entryType with
  | cancel =>
    exact request_ends (doCancel_trimmed hs.linked) hj hentry (by rw [hkind]; decide)
      (doCancel_moves hs.linked)
  | cancelAll =>
    have ht := doCancelAll_trimmed (s.queue.get s.queueHead).owner hs.linked
    have hmoves : Moves (flat s) (flat (doCancelAll (s.queue.get s.queueHead).owner s).1) :=
      cancelAllFrom_moves _ hs.linked fun hne => hs.linked.owners.first_mem hne
    unfold turned
    dsimp only
    split
    · exact hmoves
    · exact request_ends ht hj hentry (by rw [hkind]; decide) hmoves
  | expire =>
    exact request_ends (doExpire_trimmed hs.linked) hj hentry (by rw [hkind]; decide)
      (doExpire_moves hs.linked)
  | place => exact doPlaceHead_moves hs hsize hf hentry hkind
  | absent => exact absurd hkind hentry.known

theorem processHeadCore_moves (hs : Sound s) (hf : Funded s) (hform : Formed s) :
    Moves (flat s) (flat (processHeadCore s)) := by
  unfold processHeadCore
  split
  · exact .refl
  rename_i hsize
  have hmoves := runHead_moves hs hsize hf hform
  unfold turned at hmoves
  dsimp only
  generalize (if (runHead s).2 = true then (runHead s).1 else advanceHead (runHead s).1) = u
    at hmoves ⊢
  split
  · rw [flat_send]
    simpa [heard] using hmoves
  · exact hmoves

/-! ## Entries stay formed -/

/-- The run of the head leaves the queue, or keeps the head with something left. -/
def QueueKept (s : Book) (r : Book × Bool) : Prop :=
  r.1.queueHead = s.queueHead ∧ (r.1.queue = s.queue ∨
    r.2 = true ∧ ∃ id n l c, id ≠ 0 ∧ n ≠ 0 ∧ r.1.queue = s.queue.set s.queueHead
      { s.queue.get s.queueHead with
        contOrderId := id, contRemaining := n, contLeftover := l, contScanOrder := c })

theorem runPlace_queue {amount escrow resume : ℕ} (hl : Linked s) (hid : id ≠ 0)
    (he : s.queue.get s.queueHead = e) : QueueKept s (runPlace id amount escrow resume e s) := by
  have ht := matchTaker_trimmed (takerOf id e) amount escrow resume hl
  have hrule : ∀ c, (matchTaker (takerOf id e) amount escrow resume s).2 = some c →
      (matchTaker (takerOf id e) amount escrow resume s).1.remaining ≠ 0 :=
    (matchTaker_rule (I := fun p => Linked p.book) (fun _ h => h)
      (fun lp cur p _ h hat _ => (matchMaker_one _ lp h hat.1).linked) hl).2
  unfold runPlace
  generalize matchTaker _ _ _ _ _ = r at ht hrule ⊢
  obtain ⟨p, c⟩ := r
  cases c with
  | none =>
    obtain ⟨hq, hh⟩ := finalizeTaker_queue id p.remaining p.leftoverEscrow e p.book
    exact ⟨hh.trans ht.queueHead, .inl (hq.trans ht.queue)⟩
  | some c =>
    refine ⟨ht.queueHead, .inr ⟨rfl, id, p.remaining, p.leftoverEscrow, c, hid, hrule c rfl, ?_⟩⟩
    dsimp only
    rw [ht.queue, show p.book.queueHead = s.queueHead from ht.queueHead, he]

theorem doPlaceHead_queue (hs : Sound s) : QueueKept s (doPlaceHead s) := by
  have hquiet : ∀ {u}, Quiet s u → QueueKept s (u, false) := by
    intro u hq
    exact ⟨by rw [hq], .inl (by rw [hq])⟩
  unfold doPlaceHead
  dsimp only
  split
  · exact hquiet dropLapsed_quiet
  split
  · split
    · exact hquiet refusePlacement_quiet
    split
    · exact hquiet refusePlacement_quiet
    · exact runPlace_queue (numbered_sound hs).linked hs.next_ne rfl
  · rename_i hcont
    exact runPlace_queue hs.linked hcont rfl

theorem runHead_formed (hs : Sound s) (hsize : s.queueSize ≠ 0) (hform : Formed s) :
    Formed (turned (runHead s)) := by
  have hj := hs.window.head_mem hsize
  have hentry := hform _ hj
  have hsame : ∀ {u : Book}, u.queue = s.queue → Formed u := by
    intro u hq j hju
    rw [hq] at hju ⊢
    exact hform j hju
  have hdrop : ∀ {u : Book}, u.queue = s.queue → Formed (advanceHead u) := by
    intro u hq j hju
    have hmem : j ∈ u.queue.keys.erase u.queueHead := hju
    obtain ⟨hne, hin⟩ := Finset.mem_erase.mp hmem
    have hget : (advanceHead u).queue.get j = s.queue.get j := by
      rw [← hq]
      exact Mapping.get_delete_ne hne
    rw [hget]
    exact hform j (hq ▸ hin)
  -- only a placement is kept with something left
  have hkept : ∀ {r}, (s.queue.get s.queueHead).entryType = .place → QueueKept s r →
      Formed (turned r) := by
    rintro ⟨u, keep⟩ hkind ⟨-, hq | ⟨hkeep, id, n, l, c, hid, hn, hq⟩⟩
    · unfold turned
      split
      · exact hsame hq
      · exact hdrop hq
    · have hkeep : keep = true := hkeep
      subst hkeep
      intro j hju
      change j ∈ u.queue.keys at hju
      change FormedEntry (u.queue.get j)
      dsimp only at hq
      rw [hq] at hju ⊢
      by_cases hjh : j = s.queueHead
      · subst hjh
        rw [Mapping.get_set]
        refine ⟨hentry.known, fun _ => ?_, fun hne => absurd hkind hne⟩
        unfold rest
        simp only [hid, if_false]
        exact hn
      · rw [Mapping.get_set_ne hjh]
        exact hform j ((Finset.mem_insert.mp hju).resolve_left hjh)
  unfold runHead
  dsimp only
  cases hkind : (s.queue.get s.queueHead).entryType with
  | cancel => exact hdrop (doCancel_trimmed hs.linked).queue
  | cancelAll =>
    have hq := (doCancelAll_trimmed (s.queue.get s.queueHead).owner hs.linked).queue
    unfold turned
    dsimp only
    split
    · exact hsame hq
    · exact hdrop hq
  | expire => exact hdrop (doExpire_trimmed hs.linked).queue
  | place => exact hkept hkind (doPlaceHead_queue hs)
  | absent => exact absurd hkind hentry.known

theorem processHeadCore_formed (hs : Sound s) (hform : Formed s) : Formed (processHeadCore s) := by
  unfold processHeadCore
  split
  · exact hform
  rename_i hsize
  have hrun := runHead_formed hs hsize hform
  unfold turned at hrun
  dsimp only
  generalize (if (runHead s).2 = true then (runHead s).1 else advanceHead (runHead s).1) = u
    at hrun ⊢
  split
  · exact hrun
  · exact hrun

theorem enqueue_formed (hform : Formed s) (he : FormedEntry e) : Formed (enqueue e s) := by
  intro j hj
  by_cases hjt : j = s.queueTail
  · rw [hjt]
    have hget : (enqueue e s).queue.get s.queueTail = e := Mapping.get_set
    rw [hget]
    exact he
  · have hget : (enqueue e s).queue.get j = s.queue.get j := Mapping.get_set_ne hjt
    rw [hget]
    exact hform j ((Finset.mem_insert.mp hj).resolve_left hjt)

/-! ## Transactions -/

/-- What a call does before the head is run. -/
inductive Submit (env : Env) (m : Msg) (f : Flat) : Call → Flat → Prop where
  | refused {p n d k i o t} : m.sender = env.tokenContractAddress k i →
      Submit env m f (.placeSellOffer p n d k i o t) (f.post [.onSellClosed m.sender])
  | offer {p n d k i o t} (j : ℕ) : m.sender = env.tokenContractAddress k i → ¬ badOffer p n d t →
      j ∉ f.queue.keys → Submit env m f (.placeSellOffer p n d k i o t) (f.pledge j
        { kind := .place, owner := o, flags := d, price := p, amount := n, tokenContract := m.sender
          deadline := t, rest := n })
  | bid {c e p n d t k h} (j price : ℕ) : m.sender = env.noteAddress h → 2 ≤ n → 0 < e →
      j ∉ f.queue.keys → Submit env m f (.placeBuyOrder c e p n d t k h) (f.pledge j
        { kind := .place, owner := m.sender, buyerPubkey := k, isBuy := true, flags := d
          price := price, amount := n, deadline := t, clientOrderId := c, rest := n, held := e })
  | ignored {c} : (∃ id, c = .cancelOrder id) ∨ c = .cancelAllOrders ∨ c = .processHead →
      Submit env m f c f
  | request {c} (j : ℕ) (kind : EntryType) (owner : Address) :
      (∃ id, c = .cancelOrder id) ∨ c = .cancelAllOrders ∨ (∃ id, c = .expireOrder id) →
      j ∉ f.queue.keys → Submit env m f c (f.pledge j { kind := kind, owner := owner })
  | accepted : Submit env m f .onHandoverAccepted (f.record m.sender 0)
  | bounced {paid} : Submit env m f (.onBounce paid) ((f.record m.sender 0).post
      (if f.handoverBuyer m.sender ≠ 0 then credit (f.handoverBuyer m.sender) paid f.modelHash
        else []))

structure Regular (s : Book) : Prop where
  sound : Sound s
  funded : Funded s
  formed : Formed s

theorem flat_enqueue : flat (enqueue e s) = (flat s).pledge s.queueTail (pledgeOf e) := by
  unfold flat enqueue Flat.pledge
  dsimp only
  rw [Mapping.map_set]

theorem Regular.submit (h : Regular s) (hsize : s.queueSize < queueCapacity)
    (hcont : e.contOrderId = 0) (hcov : CoveredEntry e) (hform : FormedEntry e) :
    Regular (processHeadCore (enqueue e s)) ∧ s.queueTail ∉ (flat s).queue.keys ∧
      Moves ((flat s).pledge s.queueTail (pledgeOf e)) (flat (processHeadCore (enqueue e s))) := by
  have hs := enqueue_sound h.sound hsize hcont
  have hf := (enqueue_charged h.sound hsize h.funded hcov hcont).funded
  have hq := enqueue_formed h.formed hform
  have hmoves := processHeadCore_moves hs hf hq
  rw [flat_enqueue] at hmoves
  exact ⟨⟨processHeadCore_sound hs, (processHeadCore_balanced hs hf).funded,
    processHeadCore_formed hs hq⟩, h.sound.window.tail_notMem hsize, hmoves⟩

theorem formed_request {kind : EntryType} {target : ℕ} (hkind : kind ≠ .place)
    (hknown : kind ≠ .absent) :
    FormedEntry { entryType := kind, owner := a, targetOrderId := target } :=
  ⟨hknown, fun h => absurd h hkind, fun _ => ⟨rfl, rfl⟩⟩

/-- A call of a regular book is a submission and moves. -/
theorem dispatch_moves {c : Call} (h : Regular s) (hd : dispatch env m s c = .ok t) :
    Regular t ∧ ∃ g, Submit env m (flat s) c g ∧ Moves g (flat t) := by
  have hlimit : ∀ {n}, n < queuePlaceLimit → n < queueCapacity := fun hn =>
    hn.trans (by decide)
  have hquiet : ∀ {u}, Quiet s u → u.underflow = s.underflow → u.shortfall = s.shortfall →
      Regular u := by
    intro u hq h1 h2
    refine ⟨h.sound.quiet hq, ⟨⟨fun id hid => ?_, h1.trans h.funded.solvent.underflow,
      h2.trans h.funded.solvent.shortfall⟩, fun j => ?_⟩, fun j hj => ?_⟩
    · rw [hq.orders] at hid ⊢
      exact h.funded.solvent.orders id hid
    · rw [show u.queue = s.queue by rw [hq]]
      exact h.funded.entries j
    · rw [show u.queue = s.queue by rw [hq]] at hj ⊢
      exact h.formed j hj
  have hrequest : ∀ {kind target owner}, kind ≠ .place → kind ≠ .absent →
      s.queueSize < queueCapacity →
      ((∃ id, c = .cancelOrder id) ∨ c = .cancelAllOrders ∨ ∃ id, c = .expireOrder id) →
      Regular (processHeadCore (enqueue
        { entryType := kind, owner := owner, targetOrderId := target } s)) ∧
      ∃ g, Submit env m (flat s) c g ∧ Moves g (flat (processHeadCore (enqueue
        { entryType := kind, owner := owner, targetOrderId := target } s))) := by
    intro kind target owner hkind hknown hsize hc
    obtain ⟨h1, h2, h3⟩ := h.submit hsize (e :=
      { entryType := kind, owner := owner, targetOrderId := target }) rfl covered_plain
      (formed_request hkind hknown)
    exact ⟨h1, _, .request _ kind owner hc h2, h3⟩
  cases c with
  | placeSellOffer p n f k i o d =>
    simp only [dispatch, placeSellOffer, require_bind_ok] at hd
    obtain ⟨hsender, hd⟩ := hd
    split at hd
    · cases hd
      refine ⟨hquiet sendFor_quiet rfl rfl, _, .refused hsender, ?_⟩
      rw [flat_send]
      exact .refl
    · rename_i hgood
      obtain ⟨hbad, hsize⟩ := not_or.mp hgood
      cases hd
      have hticks : n ≠ 0 := fun hz => hbad (.inl (by omega))
      obtain ⟨h1, h2, h3⟩ := h.submit (hlimit (not_le.mp hsize)) rfl (offer_covered hbad)
        ⟨by simp, fun _ => hticks, fun hne => absurd rfl hne⟩
      exact ⟨h1, _, .offer _ hsender hbad h2, h3⟩
  | placeBuyOrder c e p n f d k i =>
    simp only [dispatch, placeBuyOrder, require_bind_ok] at hd
    obtain ⟨hsender, hticks, -, -, -, hwhole, -, -, -, hmarket, -, hpos, hcover, hsize, hd⟩ := hd
    cases hd
    have h' : Regular { s with bids := s.bids + 1 } := by
      have hs := h.sound
      exact ⟨⟨{ hs.linked with }, hs.window, hs.next_ne, hs.ids, hs.cont⟩,
        ⟨{ h.funded.solvent with }, h.funded.entries⟩, h.formed⟩
    obtain ⟨h1, h2, h3⟩ := h'.submit (hlimit hsize) rfl (bid_covered hwhole hmarket hcover)
      ⟨by simp, fun _ => by change n ≠ 0; omega, fun hne => absurd rfl hne⟩
    exact ⟨h1, _, .bid _ _ hsender hticks hpos h2, h3⟩
  | cancelOrder id =>
    cases hd
    unfold cancelOrder
    split
    · refine ⟨hquiet sendFor_quiet rfl rfl, _, .ignored (.inl ⟨id, rfl⟩), ?_⟩
      rw [flat_send]
      simp only [heard, Bool.false_eq_true, if_false, post_nil]
      exact .refl
    · rename_i hsize
      exact hrequest (by decide) (by decide) (not_le.mp hsize) (.inl ⟨id, rfl⟩)
  | cancelAllOrders =>
    cases hd
    unfold cancelAllOrders
    split
    · refine ⟨hquiet sendFor_quiet rfl rfl, _, .ignored (.inr (.inl rfl)), ?_⟩
      rw [flat_send]
      simp only [heard, Bool.false_eq_true, if_false, post_nil]
      exact .refl
    · rename_i hsize
      exact hrequest (by decide) (by decide) (not_le.mp hsize) (.inr (.inl rfl))
  | expireOrder id =>
    simp only [dispatch, expireOrder, require_bind_ok] at hd
    obtain ⟨hsize, hd⟩ := hd
    cases hd
    exact hrequest (by decide) (by decide) (hlimit hsize) (.inr (.inr ⟨id, rfl⟩))
  | processHead =>
    cases hd
    exact ⟨⟨processHeadCore_sound h.sound, (processHeadCore_balanced h.sound h.funded).funded,
      processHeadCore_formed h.sound h.formed⟩, _, .ignored (.inr (.inr rfl)),
      processHeadCore_moves h.sound h.funded h.formed⟩
  | onHandoverAccepted =>
    cases hd
    exact ⟨hquiet rfl rfl rfl, _, .accepted, .refl⟩
  | onBounce paid =>
    cases hd
    have hclear : Quiet s { s with
        handoverBuyer := Function.update s.handoverBuyer m.sender 0 } := rfl
    have hsubmit : Submit env m (flat s) (.onBounce paid) (((flat s).record m.sender 0).post
        (if s.handoverBuyer m.sender ≠ 0 then credit (s.handoverBuyer m.sender) paid s.modelHash
          else [])) := .bounced
    unfold onBounce
    dsimp only
    by_cases hb : s.handoverBuyer m.sender ≠ 0
    · rw [if_pos hb] at hsubmit ⊢
      refine ⟨hquiet (hclear.trans payShell_quiet) ?_ ?_, _, hsubmit, ?_⟩
      · unfold payShell
        split <;> rfl
      · unfold payShell
        split <;> rfl
      · rw [flat_payShell]
        exact .refl
    · rw [if_neg hb] at hsubmit ⊢
      refine ⟨hquiet hclear rfl rfl, _, hsubmit, ?_⟩
      rw [post_nil]
      exact .refl

theorem Regular.enter (h : Regular s) : Regular (InferenceOrderBookCalls.enter m s) := by
  have hs := h.sound
  exact ⟨⟨{ hs.linked with }, hs.window, hs.next_ne, hs.ids, hs.cont⟩,
    ⟨{ h.funded.solvent with }, h.funded.entries⟩, h.formed⟩

theorem exec_moves {tx : Tx} (h : Regular s) (he : exec env tx s = .ok t) :
    Regular t ∧ ∃ g, Submit env tx.msg (flat s) tx.call g ∧ Moves g (flat t) := by
  have henter : Regular (InferenceOrderBookCalls.enter tx.msg s) := h.enter
  obtain ⟨hreg, g, hsubmit, hmoves⟩ := dispatch_moves henter (exec_perform he).1
  exact ⟨hreg, g, hsubmit, hmoves⟩

theorem constructed_regular (h : Constructed env s) : Regular s := by
  refine ⟨constructed_sound h, (constructed_funded h).1, ?_⟩
  obtain ⟨hash, d, n, m, hc⟩ := h
  simp only [construct, require_bind_ok] at hc
  obtain ⟨-, -, -, hc⟩ := hc
  cases hc
  exact fun j hj => absurd hj (Finset.notMem_empty j)

/-! ## Runs -/

/-- Each call is one submission, and then the book moves by itself. -/
inductive FlatRun (env : Env) (f : Flat) : List Tx → Flat → Prop where
  | nil : FlatRun env f [] f
  | snoc {l tx g u k} : FlatRun env f l g → Submit env tx.msg g tx.call u → Moves u k →
      FlatRun env f (l ++ [tx]) k

/-- Every run of a book is a run of the flat book on the same calls. -/
theorem book_refines_flat (env : Env) (s₀ s : Book)
    (l : List (TransactionSystem.Record Book Tx)) (h0 : Constructed env s₀)
    (h : TransactionSystem.Run (exec env) (fun _ _ => True) s₀ l s) :
    FlatRun env (flat s₀) (l.map fun r => r.act) (flat s) := by
  have hrun : Regular s ∧ FlatRun env (flat s₀) (l.map fun r => r.act) (flat s) := by
    apply h.invariant (I := fun l s => Regular s ∧
      FlatRun env (flat s₀) (l.map fun r => r.act) (flat s))
    · exact ⟨constructed_regular h0, .nil⟩
    · intro l s tx t ih _ he
      obtain ⟨hreg, g, hsubmit, hmoves⟩ := exec_moves ih.1 he
      refine ⟨hreg, ?_⟩
      rw [List.map_append]
      exact .snoc ih.2 hsubmit hmoves
  exact hrun.2

theorem book_refines_flat_two : ∃ l s, s.orderCount = 2 ∧
    l = [sampleSell 1 2 5 0 20, sampleSell 2 2 4 0 30] ∧
    FlatRun sampleEnv (flat sampleBook) l (flat s) := by
  have hplay : (playedBook [sampleSell 1 2 5 0 20, sampleSell 2 2 4 0 30]).any
      (fun s => decide (s.orderCount = 2)) = true := rfl
  obtain ⟨s, hs, hq⟩ := (Option.any_eq_true _ _).mp hplay
  obtain ⟨l, hrun, hl⟩ := TransactionSystem.Run.play .nil hs
  exact ⟨_, s, of_decide_eq_true hq, hl,
    book_refines_flat sampleEnv _ _ _ sampleBook_constructed hrun⟩

end InferenceOrderBookMoves
