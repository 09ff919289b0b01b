import Dexdo.InferenceOrderBookStructure

/-! # The account of one accepted BUY

Every accepted BUY has a number. -/
namespace InferenceOrderBookAccounts

open TokenContractState hiding Out
open SolidityMapping InferenceOrderBookState InferenceOrderBookCalls
open InferenceOrderBookLists InferenceOrderBookMatching InferenceOrderBookStructure

variable {s u v : Book} {n t cur id : ℕ} {a : Address}

def debitOf : Out → ℕ
  | .fundFromOrderBook _ paid _ _ _ => paid
  | _ => 0

def refundOf (a : Address) : Out → ℕ
  | .creditFromBook note amount _ => if note = a then amount else 0
  | .onInferenceRejected note _ _ _ refunded => if note = a then refunded else 0
  | _ => 0

def debited (t : ℕ) (s : Book) : ℕ :=
  (s.out.map fun m => if m.tag = t then debitOf m.body else 0).sum

def refunded (t : ℕ) (a : Address) (s : Book) : ℕ :=
  (s.out.map fun m => if m.tag = t then refundOf a m.body else 0).sum

def resting (t : ℕ) (s : Book) : ℕ := s.orders.total fun o => if o.tag = t then o.escrow else 0

def held (e : QueueEntry) : ℕ := if e.contOrderId = 0 then e.escrow else e.contLeftover

def queued (t : ℕ) (s : Book) : ℕ := s.queue.total fun e => if e.tag = t then held e else 0

def account (t : ℕ) (a : Address) (s : Book) : ℕ := debited t s + refunded t a s + resting t s

/-! ## Messages -/

theorem account_sendFor {o : Out} : account t a (s.sendFor n o) =
    account t a s + if n = t then debitOf o + refundOf a o else 0 := by
  unfold account debited refunded resting Book.sendFor
  dsimp only
  simp only [List.map_append, List.sum_append, List.map_cons, List.map_nil, List.sum_cons,
    List.sum_nil]
  split <;> omega

theorem account_send {o : Out} (ht : t ≠ 0) : account t a (s.send o) = account t a s := by
  unfold Book.send
  rw [account_sendFor, if_neg (Ne.symm ht)]
  rfl

theorem account_freeDeal {tc : Address} (ht : t ≠ 0) :
    account t a (freeDeal tc s) = account t a s := by
  unfold freeDeal
  split
  · exact account_send ht
  · rfl

theorem account_payShell {amount : ℕ} {note : Address} (hmine : n = t → note = a) :
    account t a (payShell note amount n s) = account t a s + if n = t then amount else 0 := by
  unfold payShell
  split
  · rename_i h
    simp [h]
  · rw [account_sendFor]
    split
    · rename_i h
      simp [debitOf, refundOf, hmine h]
    · rfl

theorem payShell_books {amount : ℕ} {note : Address} : (payShell note amount n s).orders = s.orders ∧
    (payShell note amount n s).underflow = s.underflow ∧
    (payShell note amount n s).shortfall = s.shortfall := by
  unfold payShell
  split
  · exact ⟨rfl, rfl, rfl⟩
  · exact ⟨rfl, rfl, rfl⟩

theorem freeDeal_books {tc : Address} : (freeDeal tc s).orders = s.orders ∧
    (freeDeal tc s).underflow = s.underflow ∧ (freeDeal tc s).shortfall = s.shortfall := by
  unfold freeDeal
  split
  · exact ⟨rfl, rfl, rfl⟩
  · exact ⟨rfl, rfl, rfl⟩

/-! ## Orders -/

theorem resting_erase (hcur : cur ∈ s.orders.keys)
    (hk : u.orders.keys = s.orders.keys.erase cur)
    (h : ∀ j ∈ u.orders.keys, (u.orders.get j).toTerms = (s.orders.get j).toTerms) :
    resting t u + (if (s.orders.get cur).tag = t then (s.orders.get cur).escrow else 0) =
      resting t s :=
  Mapping.total_erase (f := fun o : Order => if o.tag = t then o.escrow else 0) hcur hk
    fun j hj => by rw [h j hj]

/-- The order `cur` left, its escrow went back to its note, and nothing else was charged. -/
structure Gone (cur : ℕ) (s u : Book) : Prop extends OneMaker cur s u where
  left : u.orders.keys = s.orders.keys.erase cur
  underflow : u.underflow = s.underflow
  shortfall : u.shortfall = s.shortfall
  kept : ∀ t a, t ≠ 0 → ((s.orders.get cur).tag = t → (s.orders.get cur).note = a) →
    account t a u = account t a s

theorem Gone.notMem (h : Gone cur s u) : cur ∉ u.orders.keys := by
  rw [h.left]
  exact Finset.notMem_erase cur _

theorem removeFromBook_account (cause : Removed) (r : ℕ) (h : Linked s)
    (hcur : cur ∈ s.orders.keys) (ht : t ≠ 0) :
    account t a (removeFromBook cur cause r s) +
      (if (s.orders.get cur).tag = t then (s.orders.get cur).escrow else 0) = account t a s := by
  have hrem := removeFromBook_removal cause r h hcur
  have hrest := resting_erase (t := t) hcur hrem.keys hrem.terms
  have hout : (removeFromBook cur cause r s).out =
      s.out ++ [⟨0, .onInferenceOrderRemoved (s.orders.get cur).note s.modelHash cur cause r⟩] := by
    rw [removeFromBook_eq (h.live cur hcur)]
  have hd : debited t (removeFromBook cur cause r s) = debited t s := by
    unfold debited
    rw [hout]
    simp [Ne.symm ht]
  have hr : refunded t a (removeFromBook cur cause r s) = refunded t a s := by
    unfold refunded
    rw [hout]
    simp [Ne.symm ht]
  unfold account
  rw [hd, hr]
  omega

theorem removeFromBook_flags (cause : Removed) (r : ℕ) (h : Linked s)
    (hcur : cur ∈ s.orders.keys) : (removeFromBook cur cause r s).underflow = s.underflow ∧
      (removeFromBook cur cause r s).shortfall = s.shortfall := by
  rw [removeFromBook_eq (h.live cur hcur)]
  exact ⟨rfl, rfl⟩

theorem Gone.of_paid (cause : Removed) (r : ℕ) (h : Linked s) (hcur : cur ∈ s.orders.keys)
    (hone : OneMaker cur s u) (hkeys : u.orders.keys = (removeFromBook cur cause r s).orders.keys)
    (hu : u.underflow = (removeFromBook cur cause r s).underflow)
    (hs : u.shortfall = (removeFromBook cur cause r s).shortfall)
    (hpaid : ∀ t a, t ≠ 0 → ((s.orders.get cur).tag = t → (s.orders.get cur).note = a) →
      account t a u =
        account t a (removeFromBook cur cause r s) +
        if (s.orders.get cur).tag = t then (s.orders.get cur).escrow else 0) : Gone cur s u := by
  have hrem := removeFromBook_removal cause r h hcur
  obtain ⟨hflag1, hflag2⟩ := removeFromBook_flags cause r h hcur
  refine ⟨hone, hkeys.trans hrem.keys, hu.trans hflag1, hs.trans hflag2, fun t a ht hmine => ?_⟩
  rw [hpaid t a ht hmine]
  exact removeFromBook_account cause r h hcur ht

theorem refundAndRemove_gone (cause : Removed) (h : Linked s) (hcur : cur ∈ s.orders.keys) :
    Gone cur s (refundAndRemove cur cause s) := by
  have hone := refundAndRemove_one cause h hcur
  unfold refundAndRemove at hone ⊢
  dsimp only at hone ⊢
  split at hone
  · rename_i hpos
    rw [if_pos hpos]
    refine .of_paid cause (s.orders.get cur).escrow h hcur hone ?_ ?_ ?_ ?_
    · exact congrArg Mapping.keys payShell_books.1
    · exact payShell_books.2.1
    · exact payShell_books.2.2
    · intro t a ht hmine
      rw [account_send ht, account_payShell hmine]
  · rename_i hpos
    rw [if_neg hpos]
    refine .of_paid cause (s.orders.get cur).escrow h hcur hone rfl rfl rfl ?_
    intro t a ht hmine
    have hzero : (s.orders.get cur).escrow = 0 := Nat.eq_zero_of_not_pos hpos
    simp [hzero]

theorem Gone.send {o : Out} (h : Gone cur s u) : Gone cur s (u.send o) := by
  refine ⟨h.toOneMaker.quiet sendFor_quiet, h.left, h.underflow, h.shortfall,
    fun t a ht hmine => ?_⟩
  rw [account_send ht]
  exact h.kept t a ht hmine

theorem removeExpiredBid_gone (h : Linked s) (hcur : cur ∈ s.orders.keys) :
    Gone cur s (removeExpiredBid cur s) :=
  (refundAndRemove_gone .expired h hcur).send

theorem removeExpiredSell_gone (h : Linked s) (hcur : cur ∈ s.orders.keys)
    (htag : (s.orders.get cur).tag = 0) : Gone cur s (removeExpiredSell cur s) := by
  have hone := removeExpiredSell_one h hcur
  have hfree : Quiet (removeFromBook cur .expired 0 s) (freeDeal (s.orders.get cur).tokenContract
    (removeFromBook cur .expired 0 s)) := freeDeal_quiet
  refine .of_paid .expired 0 h hcur hone ?_ ?_ ?_ ?_
  · exact congrArg Mapping.keys hfree.orders
  · exact freeDeal_books.2.1
  · exact freeDeal_books.2.2
  · intro t a ht hmine
    unfold removeExpiredSell
    dsimp only
    rw [account_send ht, account_freeDeal ht, htag, if_neg (Ne.symm ht)]
    rfl

theorem cancelRemove_books {owner : Address} :
    (cancelRemove owner cur s).orders =
      (removeFromBook cur .cancelled (s.orders.get cur).escrow s).orders ∧
    (cancelRemove owner cur s).underflow =
      (removeFromBook cur .cancelled (s.orders.get cur).escrow s).underflow ∧
    (cancelRemove owner cur s).shortfall =
      (removeFromBook cur .cancelled (s.orders.get cur).escrow s).shortfall := by
  unfold cancelRemove
  dsimp only
  generalize removeFromBook cur .cancelled (s.orders.get cur).escrow s = w
  split
  · exact payShell_books
  · exact ⟨freeDeal_books.1.trans payShell_books.1, freeDeal_books.2.1.trans payShell_books.2.1,
      freeDeal_books.2.2.trans payShell_books.2.2⟩

theorem cancelRemove_gone {owner : Address} (h : Linked s) (hcur : cur ∈ s.orders.keys)
    (hown : (s.orders.get cur).note = owner) : Gone cur s (cancelRemove owner cur s) := by
  have hone := cancelRemove_one owner h hcur
  refine .of_paid .cancelled (s.orders.get cur).escrow h hcur hone
    (congrArg Mapping.keys cancelRemove_books.1) cancelRemove_books.2.1 cancelRemove_books.2.2 ?_
  · intro t a ht hmine
    unfold cancelRemove
    dsimp only
    rw [← hown]
    split
    · rw [account_payShell hmine, account_send ht]
    · rw [account_freeDeal ht, account_payShell hmine, account_send ht]

theorem editOrder_account {f : Order → Order} (hcur : cur ∈ s.orders.keys)
    (hf : ∀ o, (f o).tag = o.tag) : account t a (s.editOrder cur f) +
      (if (s.orders.get cur).tag = t then (s.orders.get cur).escrow else 0) =
    account t a s + if (s.orders.get cur).tag = t then (f (s.orders.get cur)).escrow else 0 := by
  have hrest := Mapping.total_set (v := f (s.orders.get cur))
    (f := fun o : Order => if o.tag = t then o.escrow else 0) hcur
  rw [hf] at hrest
  change resting t (s.editOrder cur f) + _ = resting t s + _ at hrest
  unfold account
  have hd : debited t (s.editOrder cur f) = debited t s := rfl
  have hr : refunded t a (s.editOrder cur f) = refunded t a s := rfl
  rw [hd, hr]
  omega

theorem insertIntoBook_account {o : Order} (h : Linked s) (hid : id ≠ 0)
    (hmax : ∀ j ∈ s.orders.keys, j < id) (hamount : o.amount ≠ 0) (ht : t ≠ 0) :
    account t a (insertIntoBook id o s) = account t a s + if o.tag = t then o.escrow else 0 := by
  have hin := insertIntoBook_insertion (o := o) h hid hmax hamount
  have hnew : id ∉ s.orders.keys := fun hm => (hmax id hm).ne rfl
  have hrest : resting t (insertIntoBook id o s) =
      resting t s + if o.tag = t then o.escrow else 0 := by
    have htotal := Mapping.total_insert (f := fun o : Order => if o.tag = t then o.escrow else 0)
      hnew hin.keys (fun j hj => by rw [hin.terms j hj])
    rw [hin.added] at htotal
    exact htotal
  have hout : (insertIntoBook id o s).out = s.out ++ [⟨0, .onInferencePlaced o.note s.modelHash
      o.tokenContract id o.clientOrderId o.isBuy o.price o.amount⟩] := by
    rw [insertIntoBook_eq]
  have hd : debited t (insertIntoBook id o s) = debited t s := by
    unfold debited
    rw [hout]
    simp [Ne.symm ht]
  have hr : refunded t a (insertIntoBook id o s) = refunded t a s := by
    unfold refunded
    rw [hout]
    simp [Ne.symm ht]
  unfold account
  rw [hd, hr, hrest]
  omega

theorem paid_account {cost : ℕ} {beyond : Bool} (h : Paid n cost beyond s u) (ht : t ≠ 0) :
    account t a u = account t a s + if n = t then cost else 0 := by
  obtain ⟨deal, note, pk, f, l, hout, hl⟩ := h.out
  have hzero : ∀ g : InferenceOrderBookState.Sent → ℕ, (l.map fun m => if m.tag = t then g m else 0).sum = 0 := by
    intro g
    refine List.sum_eq_zero fun x hx => ?_
    obtain ⟨m, hm, rfl⟩ := List.mem_map.mp hx
    rw [if_neg (by rw [hl m hm]; exact Ne.symm ht)]
  have hrest : resting t u = resting t s := by
    unfold resting
    rw [h.quiet.orders]
  unfold account debited refunded
  rw [hout, hrest]
  simp only [List.map_append, List.map_cons, List.sum_append, List.sum_cons]
  rw [hzero (fun m => debitOf m.body), hzero (fun m => refundOf a m.body)]
  simp only [debitOf, refundOf]
  split <;> omega

end InferenceOrderBookAccounts
