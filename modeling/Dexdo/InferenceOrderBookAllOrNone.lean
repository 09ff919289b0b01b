import Dexdo.InferenceOrderBookRecord
import Dexdo.InferenceOrderBookPlacements

/-! # All or none

The record of placements, fills and fundings is kept by every transaction, whichever of taker,
continued head or resting maker an order is at the time. -/
namespace InferenceOrderBookAllOrNone

open TokenContractState hiding Out Err Sent
open SolidityMapping InferenceOrderBookState InferenceOrderBookCalls InferenceOrderBookStructure
open InferenceOrderBookLists InferenceOrderBookMatching InferenceOrderBookEscrow
open InferenceOrderBookContinuation InferenceOrderBookAtomic InferenceOrderBookPlacements
open InferenceOrderBookFills InferenceOrderBookRecord

variable {env : Env} {s t u : Book} {p : Progress} {e : QueueEntry} {tx : Tx} {id : ℕ}

/-- The record of a book between transactions: queue entries are lawful, and a continued one
stands for its placement. -/
structure Audited (s : Book) : Prop where
  record : Record s
  entries : ∀ j, Lawful (s.queue.get j).isBuy (s.queue.get j).flags (s.queue.get j).amount
  head : ∀ j, (s.queue.get j).contOrderId ≠ 0 → ∃ q, Stands s (s.queue.get j).contOrderId
    (s.queue.get j).isBuy (s.queue.get j).flags (s.queue.get j).contRemaining q

theorem lawful_plain {b : Bool} {n : ℕ} : Lawful b 0 n := by
  have hnone : 0 &&& flagSubscription = 0 := Nat.zero_and _
  exact ⟨fun h => absurd hnone h, fun _ h => absurd hnone h⟩

theorem Audited.step (h : Audited s) (ht : Thinned s t)
    (hq : ∀ j, t.queue.get j = s.queue.get j ∨ (t.queue.get j).contOrderId = 0 ∧
      Lawful (t.queue.get j).isBuy (t.queue.get j).flags (t.queue.get j).amount) : Audited t := by
  refine ⟨h.record.thinned ht, fun j => ?_, fun j hj => ?_⟩
  · rcases hq j with heq | ⟨-, hlaw⟩
    · rw [heq]
      exact h.entries j
    · exact hlaw
  · rcases hq j with heq | ⟨hzero, -⟩
    · rw [heq] at hj ⊢
      obtain ⟨q, hs⟩ := h.head j hj
      exact ⟨q, hs.thinned ht⟩
    · exact absurd hzero hj

theorem advanceHead_thinned (h : Linked s) : Thinned s (advanceHead s) :=
  ⟨{ h with }, fun _ hi => ⟨hi, rfl⟩, rfl, (Silent.refl s).write rfl⟩

theorem advanceHead_get (j : ℕ) : (advanceHead s).queue.get j = s.queue.get j ∨
    (advanceHead s).queue.get j = default := by
  by_cases hj : j = s.queueHead
  · subst hj
    exact .inr (Function.update_self ..)
  · exact .inl (Mapping.get_delete_ne hj)

theorem Audited.advance (h : Audited s) (hl : Linked s) : Audited (advanceHead s) := by
  refine h.step (advanceHead_thinned hl) fun j => (advanceHead_get j).imp_right fun hnone => ?_
  rw [hnone]
  exact ⟨rfl, lawful_plain⟩

/-! ## Placements -/

/-- A number is given out: the record grows by a placement with no fill. -/
theorem announce_record (h : Record u)
    (hlaw : Lawful e.isBuy e.flags e.amount) : Record (announced u e) ∧
    ∃ q, Stands (announced u e) u.nextOrderId e.isBuy e.flags e.amount q := by
  have hp : placements (announced u e) =
      placements u ++ [⟨u.nextOrderId, e.isBuy, e.price, e.amount, e.flags⟩] := by
    simp [placements, announced, Book.send, Book.sendFor, Book.check, placementOf]
  have hf : fills (announced u e) = fills u := by
    simp [fills, announced, Book.send, Book.sendFor, Book.check, fillOf]
  have hg : fundings (announced u e) = fundings u := by
    simp [fundings, announced, Book.send, Book.sendFor, Book.check, fundingOf]
  have hnew : fillsOf u.nextOrderId (announced u e) = [] := by
    unfold fillsOf
    rw [hf]
    exact h.unfilled le_rfl
  have hsub : placements u ⊆ placements (announced u e) := by
    rw [hp]
    exact List.subset_append_left _ _
  have hsame : ∀ i, fillsOf i (announced u e) = fillsOf i u := by
    intro i
    unfold fillsOf
    rw [hf]
  have hnext : (announced u e).nextOrderId = u.nextOrderId + 1 := rfl
  have hold : ∀ x ∈ placements (announced u e), x ∈ placements u ∨
      x = ⟨u.nextOrderId, e.isBuy, e.price, e.amount, e.flags⟩ := by
    intro x hx
    rw [hp] at hx
    exact (List.mem_append.mp hx).imp_right List.mem_singleton.mp
  refine ⟨⟨?_, fun x hx => ?_, fun x hx => ?_, fun i hi => ?_, fun x hx haon => ?_, ?_⟩,
    ⟨u.nextOrderId, e.isBuy, e.price, e.amount, e.flags⟩, ?_, rfl, rfl, rfl,
    fun _ => .inr ⟨rfl, hnew⟩⟩
  · rw [hp, List.pairwise_append]
    refine ⟨h.numbered, List.pairwise_singleton _ _, fun x hx y hy => ?_⟩
    rw [List.mem_singleton.mp hy]
    exact h.older x hx
  · rw [hnext]
    rcases hold x hx with hx | rfl
    · exact (h.older x hx).trans (Nat.lt_succ_self _)
    · exact Nat.lt_succ_self _
  · rcases hold x hx with hx | rfl
    · exact h.lawful x hx
    · exact hlaw
  · obtain ⟨q, hq⟩ := h.resting i hi
    exact ⟨q, hq.placed_in hsub (hsame i)⟩
  · rcases hold x hx with hx | rfl
    · unfold OnceWhole
      rw [hsame]
      exact h.whole x hx haon
    · exact .inl hnew
  · rw [hf, hg]
    refine h.joined.imp fun g f hj => ?_
    obtain ⟨m, q, hj⟩ := hj
    exact ⟨m, q, hj.placed hsub⟩
  · rw [hp]
    exact List.mem_append_right _ (List.mem_singleton_self _)

theorem insert_record {o : Order} {q : Placement} (h : Record s) (hin : Insertion id o s t)
    (hs : Silent s t) (hq : Stands s id o.isBuy o.flags o.amount q) : Record t := by
  have hnext : t.nextOrderId = s.nextOrderId := by rw [hin.frame]
  refine h.same hs.placements hs.fundings hs.fills hnext fun i hi => ?_
  rw [hin.keys] at hi
  rcases Finset.mem_insert.mp hi with rfl | hi
  · rw [congrArg Terms.isBuy hin.added, congrArg Terms.flags hin.added,
      congrArg Terms.amount hin.added]
    exact ⟨q, hq⟩
  · have hterms := hin.terms i hi
    rw [congrArg Terms.isBuy hterms, congrArg Terms.flags hterms, congrArg Terms.amount hterms]
    exact h.resting i hi

theorem finalizeTaker_record {leftover : ℕ} (h : Taking (takerOf id e) p) (hl : Linked p.book)
    (hid : id ≠ 0) (hold : ∀ j ∈ p.book.orders.keys, j < id) :
    Record (finalizeTaker id e p.remaining leftover p.book) := by
  obtain ⟨q, hq⟩ := h.stands
  have hinsert : ∀ (o : Order) (c : Prop) [Decidable c], o.isBuy = e.isBuy → o.flags = e.flags →
      o.amount = p.remaining → p.remaining ≠ 0 →
      Record (insertIntoBook id o (p.book.check c)) := by
    intro o c _ hside hflags hamount hrest
    have hquiet : Quiet p.book (p.book.check c) := check_quiet
    have hcheck : Record (p.book.check c) :=
      h.record.thinned ((Thinned.refl hl).quiet hquiet ((Silent.refl _).write rfl))
    have hin := insertIntoBook_insertion (o := o) (hquiet.linked hl) hid hold
      (by rw [hamount]; exact hrest)
    refine insert_record (q := q) hcheck hin (Silent.refl _).insertIntoBook ?_
    rw [hside, hflags, hamount]
    exact hq.same rfl rfl
  have hsent : ∀ (o o' : InferenceOrderBookState.Out) (tag : ℕ), Aside o → Aside o' →
      Record ((p.book.send o).sendFor tag o') := fun o o' tag ho ho' =>
    h.record.thinned (((Thinned.refl hl).send ho).sendFor tag ho')
  unfold finalizeTaker rejectToNote
  dsimp only
  split
  · rename_i hb
    split
    · exact hsent _ _ _ ⟨rfl, rfl, rfl⟩ ⟨rfl, rfl, rfl⟩
    · exact hinsert _ _ hb.symm rfl rfl (by omega)
  · rename_i hb
    split
    · exact hinsert _ _ ((Bool.not_eq_true _).mp hb).symm rfl rfl (by omega)
    split
    · exact hsent _ _ 0 ⟨rfl, rfl, rfl⟩ ⟨rfl, rfl, rfl⟩
    · exact h.record

def Recorded (r : Book × Bool) : Prop := Audited (if r.2 then r.1 else advanceHead r.1)

theorem runPlace_recorded {amount budget : ℕ} (resume : ℕ) (hs : Sound s) (hf : Solvent s)
    (he : CoveredEntry e) (hlaw : ∀ j, Lawful (s.queue.get j).isBuy (s.queue.get j).flags
      (s.queue.get j).amount) (hmine : Lawful e.isBuy e.flags e.amount)
    (hcov : e.isBuy = true → e.flags &&& flagMarket = 0 → fillDebit amount e.price e.flags ≤ budget)
    (hid : id ≠ 0) (hold : ∀ j ∈ s.orders.keys, j < id) (hnew : id < s.nextOrderId)
    (h : Taking (takerOf id e) { book := s, remaining := amount, leftoverEscrow := budget }) :
    Recorded (runPlace id amount budget resume e s) := by
  have hcover : (takerOf id e).isBuy = true → (takerOf id e).isMarket = false →
      fillDebit amount (takerOf id e).price (takerOf id e).flags ≤ budget := fun hb hm =>
    hcov hb (by simpa [takerOf] using hm)
  have ht := matchTaker_taking amount budget resume hs.linked hf (ready_takerOf he) hcover h
  have htrim := matchTaker_trimmed (takerOf id e) amount budget resume hs.linked
  unfold runPlace Recorded
  generalize matchTaker _ _ _ _ _ = r at ht htrim ⊢
  obtain ⟨p, c⟩ := r
  dsimp only at ht htrim
  have holder : ∀ j ∈ p.book.orders.keys, j < id := fun j hj => hold j (htrim.keys hj)
  cases c with
  | none =>
    have hrec : Record (finalizeTaker id e p.remaining p.leftoverEscrow p.book) :=
      finalizeTaker_record ht htrim.linked hid holder
    have hserved : Served s (finalizeTaker id e p.remaining p.leftoverEscrow p.book) :=
      finalizeTaker_served hs htrim hid hold hnew
    dsimp only
    generalize finalizeTaker id e p.remaining p.leftoverEscrow p.book = v at hrec hserved ⊢
    rw [if_neg Bool.false_ne_true]
    refine ⟨hrec.thinned (advanceHead_thinned hserved.linked), fun j => ?_, fun j hj => ?_⟩
    · rcases advanceHead_get (s := v) j with hget | hget
      · rw [hget, hserved.queue]
        exact hlaw j
      · rw [hget]
        exact lawful_plain
    · -- only the head can be a continued placement, and the head is gone
      exfalso
      rcases advanceHead_get (s := v) j with hget | hget
      · rw [hget, hserved.queue] at hj
        have hhead := (hs.cont j hj).1
        have hgone : (advanceHead v).queue.get j = default := by
          rw [hhead, ← hserved.queueHead]
          exact Function.update_self ..
        rw [hserved.queue, hgone] at hget
        rw [← hget] at hj
        exact hj rfl
      · rw [hget] at hj
        exact hj rfl
  | some cur =>
    obtain ⟨q, hq⟩ := ht.stands
    dsimp only
    rw [if_pos rfl]
    refine ⟨ht.record.same rfl rfl rfl rfl ht.record.resting, fun j => ?_, fun j hj => ?_⟩
    · by_cases hj : j = p.book.queueHead
      · subst hj
        rw [Mapping.get_set]
        exact hmine
      · rw [Mapping.get_set_ne hj, htrim.queue]
        exact hlaw j
    · by_cases hjh : j = p.book.queueHead
      · subst hjh
        rw [Mapping.get_set]
        exact ⟨q, hq.same rfl rfl⟩
      · rw [Mapping.get_set_ne hjh, htrim.queue] at hj
        rw [htrim.queueHead] at hjh
        exact absurd (hs.cont j hj).1 hjh

theorem doPlaceHead_recorded (hs : Sound s) (hf : Funded s) (h : Audited s) :
    Recorded (doPlaceHead s) := by
  have hentry := hf.entries s.queueHead
  have hlaw := h.entries s.queueHead
  have hthin : ∀ {v : Book}, Thinned s v → Quiet s v → Recorded (v, false) := fun hv hq =>
    (h.step hv fun j => .inl (by rw [hq])).advance hv.linked
  unfold doPlaceHead
  generalize he : s.queue.get s.queueHead = e at hentry hlaw
  dsimp only
  split
  · exact hthin (Thinned.dropLapsed hs.linked) dropLapsed_quiet
  split
  · rename_i hfirst
    split
    · exact hthin (Thinned.refusePlacement hs.linked) refusePlacement_quiet
    split
    · exact hthin (Thinned.refusePlacement hs.linked) refusePlacement_quiet
    · obtain ⟨hrec, hq⟩ := announce_record h.record hlaw
      have hsound : Sound (announced s e) := numbered_sound hs
      exact runPlace_recorded (s := announced s e) 0 hsound { hf.solvent with } hentry h.entries
        hlaw (fun hb hm => hentry.first hb hm hfirst) hs.next_ne hs.ids (Nat.lt_succ_self _)
        ⟨hrec, fun hmem => absurd (hs.ids _ hmem) (lt_irrefl _), hq⟩
  · rename_i hcont
    subst he
    obtain ⟨-, hlt, hold⟩ := hs.cont _ hcont
    exact runPlace_recorded _ hs hf.solvent hentry h.entries hlaw
      (fun hb hm => hentry.again hb hm hcont) hcont hold hlt
      ⟨h.record, fun hmem => absurd (hold _ hmem) (lt_irrefl _), h.head _ hcont⟩

theorem runHead_recorded (hs : Sound s) (hf : Funded s) (h : Audited s) :
    Recorded (runHead s) := by
  have hdone : ∀ {v : Book} (b : Bool), Thinned s v → Trimmed s v → Recorded (v, b) := by
    intro v b hv ht
    have hkept : Audited v := h.step hv fun j => .inl (by rw [ht.queue])
    cases b with
    | true => exact hkept
    | false => exact hkept.advance hv.linked
  unfold runHead
  dsimp only
  split
  · exact hdone _ (Thinned.doCancel _ _ hs.linked) (doCancel_trimmed hs.linked)
  · exact hdone _ (Thinned.cancelAllFrom _ _ hs.linked fun hne => hs.linked.owners.first_mem hne)
      (doCancelAll_trimmed _ hs.linked)
  · exact hdone _ (Thinned.doExpire _ hs.linked) (doExpire_trimmed hs.linked)
  · exact doPlaceHead_recorded hs hf h
  · exact doPlaceHead_recorded hs hf h

theorem processHeadCore_audited (hs : Sound s) (hf : Funded s) (h : Audited s) :
    Audited (processHeadCore s) := by
  by_cases hsize : s.queueSize = 0
  · unfold processHeadCore
    rw [if_pos hsize]
    exact h
  have hrun := runHead_recorded hs hf h
  have hkept := runHead_kept hs hsize
  rw [processHeadCore_run hsize rfl]
  unfold Recorded at hrun
  unfold Kept at hkept
  dsimp only
  generalize (if (runHead s).2 = true then (runHead s).1 else advanceHead (runHead s).1) = v
    at hrun hkept ⊢
  split
  · exact hrun.step ((Thinned.refl hkept.linked).send ⟨rfl, rfl, rfl⟩) fun _ => .inl rfl
  · exact hrun

/-! ## Transactions -/

theorem enqueue_get (j : ℕ) :
    (enqueue e s).queue.get j = s.queue.get j ∨ (enqueue e s).queue.get j = e := by
  by_cases hj : j = s.queueTail
  · subst hj
    exact .inr Mapping.get_set
  · exact .inl (Mapping.get_set_ne hj)

/-- The head finds an audited book. -/
theorem Turn.audited (h : Audited s) (hl : Linked s) (hw : Waits PlacedEntry s)
    (hu : Turn env s tx u) : Audited u := by
  have hplaced := Turn.placed hw hu
  have hin : ∀ (m : Msg) (bids : ℕ), Audited { enter m s with bids := bids } := fun m bids =>
    h.step ⟨{ hl with }, fun _ hi => ⟨hi, rfl⟩, rfl, (Silent.refl s).write rfl⟩ fun _ => .inl rfl
  have hsubmit : ∀ (m : Msg) (bids : ℕ) (e : QueueEntry), e.contOrderId = 0 →
      Lawful e.isBuy e.flags e.amount →
      Audited (enqueue e { enter m s with bids := bids }) := by
    intro m bids e hcont hlaw
    refine (hin m bids).step ⟨{ hl with }, fun _ hi => ⟨hi, rfl⟩, rfl,
      (Silent.refl _).write rfl⟩ fun j => (enqueue_get j).imp_right fun hget => ?_
    rw [hget]
    exact ⟨hcont, hlaw⟩
  have hlaw : ∀ {b : Book} {e : QueueEntry}, Waits PlacedEntry (enqueue e b) →
      e.entryType = .place → Lawful e.isBuy e.flags e.amount := by
    intro b e hwaits hkind
    have hget : (enqueue e b).queue.get b.queueTail = e := Mapping.get_set
    have hentry := hwaits b.queueTail (by rw [hget]; exact hkind)
    rw [hget] at hentry
    exact ⟨hentry.whole, hentry.weeks⟩
  cases hu with
  | head m => exact hin m s.bids
  | offer m p n f k i o d _ _ _ => exact hsubmit m s.bids _ rfl (hlaw hplaced rfl)
  | bid m c e p n f d k i t _ => exact hsubmit m (s.bids + 1) _ rfl (hlaw hplaced rfl)
  | cancel m id _ => exact hsubmit m s.bids _ rfl lawful_plain
  | cancelAll m _ => exact hsubmit m s.bids _ rfl lawful_plain
  | expire m id _ => exact hsubmit m s.bids _ rfl lawful_plain

/-- A call that hands nothing to the head announces no placement and no fill. -/
theorem perform_silent (h : perform env tx s = .ok t) :
    (∃ u, Turn env s tx u) ∨ Silent (enter tx.msg s) t := by
  obtain ⟨m, c⟩ := tx
  have hsent : ∀ o : InferenceOrderBookState.Out, Aside o →
      Silent (enter m s) ((enter m s).send o) := fun o ho => (Silent.refl _).sendFor 0 ho
  unfold perform at h
  cases c with
  | placeSellOffer p n f k i o d =>
    simp only [dispatch, placeSellOffer, require_bind_ok] at h
    obtain ⟨hsender, h⟩ := h
    by_cases hbad : badOffer p n f d ∨ (enter m s).queueSize ≥ queuePlaceLimit
    · rw [if_pos hbad] at h
      cases h
      exact .inr (hsent _ ⟨rfl, rfl, rfl⟩)
    · obtain ⟨hgood, hsize⟩ := not_or.mp hbad
      exact .inl ⟨_, .offer m p n f k i o d hsender hgood (Nat.not_le.mp hsize)⟩
  | placeBuyOrder c e p n f d k i => exact .inl ⟨_, .bid m c e p n f d k i t h⟩
  | cancelOrder id =>
    by_cases hfull : (enter m s).queueSize ≥ queueCapacity
    · cases h
      unfold cancelOrder
      rw [if_pos hfull]
      exact .inr (hsent _ ⟨rfl, rfl, rfl⟩)
    · exact .inl ⟨_, .cancel m id (Nat.not_le.mp hfull)⟩
  | cancelAllOrders =>
    by_cases hfull : (enter m s).queueSize ≥ queueCapacity
    · cases h
      unfold cancelAllOrders
      rw [if_pos hfull]
      exact .inr (hsent _ ⟨rfl, rfl, rfl⟩)
    · exact .inl ⟨_, .cancelAll m (Nat.not_le.mp hfull)⟩
  | expireOrder id =>
    simp only [dispatch, expireOrder, require_bind_ok] at h
    exact .inl ⟨_, .expire m id h.1⟩
  | processHead => exact .inl ⟨_, .head m⟩
  | onHandoverAccepted =>
    cases h
    exact .inr ((Silent.refl _).write rfl)
  | onBounce paid =>
    cases h
    have hdone : Silent (enter m s) { enter m s with
        handoverBuyer := Function.update s.handoverBuyer m.sender 0 } := (Silent.refl _).write rfl
    unfold onBounce
    dsimp only
    split
    · exact .inr hdone.payShell
    · exact .inr hdone

theorem constructed_audited (h : Constructed env s) : Audited s := by
  obtain ⟨hash, d, n, m, hc⟩ := h
  simp only [construct, require_bind_ok] at hc
  obtain ⟨-, -, -, hc⟩ := hc
  cases hc
  exact ⟨⟨.nil, by intros; contradiction, by intros; contradiction,
    fun id hid => absurd hid (Finset.notMem_empty id), by intros; contradiction, .nil⟩,
    fun _ => lawful_plain, fun j hj => absurd rfl hj⟩

theorem exec_audited (hs : Reachable env s) (h : Audited s) (he : exec env tx s = .ok t) :
    Audited t := by
  have hsound := reachable_sound hs
  obtain ⟨hp, -⟩ := exec_perform he
  have hrun : ∀ {u}, Turn env s tx u → Audited t := by
    intro u hu
    obtain ⟨hsu, hfu⟩ := hu.kept hsound (reachable_funded hs)
    rw [hu.performs] at hp
    cases hp
    exact processHeadCore_audited hsu hfu
      (Turn.audited h hsound.linked (reachable_placed hs) hu)
  rcases perform_turn hp with ⟨u, hu⟩ | hquiet
  · exact hrun hu
  rcases perform_silent hp with ⟨u, hu⟩ | hsilent
  · exact hrun hu
  have hin : Thinned s (enter tx.msg s) :=
    ⟨{ hsound.linked with }, fun _ hi => ⟨hi, rfl⟩, rfl, (Silent.refl s).write rfl⟩
  refine h.step (hin.quiet hquiet hsilent) fun j => .inl ?_
  rw [hquiet]
  rfl

theorem reachable_audited (h : Reachable env s) : Audited s := by
  induction h with
  | start h0 => exact constructed_audited h0
  | step hs _ he ih => exact exec_audited hs ih he

/-! ## Orders filled whole -/

/-- A subscription deal: all the ticks of both orders, whole weeks of them, and twice the clearing
price on top. -/
structure WholeDeal (g : Funding) (f : Fill) (maker taker : Placement) : Prop where
  maker_ticks : f.ticks = maker.ticks
  taker_ticks : f.ticks = taker.ticks
  weeks : f.ticks % subWeeksConst = 0
  paid : g.paid = f.ticks * unit f.clearing + 2 * f.clearing

/-- What the record of a book shows of its orders: numbers name one placement each, a subscription
is all or none, an all-or-none order is filled once and whole, and every funding belongs to the
fill of two orders that suit each other. -/
structure AllOrNone (s : Book) : Prop where
  numbered : (placements s).Pairwise fun a b => a.id < b.id
  subscriptions : ∀ p ∈ placements s, p.flags &&& flagSubscription ≠ 0 → p.flags &&& flagAon ≠ 0
  once : ∀ p ∈ placements s, p.flags &&& flagAon ≠ 0 → OnceWhole s p
  deals : List.Forall₂ (fun g f => ∃ m q, Joined s g f m q ∧
    (g.flags &&& flagSubscription ≠ 0 → WholeDeal g f m q)) (fundings s) (fills s)

theorem compatible_subscription {b : Bool} {f f' : ℕ} (h : dealCompatible b f f' = true) :
    f &&& flagSubscription = f' &&& flagSubscription := by
  have hbits : ∀ x y : ℕ, (if x &&& flagTee ≠ 0 ∧ y &&& flagTee = 0 then false
      else x &&& flagSubscription == y &&& flagSubscription) = true →
      x &&& flagSubscription = y &&& flagSubscription := by
    intro x y hxy
    split at hxy
    · cases hxy
    · exact eq_of_beq hxy
  cases b with
  | true => exact hbits f f' h
  | false => exact (hbits f' f h).symm

theorem onceWhole_ticks {q : Placement} {f : Fill} (h : OnceWhole s q) (hf : f ∈ fills s)
    (hid : f.maker = q.id ∨ f.taker = q.id) : f.ticks = q.ticks := by
  have hmem : f ∈ fillsOf q.id s := List.mem_filter.mpr ⟨hf, decide_eq_true hid⟩
  rcases h with hnone | ⟨f', hone, hticks⟩
  · rw [hnone] at hmem
    exact absurd hmem List.not_mem_nil
  · rw [hone, List.mem_singleton] at hmem
    rw [hmem]
    exact hticks

theorem record_wholeDeal (h : Record s) {g : Funding} {f : Fill} {m q : Placement}
    (hf : f ∈ fills s) (hj : Joined s g f m q) (hsub : g.flags &&& flagSubscription ≠ 0) :
    WholeDeal g f m q := by
  have hsame := compatible_subscription hj.compatible
  have hbit : ∀ x : ℕ, x &&& dealFlagsMask &&& flagSubscription = x &&& flagSubscription := by
    intro x
    rw [Nat.and_assoc]
    rfl
  have hboth : q.flags &&& flagSubscription ≠ 0 ∧ m.flags &&& flagSubscription ≠ 0 := by
    rw [hj.terms, hbit] at hsub
    split at hsub
    · exact ⟨hsub, hsame ▸ hsub⟩
    · exact ⟨hsame ▸ hsub, hsub⟩
  obtain ⟨hqs, hms⟩ := hboth
  have hm := h.lawful m hj.maker_placed
  have hq := h.lawful q hj.taker_placed
  have hmt : f.ticks = m.ticks :=
    onceWhole_ticks (h.whole m hj.maker_placed (hm.whole hms)) hf (.inl hj.maker_id.symm)
  have hqt : f.ticks = q.ticks :=
    onceWhole_ticks (h.whole q hj.taker_placed (hq.whole hqs)) hf (.inr hj.taker_id.symm)
  refine ⟨hmt, hqt, ?_, ?_⟩
  · -- one of the two is the bid, whose weeks were counted
    cases hb : q.isBuy with
    | true =>
      rw [hqt]
      exact hq.weeks hb hqs
    | false =>
      rw [hmt]
      exact hm.weeks (by rw [hj.sides, hb]; rfl) hms
  · rw [hj.paid]
    unfold fillDebit
    rw [if_pos hsub]

/-- Over every run, an all-or-none order takes part in at most one fill, which is of all its
ticks; fills join orders that suit each other; a subscription deal is funded with all the ticks
ordered and twice its clearing price. -/
theorem fills_all_or_none (env : Env) (s : Book) (h : Reachable env s) : AllOrNone s := by
  have hr := (reachable_audited h).record
  refine ⟨hr.numbered, fun p hp => (hr.lawful p hp).whole, hr.whole, ?_⟩
  obtain ⟨hlen, hzip⟩ := List.forall₂_iff_zip.mp hr.joined
  refine List.forall₂_iff_zip.mpr ⟨hlen, fun {g f} hgf => ?_⟩
  obtain ⟨m, q, hj⟩ := hzip hgf
  exact ⟨m, q, hj, record_wholeDeal hr (List.of_mem_zip hgf).2 hj⟩

/-- A subscription of four ticks at two steps, and the deal it funds. -/
theorem subscription_filled_whole : ∃ s, Reachable sampleEnv s ∧
    (fills s).map (fun f => (f.maker, f.taker, f.ticks)) = [(1, 2, 4)] ∧
    (fundings s).map Funding.paid = [4 * unit (2 * priceStep) + 2 * (2 * priceStep)] ∧
    AllOrNone s := by
  have hplay : (playedBook [sampleSell 1 2 4 (flagSubscription ||| flagAon) 20,
      sampleBuy 2 4 (flagSubscription ||| flagAon) 100 40]).any (fun s =>
        decide ((fills s).map (fun f => (f.maker, f.taker, f.ticks)) = [(1, 2, 4)]) &&
        decide ((fundings s).map Funding.paid =
          [4 * unit (2 * priceStep) + 2 * (2 * priceStep)])) = true := by
    decide +kernel
  obtain ⟨s, hs, hp⟩ := playedBook_reachable hplay
  simp only [Bool.and_eq_true, decide_eq_true_eq] at hp
  exact ⟨s, hs, hp.1, hp.2, fills_all_or_none sampleEnv s hs⟩

end InferenceOrderBookAllOrNone
