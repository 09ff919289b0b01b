import Dexdo.InferenceOrderBookFills

/-! # What the record says of the orders

Every resting order, every taker and every continued head stands for a placement on record, and
while it carries the all-or-none flag no fill of it has been announced. -/
namespace InferenceOrderBookRecord

open TokenContractState hiding Out Err Sent
open SolidityMapping InferenceOrderBookState InferenceOrderBookCalls
open InferenceOrderBookLists InferenceOrderBookMatching InferenceOrderBookAccounts
open InferenceOrderBookEscrow InferenceOrderBookFills

variable {s t : Book} {k : Taker} {p : Progress} {e : QueueEntry} {cur id lp n : ℕ}

/-! ## The record -/

def fillsOf (id : ℕ) (s : Book) : List Fill :=
  (fills s).filter fun f => decide (f.maker = id ∨ f.taker = id)

def OnceWhole (s : Book) (p : Placement) : Prop :=
  fillsOf p.id s = [] ∨ ∃ f, fillsOf p.id s = [f] ∧ f.ticks = p.ticks

/-- The order `id` with `rest` ticks to go was placed as `p`; an all-or-none one has none to go,
or all of them and no fill. -/
structure Stands (s : Book) (id : ℕ) (isBuy : Bool) (flags rest : ℕ) (p : Placement) : Prop where
  placed : p ∈ placements s
  number : p.id = id
  side : p.isBuy = isBuy
  terms : p.flags = flags
  untouched : flags &&& flagAon ≠ 0 → rest = 0 ∨ rest = p.ticks ∧ fillsOf id s = []

structure Lawful (isBuy : Bool) (flags ticks : ℕ) : Prop where
  whole : WholeSub flags
  weeks : isBuy = true → flags &&& flagSubscription ≠ 0 → ticks % subWeeksConst = 0

/-- The fill `f` between two placed orders that suit each other, and its funding `g`. -/
structure Joined (s : Book) (g : Funding) (f : Fill) (maker taker : Placement) : Prop where
  maker_placed : maker ∈ placements s
  taker_placed : taker ∈ placements s
  maker_id : maker.id = f.maker
  taker_id : taker.id = f.taker
  sides : maker.isBuy = !taker.isBuy
  compatible : dealCompatible taker.isBuy taker.flags maker.flags = true
  deal : g.deal = f.deal
  buyer : g.buyer = f.buyer
  terms : g.flags = (if taker.isBuy then taker.flags else maker.flags) &&& dealFlagsMask
  paid : g.paid = fillDebit f.ticks f.clearing g.flags

structure Record (s : Book) : Prop where
  numbered : (placements s).Pairwise fun a b => a.id < b.id
  older : ∀ p ∈ placements s, p.id < s.nextOrderId
  lawful : ∀ p ∈ placements s, Lawful p.isBuy p.flags p.ticks
  resting : ∀ id ∈ s.orders.keys, ∃ p, Stands s id (s.orders.get id).isBuy
    (s.orders.get id).flags (s.orders.get id).amount p
  whole : ∀ p ∈ placements s, p.flags &&& flagAon ≠ 0 → OnceWhole s p
  joined : List.Forall₂ (fun g f => ∃ m q, Joined s g f m q) (fundings s) (fills s)

/-! ## General facts -/

theorem forall₂_left {α β : Type} {R : α → β → Prop} {l : List α} {l' : List β}
    (h : List.Forall₂ R l l') : ∀ a ∈ l, ∃ b ∈ l', R a b := by
  induction h with
  | nil => exact nofun
  | cons hab _ ih =>
    intro c hc
    rcases List.mem_cons.mp hc with rfl | hc
    · exact ⟨_, List.mem_cons_self, hab⟩
    · obtain ⟨b, hb, hR⟩ := ih c hc
      exact ⟨b, List.mem_cons_of_mem _ hb, hR⟩

theorem Record.unique (h : Record s) {p q : Placement} (hp : p ∈ placements s)
    (hq : q ∈ placements s) (hid : p.id = q.id) : p = q := by
  have hnodup : ((placements s).map Placement.id).Nodup :=
    List.pairwise_map.mpr (h.numbered.imp fun hlt => hlt.ne)
  exact List.inj_on_of_nodup_map hnodup hp hq hid

theorem Record.fill_placed (h : Record s) : ∀ f ∈ fills s,
    ∃ g ∈ fundings s, ∃ m q, Joined s g f m q :=
  forall₂_left h.joined.flip

theorem Record.unfilled (h : Record s) (hid : s.nextOrderId ≤ id) : fillsOf id s = [] := by
  unfold fillsOf
  rw [List.filter_eq_nil_iff]
  intro f hf
  obtain ⟨g, -, m, q, hj⟩ := h.fill_placed f hf
  have hm := h.older m hj.maker_placed
  have hq := h.older q hj.taker_placed
  rw [hj.maker_id] at hm
  rw [hj.taker_id] at hq
  simp only [decide_eq_true_eq]
  omega

theorem fillsOf_append {f : Fill} (h : fills t = fills s ++ [f]) :
    fillsOf id t = fillsOf id s ++ if f.maker = id ∨ f.taker = id then [f] else [] := by
  unfold fillsOf
  rw [h, List.filter_append]
  by_cases hf : f.maker = id ∨ f.taker = id
  · rw [if_pos hf, List.filter_cons_of_pos (by simpa using hf), List.filter_nil]
  · rw [if_neg hf, List.filter_cons_of_neg (by simpa using hf), List.filter_nil]

theorem fillsOf_other {f : Fill} (h : fills t = fills s ++ [f]) (hm : f.maker ≠ id)
    (hq : f.taker ≠ id) : fillsOf id t = fillsOf id s := by
  rw [fillsOf_append h, if_neg (not_or.mpr ⟨hm, hq⟩), List.append_nil]

theorem Joined.placed {g : Funding} {f : Fill} {m q : Placement} (h : Joined s g f m q)
    (hp : placements s ⊆ placements t) : Joined t g f m q :=
  { h with maker_placed := hp h.maker_placed, taker_placed := hp h.taker_placed }

theorem Stands.placed_in {b : Bool} {flags rest : ℕ} {q : Placement}
    (h : Stands s id b flags rest q) (hp : placements s ⊆ placements t)
    (hf : fillsOf id t = fillsOf id s) : Stands t id b flags rest q :=
  { h with placed := hp h.placed, untouched := fun haon => by rw [hf]; exact h.untouched haon }

/-! ## Steps that only lose orders -/

theorem Stands.same {b : Bool} {flags rest : ℕ} {q : Placement}
    (hq : Stands s id b flags rest q) (hp : placements t = placements s)
    (hf : fills t = fills s) : Stands t id b flags rest q := by
  refine hq.placed_in (fun _ hx => hp ▸ hx) ?_
  unfold fillsOf
  rw [hf]

theorem Record.same (h : Record s) (hp : placements t = placements s)
    (hg : fundings t = fundings s) (hf : fills t = fills s)
    (hnext : t.nextOrderId = s.nextOrderId)
    (hrest : ∀ i ∈ t.orders.keys, ∃ q, Stands s i (t.orders.get i).isBuy (t.orders.get i).flags
      (t.orders.get i).amount q) : Record t := by
  refine ⟨?_, fun q hq => ?_, fun q hq => ?_, fun i hi => ?_, fun q hq haon => ?_, ?_⟩
  · rw [hp]
    exact h.numbered
  · rw [hp] at hq
    rw [hnext]
    exact h.older q hq
  · rw [hp] at hq
    exact h.lawful q hq
  · obtain ⟨q, hq⟩ := hrest i hi
    exact ⟨q, hq.same hp hf⟩
  · rw [hp] at hq
    unfold OnceWhole fillsOf
    rw [hf]
    exact h.whole q hq haon
  · rw [hg, hf]
    refine h.joined.imp fun g f hj => ?_
    obtain ⟨m, q, hj⟩ := hj
    exact ⟨m, q, hj.placed fun _ hx => hp ▸ hx⟩

theorem Stands.thinned {b : Bool} {flags rest : ℕ} {q : Placement}
    (hq : Stands s id b flags rest q) (h : Thinned s t) : Stands t id b flags rest q :=
  hq.same h.silent.placements h.silent.fills

theorem Record.thinned (hr : Record s) (h : Thinned s t) : Record t := by
  refine hr.same h.silent.placements h.silent.fundings h.silent.fills h.next fun i hi => ?_
  obtain ⟨hmem, hterms⟩ := h.orders i hi
  rw [congrArg Terms.isBuy hterms, congrArg Terms.flags hterms, congrArg Terms.amount hterms]
  exact hr.resting i hmem

/-! ## A fill -/

def fillWith (k : Taker) (lp cur n : ℕ) (o : Terms) : Fill :=
  if k.isBuy then ⟨cur, k.id, n, lp, o.tokenContract, k.note, o.note⟩
  else ⟨cur, k.id, n, k.price, k.tc, o.note, k.note⟩

def fundingFor (k : Taker) (lp n : ℕ) (o : Terms) : Funding :=
  if k.isBuy then
    ⟨o.tokenContract, fillDebit n lp (k.flags &&& dealFlagsMask), k.note, k.flags &&& dealFlagsMask⟩
  else ⟨k.tc, fillDebit n k.price (o.flags &&& dealFlagsMask), o.note, o.flags &&& dealFlagsMask⟩

theorem silent_refundAndRemove (cause : Removed) (h : Silent s t) :
    Silent s (refundAndRemove cur cause t) := by
  have hrem : Silent s (removeFromBook cur cause (t.orders.get cur).escrow t) := h.removeFromBook
  unfold refundAndRemove
  dsimp only
  split
  · exact hrem.payShell.sendFor 0 ⟨rfl, rfl, rfl⟩
  · exact hrem

/-- A fill announces itself and its funding, and nothing else of the kind. -/
theorem fillMaker_books (k : Taker) (lp cur n : ℕ) (p : Progress) :
    placements (fillMaker k lp cur n p).book = placements p.book ∧
    fundings (fillMaker k lp cur n p).book =
      fundings p.book ++ [fundingFor k lp n (p.book.orders.get cur).toTerms] ∧
    fills (fillMaker k lp cur n p).book =
      fills p.book ++ [fillWith k lp cur n (p.book.orders.get cur).toTerms] := by
  cases hk : k.isBuy with
  | true =>
    obtain ⟨hp, hf, hg⟩ := settleFill_books cur k.id k.note (p.book.orders.get cur).note
      k.buyerPubkey (p.book.orders.get cur).tokenContract n lp true (k.flags &&& dealFlagsMask)
      k.clientId k.tag p.book
    have hend : ∃ v, v.out = (settleFill cur k.id k.note (p.book.orders.get cur).note k.buyerPubkey
        (p.book.orders.get cur).tokenContract n lp true (k.flags &&& dealFlagsMask) k.clientId
        k.tag p.book).out ∧ (fillMaker k lp cur n p).book = removeFromBook cur .filled 0 v := by
      unfold fillMaker
      simp only [hk, if_true]
      refine ⟨_, ?_, rfl⟩
      generalize settleFill _ _ _ _ _ _ _ _ _ _ _ _ _ = u
      rfl
    generalize settleFill _ _ _ _ _ _ _ _ _ _ _ _ _ = u at hp hf hg hend
    obtain ⟨v, hout, heq⟩ := hend
    have hs : Silent u (fillMaker k lp cur n p).book := by
      rw [heq]
      exact ((Silent.refl u).write hout).removeFromBook
    unfold fillWith fundingFor
    rw [hs.placements, hs.fundings, hs.fills, if_pos hk, if_pos hk]
    exact ⟨hp, hg, hf⟩
  | false =>
    obtain ⟨hp, hf, hg⟩ := settleFill_books cur k.id (p.book.orders.get cur).note k.note
      (p.book.orders.get cur).buyerPubkey k.tc n k.price false
      ((p.book.orders.get cur).flags &&& dealFlagsMask) k.clientId (p.book.orders.get cur).tag
      p.book
    have hend : ∃ v f, v.out = (settleFill cur k.id (p.book.orders.get cur).note k.note
        (p.book.orders.get cur).buyerPubkey k.tc n k.price false
        ((p.book.orders.get cur).flags &&& dealFlagsMask) k.clientId (p.book.orders.get cur).tag
        p.book).out ∧ (fillMaker k lp cur n p).book =
          if (p.book.orders.get cur).amount = n then refundAndRemove cur .filled v
          else v.editOrder cur f := by
      unfold fillMaker
      simp only [hk, Bool.false_eq_true, if_false]
      refine ⟨_, _, ?_, rfl⟩
      generalize settleFill _ _ _ _ _ _ _ _ _ _ _ _ _ = u
      rfl
    generalize settleFill _ _ _ _ _ _ _ _ _ _ _ _ _ = u at hp hf hg hend
    obtain ⟨v, f, hout, heq⟩ := hend
    have hs : Silent u (fillMaker k lp cur n p).book := by
      rw [heq]
      split
      · exact silent_refundAndRemove .filled ((Silent.refl u).write hout)
      · exact (Silent.refl u).write hout
    have hno : ¬ k.isBuy = true := by simp [hk]
    unfold fillWith fundingFor
    rw [hs.placements, hs.fundings, hs.fills, if_neg hno, if_neg hno]
    exact ⟨hp, hg, hf⟩

/-- An order that outlives its fill is a bid with ticks to go, its terms otherwise unchanged. -/
theorem fillMaker_left (k : Taker) (lp n : ℕ) (hl : Linked p.book) (hcur : cur ∈ p.book.orders.keys)
    (hleft : cur ∈ (fillMaker k lp cur n p).book.orders.keys) :
    (p.book.orders.get cur).amount ≠ n ∧
    ((fillMaker k lp cur n p).book.orders.get cur).isBuy = (p.book.orders.get cur).isBuy ∧
    ((fillMaker k lp cur n p).book.orders.get cur).flags = (p.book.orders.get cur).flags := by
  have hlive := hl.live cur hcur
  cases hk : k.isBuy with
  | true =>
    exfalso
    obtain ⟨v, hpaid, heq⟩ := fillMaker_buy lp cur n p hk
    have hone := OneMaker.quiet_edit hl hcur hpaid.quiet (inPlace_filledAccum (n := n)) hlive
    have hmem : cur ∈ (v.editOrder cur fun o => { o with
        filledAccum := o.filledAccum + n }).orders.keys := Finset.mem_insert_self ..
    rw [heq] at hleft
    dsimp only at hleft
    rw [(removeFromBook_removal .filled 0 hone.linked hmem).keys] at hleft
    exact Finset.notMem_erase cur _ hleft
  | false =>
    obtain ⟨v, hpaid, heq⟩ := fillMaker_sell lp cur n p hk
    rw [heq] at hleft ⊢
    dsimp only at hleft ⊢
    generalize (p.book.orders.get cur).escrow - _ = rest at hleft ⊢
    have hmem : ∀ (b : Book) f, cur ∈ (b.editOrder cur f).orders.keys :=
      fun _ _ => Finset.mem_insert_self ..
    have hone := OneMaker.quiet_edit hl hcur hpaid.quiet (inPlace_escrow (n := rest)) hlive
    have hamount : ((v.editOrder cur fun o => { o with escrow := rest }).orders.get cur).amount ≠
        0 := by
      rw [editOrder_get, hpaid.quiet.orders]
      exact hlive
    have hone2 := hone.edit (hmem _ _) (inPlace_filledAccum (n := n)) hamount
    split at hleft
    · exact absurd hleft (refundAndRemove_gone .filled hone2.linked (hmem _ _)).notMem
    · rename_i hne
      rw [if_neg hne, editOrder_get, editOrder_get, editOrder_get, hpaid.quiet.orders]
      exact ⟨hne, rfl, rfl⟩

/-! ## The walk of a taker -/

/-- The record while the taker `k` is matched: it stands for a placement, under a number that no
resting order has. -/
structure Taking (k : Taker) (p : Progress) : Prop where
  record : Record p.book
  fresh : k.id ∉ p.book.orders.keys
  stands : ∃ q, Stands p.book k.id k.isBuy k.flags p.remaining q

theorem Taking.thinned (h : Taking k p) (ht : Thinned p.book t) {matched : ℕ} :
    Taking k { p with book := t, matched := matched } := by
  obtain ⟨q, hq⟩ := h.stands
  exact ⟨h.record.thinned ht, fun hid => h.fresh (ht.orders _ hid).1, q, hq.thinned ht⟩

theorem fillWith_ids (k : Taker) (lp cur n : ℕ) (o : Terms) :
    (fillWith k lp cur n o).maker = cur ∧ (fillWith k lp cur n o).taker = k.id ∧
      (fillWith k lp cur n o).ticks = n := by
  unfold fillWith
  split <;> exact ⟨rfl, rfl, rfl⟩

theorem onceWhole_fill {b : Bool} {flags rest : ℕ} {q : Placement} {f : Fill}
    (hq : Stands s id b flags rest q) (hf : fills t = fills s ++ [f])
    (hid : f.maker = id ∨ f.taker = id) (haon : flags &&& flagAon ≠ 0) (hrest : rest ≠ 0)
    (hall : f.ticks = rest) : OnceWhole t q := by
  obtain ⟨hticks, hnone⟩ := (hq.untouched haon).resolve_left hrest
  right
  refine ⟨f, ?_, hall.trans hticks⟩
  rw [hq.number, fillsOf_append hf, hnone, if_pos hid]
  rfl

theorem fundingFor_fill (k : Taker) (lp cur n : ℕ) (o : Terms) :
    (fundingFor k lp n o).deal = (fillWith k lp cur n o).deal ∧
    (fundingFor k lp n o).buyer = (fillWith k lp cur n o).buyer ∧
    (fundingFor k lp n o).flags = (if k.isBuy then k.flags else o.flags) &&& dealFlagsMask ∧
    (fundingFor k lp n o).paid = fillDebit (fillWith k lp cur n o).ticks
      (fillWith k lp cur n o).clearing (fundingFor k lp n o).flags := by
  unfold fundingFor fillWith
  split <;> exact ⟨rfl, rfl, rfl, rfl⟩

theorem fillMaker_joined (lp n : ℕ) {m q : Placement} {o : Terms} (hside : o.isBuy = !k.isBuy)
    (hcompat : dealCompatible k.isBuy k.flags o.flags = true)
    (hm : Stands s cur o.isBuy o.flags o.amount m)
    (hq : Stands s k.id k.isBuy k.flags p.remaining q) (hp : placements s ⊆ placements t) :
    Joined t (fundingFor k lp n o) (fillWith k lp cur n o) m q := by
  obtain ⟨hmaker, htaker, -⟩ := fillWith_ids k lp cur n o
  obtain ⟨hdeal, hbuyer, hflags, hpaid⟩ :=
    fundingFor_fill k lp cur n o
  refine ⟨hp hm.placed, hp hq.placed, hm.number.trans hmaker.symm, hq.number.trans htaker.symm,
    ?_, ?_, hdeal, hbuyer, ?_, hpaid⟩
  · rw [hm.side, hq.side]
    exact hside
  · rw [hm.terms, hq.side, hq.terms]
    exact hcompat
  · rw [hm.terms, hq.side, hq.terms]
    exact hflags

/-- A fill keeps the record: an all-or-none side of it has all its ticks in it. -/
theorem Taking.fill (h : Taking k p) (hl : Linked p.book) (hat : At k lp cur p.book)
    (hrem : p.remaining ≠ 0) (hsuit : Suits k lp cur n p)
    (hcompat : dealCompatible k.isBuy k.flags (p.book.orders.get cur).flags = true) :
    Taking k (fillMaker k lp cur n p) := by
  have hle : n ≤ (p.book.orders.get cur).amount := hsuit.fits ▸ tradeable_le.2
  have hlerem : n ≤ p.remaining := hsuit.fits ▸ tradeable_le.1
  have hlive := hl.live cur hat.1
  have hone := fillMaker_one k lp hl hat.1 hle
  have hleft := fillMaker_left k lp n hl hat.1
  obtain ⟨hp, hg, hf⟩ := fillMaker_books k lp cur n p
  obtain ⟨hmaker, htaker, hticks⟩ := fillWith_ids k lp cur n
    (p.book.orders.get cur).toTerms
  have hgone : k.flags &&& flagAon ≠ 0 → (fillMaker k lp cur n p).remaining = 0 := by
    intro haon
    have hall := hsuit.taker haon
    cases hk : k.isBuy with
    | true =>
      obtain ⟨v, -, heq⟩ := fillMaker_buy lp cur n p hk
      rw [heq]
      exact Nat.sub_eq_zero_of_le hall
    | false =>
      obtain ⟨v, -, heq⟩ := fillMaker_sell lp cur n p hk
      rw [heq]
  have hsub : placements p.book ⊆ placements (fillMaker k lp cur n p).book := fun _ hx => hp ▸ hx
  obtain ⟨q, hq⟩ := h.stands
  obtain ⟨m, hm⟩ := h.record.resting cur hat.1
  have hside : (p.book.orders.get cur).toTerms.isBuy = !k.isBuy := hat.2.1
  have hjoined := fillMaker_joined lp n hside hcompat hm hq hsub
  generalize fillMaker k lp cur n p = r at *
  generalize fillWith k lp cur n (p.book.orders.get cur).toTerms = f at *
  generalize fundingFor k lp n (p.book.orders.get cur).toTerms = g at *
  have hother : ∀ i, i ≠ cur → i ≠ k.id → fillsOf i r.book = fillsOf i p.book := fun i h1 h2 =>
    fillsOf_other hf (fun h => h1 (h.symm.trans hmaker)) fun h => h2 (h.symm.trans htaker)
  refine ⟨⟨?_, fun x hx => ?_, fun x hx => ?_, fun i hi => ?_, fun x hx haon => ?_, ?_⟩,
    fun hid => h.fresh (hone.keys hid), q, ?_⟩
  · rw [hp]
    exact h.record.numbered
  · rw [hp] at hx
    rw [hone.nextOrderId]
    exact h.record.older x hx
  · rw [hp] at hx
    exact h.record.lawful x hx
  · by_cases hic : i = cur
    · -- the maker stays with ticks to go: it is not sold whole
      subst hic
      obtain ⟨hne, hside, hflags⟩ := hleft hi
      rw [hside, hflags]
      refine ⟨m, hsub hm.placed, hm.number, hm.side, hm.terms, fun haon => ?_⟩
      exact absurd (le_antisymm (hsuit.maker haon) hle) hne
    · have hmem := hone.keys hi
      obtain ⟨x, hx⟩ := h.record.resting i hmem
      have hterms := (hone.others i hmem hic).2
      rw [congrArg Terms.isBuy hterms, congrArg Terms.flags hterms, congrArg Terms.amount hterms]
      exact ⟨x, hx.placed_in hsub (hother i hic fun hik => h.fresh (hik ▸ hmem))⟩
  · rw [hp] at hx
    by_cases hxc : x.id = cur
    · obtain rfl := h.record.unique hx hm.placed (hxc.trans hm.number.symm)
      rw [hm.terms] at haon
      exact onceWhole_fill hm hf (.inl hmaker) haon hlive
        (hticks.trans (le_antisymm hle (hsuit.maker haon)))
    by_cases hxk : x.id = k.id
    · obtain rfl := h.record.unique hx hq.placed (hxk.trans hq.number.symm)
      rw [hq.terms] at haon
      exact onceWhole_fill hq hf (.inr htaker) haon hrem
        (hticks.trans (le_antisymm hlerem (hsuit.taker haon)))
    · unfold OnceWhole
      rw [hother x.id hxc hxk]
      exact h.record.whole x hx haon
  · rw [hg, hf]
    refine List.rel_append (h.record.joined.imp fun g f hj => ?_) (.cons ⟨m, q, hjoined⟩ .nil)
    obtain ⟨m, q, hj⟩ := hj
    exact ⟨m, q, hj.placed hsub⟩
  · exact ⟨hsub hq.placed, hq.number, hq.side, hq.terms, fun haon => .inl (hgone haon)⟩

theorem matchMaker_unsuited
    (h : dealCompatible k.isBuy k.flags (p.book.orders.get cur).flags = false) :
    (matchMaker k lp cur p).1 = p := by
  unfold matchMaker
  dsimp only
  rw [if_pos (by rw [h]; rfl)]

theorem drops_thinned (hl : Linked s) (hcur : cur ∈ s.orders.keys) (h : Drops k cur s t) :
    Thinned s t := by
  cases h with
  | offer _ => exact Thinned.expired true hl hcur
  | bid _ => exact Thinned.expired false hl hcur
  | dust _ => exact Thinned.refundAndRemove .dust hl hcur

theorem Taking.step (h : Taking k p) (hl : Linked p.book) (hs : Solvent p.book) (hk : Ready k)
    (hcross : crosses k.isBuy k.price k.isMarket lp = true) (hat : At k lp cur p.book)
    (hrem : p.remaining ≠ 0) : Taking k (matchMaker k lp cur p).1 := by
  cases hcompat : dealCompatible k.isBuy k.flags (p.book.orders.get cur).flags with
  | false =>
    rw [matchMaker_unsuited hcompat]
    exact h
  | true =>
    rcases matchMaker_outcomes hs hk hcross hat with heq | ⟨b, hdrop, heq⟩ | ⟨n, -, hsuit, heq⟩
    · rw [heq]
      exact h
    · rw [heq]
      exact h.thinned (drops_thinned hl hat.1 hdrop)
    · rw [heq]
      exact h.fill hl hat hrem hsuit hcompat

theorem matchTaker_taking (amount budget resume : ℕ) (hl : Linked s) (hs : Solvent s)
    (hk : Ready k)
    (hcov : k.isBuy = true → k.isMarket = false → fillDebit amount k.price k.flags ≤ budget)
    (h : Taking k { book := s, remaining := amount, leftoverEscrow := budget }) :
    Taking k (matchTaker k amount budget resume s).1 := by
  have hrule : Walk k s budget (matchTaker k amount budget resume s).1 ∧
      Taking k (matchTaker k amount budget resume s).1 :=
    (matchTaker_rule (I := fun p => Walk k s budget p ∧ Taking k p)
      (fun p hp => hp.1.trimmed.linked)
      (fun lp cur p hcross hp hat hrem => ⟨walk_step hp.1 hk hcross hat hrem,
        hp.2.step hp.1.trimmed.linked hp.1.solvent hk hcross hat hrem⟩)
      ⟨⟨.refl hl, hs, fun hb hm => .inr (hcov hb hm), fun _ _ _ hm => ⟨hm, rfl⟩⟩, h⟩).1
  exact hrule.2

end InferenceOrderBookRecord
