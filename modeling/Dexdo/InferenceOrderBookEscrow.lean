import Dexdo.InferenceOrderBookAccounts

/-! # Escrow conservation and coverage

A resting bid always holds what filling it whole at its own price costs, so no fill is cut short
or overdrawn, and the account of every accepted BUY adds up to the escrow it brought. -/
namespace InferenceOrderBookEscrow

open TokenContractState hiding Out
open SolidityMapping InferenceOrderBookState InferenceOrderBookCalls
open InferenceOrderBookLists InferenceOrderBookMatching InferenceOrderBookStructure
open InferenceOrderBookAccounts

variable {env : Env} {s u v : Book} {k : Taker} {p q : Progress} {e : QueueEntry}
variable {n t cur id lp trade : ℕ} {a : Address}

/-! ## What a fill costs -/

theorem fillDebit_mask {f : ℕ} : fillDebit n lp (f &&& dealFlagsMask) = fillDebit n lp f := by
  have hbit : f &&& dealFlagsMask &&& flagSubscription = f &&& flagSubscription := by
    rw [Nat.and_assoc]
    rfl
  unfold fillDebit
  rw [hbit]

theorem fillDebit_mono {m p q f : ℕ} (hn : n ≤ m) (hp : p ≤ q) :
    fillDebit n p f ≤ fillDebit m q f := by
  unfold fillDebit
  have := Nat.mul_le_mul hn (unit_mono hp)
  split <;> omega

theorem fillDebit_rest {m p q f budget : ℕ} (hf : f &&& flagSubscription = 0) (hn : n ≤ m)
    (hp : p ≤ q) (h : fillDebit m q f ≤ budget) :
    fillDebit (m - n) q f ≤ budget - fillDebit n p f := by
  unfold fillDebit at h ⊢
  simp only [hf, ne_eq, not_true_eq_false, if_false, Nat.add_zero] at h ⊢
  have h1 := Nat.mul_le_mul_left n (unit_mono hp)
  have h2 : (m - n) * unit q + n * unit q = m * unit q := by
    rw [← Nat.add_mul, Nat.sub_add_cancel hn]
  omega

theorem tradeable_afford {remaining amount budget x : ℕ} :
    tradeable remaining amount budget x * x ≤ budget := by
  unfold tradeable
  dsimp only
  by_cases hx : x > 0
  · rw [if_pos hx]
    generalize (if remaining < amount then remaining else amount) = trade
    have hdiv := Nat.div_mul_le_self budget x
    split
    · exact hdiv
    · rename_i hle
      exact (Nat.mul_le_mul_right x (not_lt.mp hle)).trans hdiv
  · have hzero : x = 0 := by omega
    rw [hzero, Nat.mul_zero]
    exact Nat.zero_le _

theorem tradeable_min {remaining amount budget x : ℕ} (h : amount * x ≤ budget) :
    tradeable remaining amount budget x = min remaining amount := by
  have hmin : (if remaining < amount then remaining else amount) = min remaining amount := by
    split <;> omega
  unfold tradeable
  dsimp only
  rw [hmin]
  by_cases hx : x > 0
  · have hdiv := (Nat.le_div_iff_mul_le hx).mpr h
    rw [if_pos hx, if_neg (by omega)]
  · rw [if_neg hx, if_neg (lt_irrefl _)]

/-! ## Coverage -/

def WholeSub (f : ℕ) : Prop := f &&& flagSubscription ≠ 0 → f &&& flagAon ≠ 0

structure CoveredOrder (o : Terms) : Prop where
  offer : o.isBuy = false → o.tag = 0
  whole : o.isBuy = true → WholeSub o.flags
  escrow : o.isBuy = true → fillDebit o.amount o.price o.flags ≤ o.escrow

structure CoveredEntry (e : QueueEntry) : Prop where
  kind : e.entryType ≠ .place → e.isBuy = false
  offer : e.isBuy = false → e.tag = 0 ∧ e.flags &&& flagMarket = 0
  whole : e.isBuy = true → WholeSub e.flags
  limit : e.isBuy = true → e.flags &&& flagSubscription ≠ 0 → e.flags &&& flagMarket = 0
  first : e.isBuy = true → e.flags &&& flagMarket = 0 → e.contOrderId = 0 →
    fillDebit e.amount e.price e.flags ≤ e.escrow
  again : e.isBuy = true → e.flags &&& flagMarket = 0 → e.contOrderId ≠ 0 →
    fillDebit e.contRemaining e.price e.flags ≤ e.contLeftover

structure Solvent (s : Book) : Prop where
  orders : ∀ id ∈ s.orders.keys, CoveredOrder (s.orders.get id).toTerms
  underflow : s.underflow = false
  shortfall : s.shortfall = false

def Mine (t : ℕ) (a : Address) (s : Book) : Prop :=
  ∀ id ∈ s.orders.keys, (s.orders.get id).tag = t → (s.orders.get id).note = a

theorem Solvent.one (h : Solvent s) (hone : OneMaker cur s u)
    (hcur : cur ∈ u.orders.keys → CoveredOrder (u.orders.get cur).toTerms)
    (hu : u.underflow = s.underflow) (hs : u.shortfall = s.shortfall) : Solvent u := by
  refine ⟨fun id hid => ?_, hu.trans h.underflow, hs.trans h.shortfall⟩
  by_cases hidc : id = cur
  · subst hidc
    exact hcur hid
  · rw [(hone.others id (hone.keys hid) hidc).2]
    exact h.orders id (hone.keys hid)

theorem Mine.one (h : Mine t a s) (hone : OneMaker cur s u)
    (hcur : cur ∈ u.orders.keys → (u.orders.get cur).tag = t → (u.orders.get cur).note = a) :
    Mine t a u := by
  intro id hid
  by_cases hidc : id = cur
  · subst hidc
    exact hcur hid
  · have hterms := (hone.others id (hone.keys hid) hidc).2
    rw [congrArg Terms.tag hterms, congrArg Terms.note hterms]
    exact h id (hone.keys hid)

theorem gone_solvent (h : Gone cur s u) (hs : Solvent s) : Solvent u :=
  hs.one h.toOneMaker (fun hm => absurd hm h.notMem) h.underflow h.shortfall

theorem gone_mine (h : Gone cur s u) (hs : Mine t a s) : Mine t a u :=
  hs.one h.toOneMaker fun hm => absurd hm h.notMem

def Carries (s u : Book) : Prop :=
  ∀ t a, t ≠ 0 → Mine t a s → Mine t a u ∧ account t a u = account t a s

theorem Carries.refl : Carries s s := fun _ _ _ hm => ⟨hm, rfl⟩

theorem Carries.trans (h : Carries s u) (h' : Carries u v) : Carries s v := by
  intro t a ht hm
  obtain ⟨h1, h2⟩ := h t a ht hm
  obtain ⟨h3, h4⟩ := h' t a ht h1
  exact ⟨h3, h4.trans h2⟩

theorem gone_carries (h : Gone cur s u) (hcur : cur ∈ s.orders.keys) : Carries s u :=
  fun t a ht hm => ⟨gone_mine h hm, h.kept t a ht (hm cur hcur)⟩

/-! ## The walk of a taker -/

structure Ready (k : Taker) : Prop where
  offer : k.isBuy = false → k.tag = 0 ∧ k.isMarket = false
  whole : k.isBuy = true → WholeSub k.flags
  limit : k.isBuy = true → k.flags &&& flagSubscription ≠ 0 → k.isMarket = false

/-- The walk so far: it started on `s` with `budget`. -/
structure Walk (k : Taker) (s : Book) (budget : ℕ) (p : Progress) : Prop where
  trimmed : Trimmed s p.book
  solvent : Solvent p.book
  covered : k.isBuy = true → k.isMarket = false →
    p.remaining = 0 ∨ fillDebit p.remaining k.price k.flags ≤ p.leftoverEscrow
  accounts : ∀ t a, t ≠ 0 → Mine t a s → Mine t a p.book ∧
    account t a p.book + (if k.tag = t then p.leftoverEscrow else 0) =
      account t a s + if k.tag = t then budget else 0

/-- A maker that a fill of `trade` ticks suits. -/
structure Suits (k : Taker) (lp cur trade : ℕ) (p : Progress) : Prop where
  fits : trade = tradeable p.remaining (p.book.orders.get cur).amount
    (if k.isBuy then p.leftoverEscrow else (p.book.orders.get cur).escrow)
    (unit (if k.isBuy then lp else k.price))
  taker : k.flags &&& flagAon ≠ 0 → p.remaining ≤ trade
  maker : (p.book.orders.get cur).flags &&& flagAon ≠ 0 → (p.book.orders.get cur).amount ≤ trade

theorem crosses_price (h : crosses k.isBuy k.price k.isMarket lp = true)
    (hm : k.isMarket = false) : if k.isBuy = true then lp ≤ k.price else k.price ≤ lp := by
  unfold crosses at h
  rw [hm] at h
  split at h
  · contradiction
  · split at h
    · rename_i hb
      rw [if_pos hb]
      simpa using h
    · rename_i hb
      rw [if_neg hb]
      simpa using h

theorem bid_uncut (hs : Solvent p.book) (hat : At k lp cur p.book) (hk : k.isBuy = false)
    (hp : k.price ≤ lp) : tradeable p.remaining (p.book.orders.get cur).amount
      (p.book.orders.get cur).escrow (unit k.price) =
        min p.remaining (p.book.orders.get cur).amount := by
  obtain ⟨hcur, hside, hprice⟩ := hat
  have hcov := (hs.orders cur hcur).escrow (by rw [hside, hk]; rfl)
  refine tradeable_min (le_trans ?_ hcov)
  unfold fillDebit
  have := Nat.mul_le_mul_left (p.book.orders.get cur).amount (unit_mono (hprice ▸ hp))
  omega

/-- The ways a walk passes a maker without a fill. -/
inductive Drops (k : Taker) (cur : ℕ) (s : Book) : Book → Prop where
  | offer : k.isBuy = true → Drops k cur s (removeExpiredSell cur s)
  | bid : k.isBuy = false → Drops k cur s (removeExpiredBid cur s)
  | dust : k.isBuy = false → Drops k cur s (refundAndRemove cur .dust s)

/-- Meeting a maker leaves the walk as it was, drops the maker, or fills. -/
theorem matchMaker_outcomes (hs : Solvent p.book) (hk : Ready k)
    (hcross : crosses k.isBuy k.price k.isMarket lp = true) (hat : At k lp cur p.book) :
    (matchMaker k lp cur p).1 = p ∨
    (∃ b, Drops k cur p.book b ∧
      (matchMaker k lp cur p).1 = { p with book := b, matched := p.matched + 1 }) ∨
    ∃ trade, 2 ≤ trade ∧ Suits k lp cur trade p ∧
      (matchMaker k lp cur p).1 = fillMaker k lp cur trade p := by
  unfold matchMaker
  dsimp only
  split
  · exact .inl rfl
  split
  · refine .inr (.inl ⟨_, ?_, rfl⟩)
    split
    · rename_i hb
      exact .offer hb
    · rename_i hb
      exact .bid (Bool.eq_false_iff.mpr hb)
  generalize htrade : tradeable p.remaining (p.book.orders.get cur).amount _ _ = trade
  -- the flag of a cut trade is not raised, so the book is still the one the walk had
  have hcut : (!k.isBuy && decide (trade < min p.remaining (p.book.orders.get cur).amount)) =
      false := by
    cases hb : k.isBuy with
    | true => rfl
    | false =>
      have hprice := crosses_price hcross (hk.offer hb).2
      rw [hb, if_neg (by simp)] at hprice
      rw [hb, if_neg (by simp), if_neg (by simp), bid_uncut hs hat hb hprice] at htrade
      simp [← htrade]
  have hbook : { p.book with shortfall := p.book.shortfall || false } = p.book := by
    rw [Bool.or_false]
  rw [hcut, hbook]
  split
  · exact .inl rfl
  rename_i hmisfit
  split
  · split
    · exact .inl rfl
    · rename_i hb
      exact .inr (.inl ⟨_, .dust (Bool.eq_false_iff.mpr hb), rfl⟩)
  · rename_i hmin
    refine .inr (.inr ⟨trade, not_lt.mp hmin, ⟨htrade.symm, fun hf => ?_, fun hf => ?_⟩, rfl⟩)
    · by_contra hlt
      exact hmisfit (by simp [aonMisfit, hf, not_le.mp hlt])
    · by_contra hlt
      exact hmisfit (by simp [aonMisfit, hf, not_le.mp hlt])

theorem drops_gone (hlinked : Linked s) (hcur : cur ∈ s.orders.keys)
    (hoffer : k.isBuy = true → (s.orders.get cur).tag = 0) (h : Drops k cur s u) : Gone cur s u := by
  cases h with
  | offer hb => exact removeExpiredSell_gone hlinked hcur (hoffer hb)
  | bid _ => exact removeExpiredBid_gone hlinked hcur
  | dust _ => exact refundAndRemove_gone .dust hlinked hcur

theorem buy_afforded (hk : Ready k) (hb : k.isBuy = true)
    (hcross : crosses k.isBuy k.price k.isMarket lp = true) (hsuit : Suits k lp cur trade p)
    (hcov : k.isMarket = false → fillDebit p.remaining k.price k.flags ≤ p.leftoverEscrow) :
    fillDebit trade lp k.flags ≤ p.leftoverEscrow := by
  have hfits := hsuit.fits
  rw [hb, if_pos rfl, if_pos rfl] at hfits
  cases hm : k.isMarket with
  | false =>
    have hprice := crosses_price hcross hm
    rw [if_pos hb] at hprice
    have hle : trade ≤ p.remaining := hfits ▸ tradeable_le.1
    exact (fillDebit_mono hle hprice).trans (hcov hm)
  | true =>
    have hsub : k.flags &&& flagSubscription = 0 := by
      by_contra hf
      rw [hk.limit hb hf] at hm
      cases hm
    have hafford : trade * unit lp ≤ p.leftoverEscrow := by
      rw [hfits]
      exact tradeable_afford
    unfold fillDebit
    simp only [hsub, ne_eq, not_true_eq_false, if_false, Nat.add_zero]
    exact hafford

/-- An incoming BUY fills an offer: the debit is the taker's, and the rest stays covered. -/
theorem walk_fill_buy {budget : ℕ} (h : Walk k s budget p) (hk : Ready k) (hb : k.isBuy = true)
    (hcross : crosses k.isBuy k.price k.isMarket lp = true) (hat : At k lp cur p.book)
    (hrem : p.remaining ≠ 0) (hsuit : Suits k lp cur trade p) :
    Walk k s budget (fillMaker k lp cur trade p) := by
  have hlinked := h.trimmed.linked
  have hle : trade ≤ (p.book.orders.get cur).amount := hsuit.fits ▸ tradeable_le.2
  have hlerem : trade ≤ p.remaining := hsuit.fits ▸ tradeable_le.1
  have hcov : k.isMarket = false → fillDebit p.remaining k.price k.flags ≤ p.leftoverEscrow :=
    fun hm => (h.covered hb hm).resolve_left hrem
  have hafford := buy_afforded hk hb hcross hsuit hcov
  have hone := fillMaker_one k lp hlinked hat.1 hle
  obtain ⟨w, hpaid, heq⟩ := fillMaker_buy lp cur trade p hb
  rw [fillDebit_mask] at hpaid heq
  have hmem : cur ∈ w.orders.keys := by
    rw [hpaid.quiet.orders]
    exact hat.1
  have hmemEdit : cur ∈ (w.editOrder cur fun o =>
      { o with filledAccum := o.filledAccum + trade }).orders.keys := Finset.mem_insert_self ..
  have hlive : (w.orders.get cur).amount ≠ 0 := by
    rw [hpaid.quiet.orders]
    exact hlinked.live cur hat.1
  have htag : (w.orders.get cur).tag = 0 := by
    rw [hpaid.quiet.orders]
    exact (h.solvent.orders cur hat.1).offer (by rw [hat.2.1, hb]; rfl)
  have hwlinked := editOrder_linked (hpaid.quiet.linked hlinked) hmem
    (inPlace_filledAccum (n := trade)) hlive
  obtain ⟨hflag1, hflag2⟩ := removeFromBook_flags .filled 0 hwlinked hmemEdit
  have hgone : cur ∉ (fillMaker k lp cur trade p).book.orders.keys := by
    rw [heq]
    dsimp only
    rw [(removeFromBook_removal .filled 0 hwlinked hmemEdit).keys]
    exact Finset.notMem_erase cur _
  refine ⟨h.trimmed.trans hone.toTrimmed, ?_, fun _ hm => ?_, fun t a ht hmine => ?_⟩
  · refine h.solvent.one hone (fun hm => absurd hm hgone) ?_ ?_
    · rw [heq]
      refine hflag1.trans (hpaid.underflow.trans ?_)
      rw [decide_eq_false (not_lt.mpr hafford), Bool.or_false]
    · rw [heq]
      exact hflag2.trans hpaid.shortfall
  · rw [heq]
    dsimp only
    have hprice := crosses_price hcross hm
    rw [if_pos hb] at hprice
    by_cases hsub : k.flags &&& flagSubscription = 0
    · exact .inr (fillDebit_rest hsub hlerem hprice (hcov hm))
    · -- a subscription is filled whole or not at all
      have := hsuit.taker (hk.whole hb hsub)
      exact .inl (by omega)
  · obtain ⟨hmine', hacc⟩ := h.accounts t a ht hmine
    refine ⟨hmine'.one hone fun hm => absurd hm hgone, ?_⟩
    rw [heq]
    dsimp only
    have h1 := removeFromBook_account (a := a) .filled 0 hwlinked hmemEdit ht
    have h2 := editOrder_account (t := t) (a := a) hmem
      (f := fun o => { o with filledAccum := o.filledAccum + trade }) (fun _ => rfl)
    have h3 := paid_account (a := a) hpaid ht
    rw [editOrder_get] at h1
    simp only [htag, Ne.symm ht, if_false, Nat.add_zero] at h1 h2
    by_cases hkt : k.tag = t
    · simp only [hkt, if_true] at h3 hacc ⊢
      omega
    · simp only [hkt, if_false] at h3 hacc ⊢
      omega

theorem sell_afforded (hs : Solvent p.book) (hk : Ready k) (hb : k.isBuy = false)
    (hcross : crosses k.isBuy k.price k.isMarket lp = true) (hat : At k lp cur p.book)
    (hle : trade ≤ (p.book.orders.get cur).amount) :
    fillDebit trade k.price (p.book.orders.get cur).flags ≤ (p.book.orders.get cur).escrow := by
  have hprice := crosses_price hcross (hk.offer hb).2
  rw [if_neg (by simp [hb]), ← hat.2.2] at hprice
  have hbid := (hs.orders cur hat.1).escrow (by rw [hat.2.1, hb]; rfl)
  exact (fillDebit_mono hle hprice).trans hbid

/-- An incoming SELL fills a bid: the debit is the bid's, and what is left of it stays covered. -/
theorem walk_fill_sell {budget : ℕ} (h : Walk k s budget p) (hk : Ready k) (hb : k.isBuy = false)
    (hcross : crosses k.isBuy k.price k.isMarket lp = true) (hat : At k lp cur p.book)
    (hsuit : Suits k lp cur trade p) : Walk k s budget (fillMaker k lp cur trade p) := by
  have hlinked := h.trimmed.linked
  have hle : trade ≤ (p.book.orders.get cur).amount := hsuit.fits ▸ tradeable_le.2
  have hone := fillMaker_one k lp hlinked hat.1 hle
  have hprice := crosses_price hcross (hk.offer hb).2
  rw [if_neg (by simp [hb]), ← hat.2.2] at hprice
  have hbuy : (p.book.orders.get cur).isBuy = true := by
    rw [hat.2.1, hb]
    rfl
  have hbid := h.solvent.orders cur hat.1
  obtain ⟨w, hpaid, heq⟩ := fillMaker_sell lp cur trade p hb
  rw [fillDebit_mask] at hpaid heq
  have hcost := sell_afforded h.solvent hk hb hcross hat hle
  have hworders := hpaid.quiet.orders
  have hmem : cur ∈ w.orders.keys := by
    rw [hworders]
    exact hat.1
  have hmemEdit : ∀ (b : Book) f, cur ∈ (b.editOrder cur f).orders.keys :=
    fun _ _ => Finset.mem_insert_self ..
  have hlive : (w.orders.get cur).amount ≠ 0 := by
    rw [hworders]
    exact hlinked.live cur hat.1
  have hrest : (p.book.orders.get cur).amount ≠ trade →
      fillDebit ((p.book.orders.get cur).amount - trade) (p.book.orders.get cur).price
        (p.book.orders.get cur).flags ≤
      (p.book.orders.get cur).escrow -
        fillDebit trade k.price (p.book.orders.get cur).flags := by
    intro hne
    refine fillDebit_rest ?_ hle hprice (hbid.escrow hbuy)
    by_contra hsub
    have := hsuit.maker (hbid.whole hbuy hsub)
    omega
  have hunder : w.underflow = p.book.underflow := by
    rw [hpaid.underflow, decide_eq_false (not_lt.mpr hcost), Bool.or_false]
  have haccount := fun t a (ht : t ≠ 0) => paid_account (t := t) (a := a) hpaid ht
  rw [heq] at hone ⊢
  dsimp only at hone ⊢
  generalize fillDebit trade k.price (p.book.orders.get cur).flags = cost
    at hone hcost hrest haccount ⊢
  -- the bid with its debit and its fill written down
  obtain ⟨b, hbdef⟩ : ∃ b, b = (w.editOrder cur fun o =>
      { o with escrow := (p.book.orders.get cur).escrow - cost }).editOrder cur fun o =>
      { o with filledAccum := o.filledAccum + trade } := ⟨_, rfl⟩
  have hbget : b.orders.get cur = { p.book.orders.get cur with
      escrow := (p.book.orders.get cur).escrow - cost
      filledAccum := (p.book.orders.get cur).filledAccum + trade } := by
    rw [hbdef, editOrder_get, editOrder_get, hworders]
  have hbmem : cur ∈ b.orders.keys := by
    rw [hbdef]
    exact hmemEdit _ _
  have hblinked : Linked b := by
    rw [hbdef]
    refine editOrder_linked (editOrder_linked (hpaid.quiet.linked hlinked) hmem
      inPlace_escrow hlive) (hmemEdit _ _) inPlace_filledAccum ?_
    rw [editOrder_get]
    exact hlive
  have hbflags : b.underflow = p.book.underflow ∧ b.shortfall = p.book.shortfall := by
    rw [hbdef]
    exact ⟨hunder, hpaid.shortfall⟩
  have hbaccount : ∀ t a, t ≠ 0 → account t a b = account t a p.book := by
    intro t a ht
    have h1 := haccount t a ht
    have h2 := editOrder_account (t := t) (a := a) hmem
      (f := fun o => { o with escrow := (p.book.orders.get cur).escrow - cost }) (fun _ => rfl)
    have h3 := editOrder_account (t := t) (a := a) (hmemEdit w fun o =>
      { o with escrow := (p.book.orders.get cur).escrow - cost })
      (f := fun o => { o with filledAccum := o.filledAccum + trade }) (fun _ => rfl)
    rw [← hbdef, editOrder_get] at h3
    rw [hworders] at h2 h3
    dsimp only at h2 h3
    split at h2 <;> simp_all
  rw [← hbdef] at hone ⊢
  by_cases hwhole : (p.book.orders.get cur).amount = trade
  · rw [if_pos hwhole] at hone ⊢
    have hgone := refundAndRemove_gone .filled hblinked hbmem
    refine ⟨h.trimmed.trans hone.toTrimmed, ?_, fun hbuy' => by simp [hb] at hbuy',
      fun t a ht hmine => ?_⟩
    · exact h.solvent.one hone (fun hm => absurd hm hgone.notMem)
        (hgone.underflow.trans hbflags.1) (hgone.shortfall.trans hbflags.2)
    · obtain ⟨hmine', hacc⟩ := h.accounts t a ht hmine
      refine ⟨hmine'.one hone fun hm => absurd hm hgone.notMem, ?_⟩
      dsimp only
      rw [hgone.kept t a ht (by rw [hbget]; exact hmine' cur hat.1), hbaccount t a ht]
      exact hacc
  · rw [if_neg hwhole] at hone ⊢
    refine ⟨h.trimmed.trans hone.toTrimmed, ?_, fun hbuy' => by simp [hb] at hbuy',
      fun t a ht hmine => ?_⟩
    · refine h.solvent.one hone (fun _ => ?_) hbflags.1 hbflags.2
      dsimp only
      rw [editOrder_get, hbget]
      exact ⟨fun hf => by simp [hbuy] at hf, hbid.whole, fun _ => hrest hwhole⟩
    · obtain ⟨hmine', hacc⟩ := h.accounts t a ht hmine
      refine ⟨hmine'.one hone fun _ => ?_, ?_⟩
      · dsimp only
        rw [editOrder_get, hbget]
        exact hmine' cur hat.1
      · have h1 := editOrder_account (t := t) (a := a) hbmem
          (f := fun o => { o with amount := (p.book.orders.get cur).amount - trade })
          (fun _ => rfl)
        have h2 := hbaccount t a ht
        dsimp only at h1 ⊢
        omega

theorem walk_step {budget : ℕ} (h : Walk k s budget p) (hk : Ready k)
    (hcross : crosses k.isBuy k.price k.isMarket lp = true) (hat : At k lp cur p.book)
    (hrem : p.remaining ≠ 0) : Walk k s budget (matchMaker k lp cur p).1 := by
  have hoffer : k.isBuy = true → (p.book.orders.get cur).tag = 0 := fun hb =>
    (h.solvent.orders cur hat.1).offer (by rw [hat.2.1, hb]; rfl)
  rcases matchMaker_outcomes h.solvent hk hcross hat with
    heq | ⟨b, hdrop, heq⟩ | ⟨trade, -, hsuit, heq⟩
  · rw [heq]
    exact h
  · have hgone := drops_gone h.trimmed.linked hat.1 hoffer hdrop
    rw [heq]
    refine ⟨h.trimmed.trans hgone.toTrimmed, gone_solvent hgone h.solvent, h.covered,
      fun t a ht hmine => ?_⟩
    obtain ⟨hmine', hacc⟩ := h.accounts t a ht hmine
    obtain ⟨h1, h2⟩ := gone_carries hgone hat.1 t a ht hmine'
    rw [h2]
    exact ⟨h1, hacc⟩
  · rw [heq]
    cases hb : k.isBuy with
    | true => exact walk_fill_buy h hk hb hcross hat hrem hsuit
    | false => exact walk_fill_sell h hk hb hcross hat hsuit

theorem matchTaker_walk (amount budget resume : ℕ) (hlinked : Linked s) (hs : Solvent s)
    (hk : Ready k)
    (hcov : k.isBuy = true → k.isMarket = false → fillDebit amount k.price k.flags ≤ budget) :
    Walk k s budget (matchTaker k amount budget resume s).1 ∧
    ∀ c, (matchTaker k amount budget resume s).2 = some c →
      (matchTaker k amount budget resume s).1.remaining ≠ 0 :=
  matchTaker_rule (I := Walk k s budget) (fun _ hp => hp.trimmed.linked)
    (fun _ _ _ hcross hp hat hrem => walk_step hp hk hcross hat hrem)
    ⟨.refl hlinked, hs, fun hb hm => .inr (hcov hb hm), fun _ _ _ hm => ⟨hm, rfl⟩⟩

/-! ## Running the head -/

structure Funded (s : Book) : Prop where
  solvent : Solvent s
  entries : ∀ j, CoveredEntry (s.queue.get j)

def MineAll (t : ℕ) (a : Address) (s : Book) : Prop :=
  Mine t a s ∧ ∀ j, (s.queue.get j).tag = t → (s.queue.get j).owner = a

def holding (t : ℕ) (a : Address) (s : Book) : ℕ := account t a s + queued t s

structure Balanced (s u : Book) : Prop where
  funded : Funded u
  bids : u.bids = s.bids
  accounts : ∀ t a, t ≠ 0 → MineAll t a s → MineAll t a u ∧ holding t a u = holding t a s

/-- The entry `e` is done with: its escrow is on the account of its BUY. -/
structure Closes (e : QueueEntry) (s u : Book) : Prop where
  solvent : Solvent u
  queue : u.queue = s.queue
  queueHead : u.queueHead = s.queueHead
  bids : u.bids = s.bids
  accounts : ∀ t a, t ≠ 0 → Mine t a s → (e.tag = t → e.owner = a) →
    Mine t a u ∧ account t a u = account t a s + if e.tag = t then held e else 0

theorem Closes.balanced (h : Closes (s.queue.get s.queueHead) s u) (hs : Sound s)
    (hsize : s.queueSize ≠ 0) (hf : Funded s) : Balanced s (advanceHead u) := by
  have hhead := hs.window.head_mem hsize
  have hget : ∀ j, j ≠ s.queueHead → (advanceHead u).queue.get j = s.queue.get j := by
    intro j hj
    rw [← h.queueHead] at hj
    rw [← h.queue]
    exact Mapping.get_delete_ne hj
  have hnone : (advanceHead u).queue.get s.queueHead = default := by
    rw [← h.queueHead]
    exact Mapping.absent _ _ (Finset.notMem_erase u.queueHead _)
  have hkeys : (advanceHead u).queue.keys = s.queue.keys.erase s.queueHead := by
    unfold advanceHead
    dsimp only
    rw [Mapping.keys_delete, h.queue, h.queueHead]
  refine ⟨⟨{ h.solvent with }, fun j => ?_⟩, h.bids, fun t a ht hmine => ?_⟩
  · by_cases hj : j = s.queueHead
    · rw [hj, hnone]
      exact ⟨fun _ => rfl, fun _ => ⟨rfl, rfl⟩, nofun, nofun, nofun, nofun⟩
    · rw [hget j hj]
      exact hf.entries j
  · obtain ⟨hm, hacc⟩ := h.accounts t a ht hmine.1 (hmine.2 _)
    refine ⟨⟨hm, fun j => ?_⟩, ?_⟩
    · by_cases hj : j = s.queueHead
      · rw [hj, hnone]
        exact fun htag => absurd htag (Ne.symm ht)
      · rw [hget j hj]
        exact hmine.2 j
    · have hqueue := Mapping.total_erase (w := (advanceHead u).queue)
        (f := fun e : QueueEntry => if e.tag = t then held e else 0) hhead hkeys (fun j hj => by
          rw [hkeys] at hj
          rw [hget j (Finset.mem_erase.mp hj).1])
      have hsame : account t a (advanceHead u) = account t a u := rfl
      unfold holding queued
      rw [hsame, hacc]
      omega

theorem Closes.of_carries (he : e.tag = 0) (hs : Solvent u) (ht : Trimmed s u)
    (hc : Carries s u) : Closes e s u := by
  refine ⟨hs, ht.queue, ht.queueHead, ht.bids, fun t a hne hmine _ => ?_⟩
  obtain ⟨h1, h2⟩ := hc t a hne hmine
  rw [he, if_neg (Ne.symm hne)]
  exact ⟨h1, h2⟩

theorem Closes.of_quiet (hs : Solvent s) (hq : Quiet s u) (hu : u.underflow = s.underflow)
    (hsf : u.shortfall = s.shortfall)
    (hacc : ∀ t a, t ≠ 0 → (e.tag = t → e.owner = a) →
      account t a u = account t a s + if e.tag = t then held e else 0) : Closes e s u := by
  have horders := hq.orders
  refine ⟨⟨fun id hid => ?_, hu.trans hs.underflow, hsf.trans hs.shortfall⟩, ?_, ?_, ?_,
    fun t a ht hmine hown => ⟨fun id hid => ?_, hacc t a ht hown⟩⟩
  · rw [horders] at hid ⊢
    exact hs.orders id hid
  · rw [hq]
  · rw [hq]
  · rw [hq]
  · rw [horders] at hid ⊢
    exact hmine id hid

theorem dropLapsed_closes (hs : Solvent s) (he : CoveredEntry e) :
    Closes e s (dropLapsed e s) := by
  refine .of_quiet hs dropLapsed_quiet ?_ ?_ fun t a ht hown => ?_
  · unfold dropLapsed rejectToNote freeDeal
    dsimp only
    split_ifs <;> rfl
  · unfold dropLapsed rejectToNote freeDeal
    dsimp only
    split_ifs <;> rfl
  · have hfree : account t a (if e.isBuy = true then s else freeDeal e.tokenContract s) =
        account t a s := by
      split
      · rfl
      · exact account_freeDeal ht
    have hsent : ∀ (o o' : Out) (b : Book), account t a (if e.contOrderId = 0 then b.send o
        else b.send o') = account t a b := by
      intro o o' b
      split
      · exact account_send ht
      · exact account_send ht
    unfold dropLapsed rejectToNote
    rw [account_sendFor, hsent, hfree]
    by_cases htag : e.tag = t
    · have hbuy : e.isBuy = true := by
        by_contra hb
        exact ht (htag.symm.trans (he.offer (by simpa using hb)).1)
      simp [htag, hbuy, debitOf, refundOf, hown htag, held]
    · simp [htag]

theorem refusePlacement_closes {reason : PlaceRej} (hs : Solvent s) (he : CoveredEntry e)
    (hfirst : e.contOrderId = 0) : Closes e s (refusePlacement reason e s) := by
  refine .of_quiet hs refusePlacement_quiet ?_ ?_ fun t a ht hown => ?_
  · unfold refusePlacement rejectToNote freeDeal
    dsimp only
    split_ifs <;> rfl
  · unfold refusePlacement rejectToNote freeDeal
    dsimp only
    split_ifs <;> rfl
  · have hfree : account t a (if e.isBuy = true then s else freeDeal e.tokenContract s) =
        account t a s := by
      split
      · rfl
      · exact account_freeDeal ht
    unfold refusePlacement rejectToNote
    rw [account_sendFor, account_send ht, hfree]
    by_cases htag : e.tag = t
    · have hbuy : e.isBuy = true := by
        by_contra hb
        exact ht (htag.symm.trans (he.offer (by simpa using hb)).1)
      have hback : (if e.escrow > 0 then e.escrow else 0) = e.escrow := by
        split <;> omega
      simp [htag, hbuy, debitOf, refundOf, hown htag, held, hfirst, hback]
    · simp [htag]

theorem ready_takerOf (he : CoveredEntry e) : Ready (takerOf id e) := by
  refine ⟨fun hb => ?_, he.whole, fun hb hsub => ?_⟩
  · obtain ⟨h1, h2⟩ := he.offer hb
    exact ⟨h1, by simp [takerOf, h2]⟩
  · simp [takerOf, he.limit hb hsub]

/-- The rest of a placement joins the book. -/
theorem insertIntoBook_closes {o : Order} {c : Prop} [Decidable c]
    (hw : Walk (takerOf id e) s (held e) p) (hid : id ≠ 0)
    (hold : ∀ j ∈ s.orders.keys, j < id) (hamount : o.amount ≠ 0)
    (ho : CoveredOrder o.toTerms) (htag : o.tag = e.tag) (hnote : o.note = e.owner)
    (hescrow : e.tag ≠ 0 → o.escrow = p.leftoverEscrow) :
    Closes e s (insertIntoBook id o (p.book.check c)) := by
  have hlinked : Linked (p.book.check c) := check_quiet.linked hw.trimmed.linked
  have hmax : ∀ j ∈ p.book.orders.keys, j < id := fun j hj => hold j (hw.trimmed.keys hj)
  have hin := insertIntoBook_insertion (o := o) hlinked hid hmax hamount
  have hf := hin.frame
  have hsplit : ∀ j, j ∈ (insertIntoBook id o (p.book.check c)).orders.keys →
      j = id ∨ j ∈ p.book.orders.keys := by
    intro j hj
    rw [hin.keys] at hj
    exact Finset.mem_insert.mp hj
  refine ⟨⟨fun j hj => ?_, ?_, ?_⟩, ?_, ?_, ?_, fun t a ht hmine hown => ⟨fun j hj => ?_, ?_⟩⟩
  · rcases hsplit j hj with rfl | hj
    · rw [hin.added]
      exact ho
    · rw [hin.terms j hj]
      exact hw.solvent.orders j hj
  · rw [hf]
    exact hw.solvent.underflow
  · rw [hf]
    exact hw.solvent.shortfall
  · rw [hf]
    exact hw.trimmed.queue
  · rw [hf]
    exact hw.trimmed.queueHead
  · rw [hf]
    exact hw.trimmed.bids
  · rcases hsplit j hj with rfl | hj
    · rw [congrArg Terms.tag hin.added, congrArg Terms.note hin.added, htag, hnote]
      exact hown
    · rw [congrArg Terms.tag (hin.terms j hj), congrArg Terms.note (hin.terms j hj)]
      exact (hw.accounts t a ht hmine).1 j hj
  · have hsame : account t a (p.book.check c) = account t a p.book := rfl
    have hacc := (hw.accounts t a ht hmine).2
    rw [insertIntoBook_account hlinked hid hmax hamount ht, hsame, htag]
    have hk : (takerOf id e).tag = e.tag := rfl
    rw [hk] at hacc
    by_cases htt : e.tag = t
    · rw [if_pos htt, if_pos htt] at hacc
      rw [if_pos htt, if_pos htt, hescrow (htt ▸ ht)]
      exact hacc
    · rw [if_neg htt, if_neg htt] at hacc
      rw [if_neg htt, if_neg htt]
      exact hacc

theorem Closes.of_walk (hw : Walk (takerOf id e) s (held e) p) (hq : Quiet p.book u)
    (hu : u.underflow = p.book.underflow) (hsf : u.shortfall = p.book.shortfall)
    (hacc : ∀ t a, t ≠ 0 → (e.tag = t → e.owner = a) →
      account t a u = account t a p.book + if e.tag = t then p.leftoverEscrow else 0) :
    Closes e s u := by
  have horders := hq.orders
  have htrim := hw.trimmed
  refine ⟨⟨fun j hj => ?_, hu.trans hw.solvent.underflow, hsf.trans hw.solvent.shortfall⟩, ?_,
    ?_, ?_, fun t a ht hmine hown => ⟨fun j hj => ?_, ?_⟩⟩
  · rw [horders] at hj ⊢
    exact hw.solvent.orders j hj
  · rw [hq]
    exact htrim.queue
  · rw [hq]
    exact htrim.queueHead
  · rw [hq]
    exact htrim.bids
  · rw [horders] at hj ⊢
    exact (hw.accounts t a ht hmine).1 j hj
  · rw [hacc t a ht hown]
    exact (hw.accounts t a ht hmine).2

theorem finalizeTaker_closes (hw : Walk (takerOf id e) s (held e) p) (he : CoveredEntry e)
    (hid : id ≠ 0) (hold : ∀ j ∈ s.orders.keys, j < id) :
    Closes e s (finalizeTaker id e p.remaining p.leftoverEscrow p.book) := by
  unfold finalizeTaker rejectToNote
  dsimp only
  split
  · rename_i hb
    split
    · refine .of_walk hw (sendFor_quiet.trans sendFor_quiet) rfl rfl fun t a ht hown => ?_
      rw [account_sendFor, account_send ht]
      by_cases htag : e.tag = t
      · simp [htag, debitOf, refundOf, hown htag]
      · simp [htag]
    · rename_i hrest
      obtain ⟨hmin, honly⟩ := not_or.mp hrest
      have hmarket : e.flags &&& flagMarket = 0 := not_not.mp (not_or.mp honly).1
      have hcov : p.remaining = 0 ∨ fillDebit p.remaining e.price e.flags ≤ p.leftoverEscrow :=
        hw.covered hb (by simp [takerOf, hmarket])
      refine insertIntoBook_closes hw hid hold ?_
        ⟨by intros; contradiction, fun _ => he.whole hb, fun _ => ?_⟩ rfl
        rfl (fun _ => rfl)
      · dsimp only
        omega
      · exact hcov.resolve_left (by omega)
  · rename_i hb
    obtain ⟨htag, -⟩ := he.offer (by simpa using hb)
    have hstill : ∀ {b : Book}, (∀ t a, t ≠ 0 → account t a b = account t a p.book) →
        ∀ t a, t ≠ 0 → (e.tag = t → e.owner = a) →
          account t a b = account t a p.book + if e.tag = t then p.leftoverEscrow else 0 := by
      intro b hb t a ht _
      rw [hb t a ht, htag, if_neg (Ne.symm ht)]
      rfl
    split
    · rename_i hrest
      refine insertIntoBook_closes hw hid hold ?_
        ⟨fun _ => rfl, by intros; contradiction, by intros; contradiction⟩ htag.symm rfl
        (fun hne => absurd htag hne)
      dsimp only
      omega
    split
    · refine .of_walk hw (sendFor_quiet.trans sendFor_quiet) rfl rfl (hstill fun t a ht => ?_)
      rw [account_send ht, account_send ht]
    · exact .of_walk hw rfl rfl rfl (hstill fun _ _ _ => rfl)

def Settles (s : Book) (r : Book × Bool) : Prop :=
  Balanced s (if r.2 then r.1 else advanceHead r.1)

theorem runPlace_settles {amount escrow : ℕ} (resume : ℕ) (hs : Sound s) (hsize : s.queueSize ≠ 0)
    (hf : Funded s) (he : e = s.queue.get s.queueHead) (hheld : escrow = held e)
    (hcov : e.isBuy = true → e.flags &&& flagMarket = 0 →
      fillDebit amount e.price e.flags ≤ held e)
    (hid : id ≠ 0) (hold : ∀ j ∈ s.orders.keys, j < id) :
    Settles s (runPlace id amount escrow resume e s) := by
  have hentry : CoveredEntry e := he ▸ hf.entries _
  have hwalk := matchTaker_walk (k := takerOf id e) amount (held e) resume hs.linked hf.solvent (ready_takerOf hentry)
    (fun hb hm => hcov hb (by simpa [takerOf] using hm))
  unfold runPlace
  rw [hheld]
  generalize matchTaker _ _ _ _ _ = r at hwalk ⊢
  obtain ⟨p, c⟩ := r
  dsimp only at hwalk
  obtain ⟨hw, hrem⟩ := hwalk
  cases c with
  | none =>
    have hclosed := finalizeTaker_closes hw hentry hid hold
    rw [he] at hclosed ⊢
    exact hclosed.balanced hs hsize hf
  | some cur =>
    have htrim := hw.trimmed
    have hhead := hs.window.head_mem hsize
    have hrem := hrem cur rfl
    unfold Settles
    dsimp only
    rw [if_pos rfl, htrim.queue, htrim.queueHead]
    refine ⟨⟨{ hw.solvent with }, fun j => ?_⟩, htrim.bids, fun t a ht hmine => ?_⟩
    · by_cases hj : j = s.queueHead
      · subst hj
        rw [Mapping.get_set]
        refine ⟨hentry.kind, hentry.offer, hentry.whole, hentry.limit,
          fun _ _ h => absurd h hid, fun hb hm _ => ?_⟩
        exact (hw.covered hb (by simpa [takerOf] using hm)).resolve_left hrem
      · rw [Mapping.get_set_ne hj]
        exact hf.entries j
    · obtain ⟨hm, hacc⟩ := hw.accounts t a ht hmine.1
      refine ⟨⟨hm, fun j => ?_⟩, ?_⟩
      · by_cases hj : j = s.queueHead
        · subst hj
          rw [Mapping.get_set]
          dsimp only
          rw [he]
          exact hmine.2 _
        · dsimp only
          rw [Mapping.get_set_ne hj]
          exact hmine.2 j
      · have hqueue := Mapping.total_set (m := s.queue) (k := s.queueHead)
          (v := { e with
            contOrderId := id, contRemaining := p.remaining, contLeftover := p.leftoverEscrow
            contScanOrder := cur })
          (f := fun e : QueueEntry => if e.tag = t then held e else 0) hhead
        rw [← he] at hqueue
        have hnew : held { e with
            contOrderId := id, contRemaining := p.remaining, contLeftover := p.leftoverEscrow
            contScanOrder := cur } = p.leftoverEscrow := if_neg hid
        rw [hnew] at hqueue
        dsimp only at hqueue
        have hk : (takerOf id e).tag = e.tag := rfl
        rw [hk] at hacc
        unfold holding queued
        dsimp only
        change account t a p.book + _ = _
        omega

theorem Balanced.of_quiet (hf : Funded s) (hq : Quiet s u) (hu : u.underflow = s.underflow)
    (hsf : u.shortfall = s.shortfall) (hacc : ∀ t a, t ≠ 0 → account t a u = account t a s) :
    Balanced s u := by
  have horders := hq.orders
  have hqueue : u.queue = s.queue := by rw [hq]
  refine ⟨⟨⟨fun j hj => ?_, hu.trans hf.solvent.underflow, hsf.trans hf.solvent.shortfall⟩,
    fun j => ?_⟩, by rw [hq], fun t a ht hmine => ⟨⟨fun j hj => ?_, fun j => ?_⟩, ?_⟩⟩
  · rw [horders] at hj ⊢
    exact hf.solvent.orders j hj
  · rw [hqueue]
    exact hf.entries j
  · rw [horders] at hj ⊢
    exact hmine.1 j hj
  · rw [hqueue]
    exact hmine.2 j
  · unfold holding queued
    rw [hacc t a ht, hqueue]

theorem Balanced.trans (h : Balanced s u) (h' : Balanced u v) : Balanced s v := by
  refine ⟨h'.funded, h'.bids.trans h.bids, fun t a ht hmine => ?_⟩
  obtain ⟨h1, h2⟩ := h.accounts t a ht hmine
  obtain ⟨h3, h4⟩ := h'.accounts t a ht h1
  exact ⟨h3, h4.trans h2⟩

theorem numbered_sound {o : Out} {c : Prop} [Decidable c] (h : Sound s) :
    Sound (Book.send { s.check c with nextOrderId := s.nextOrderId + 1 } o) := by
  refine ⟨{ h.linked with }, h.window, Nat.succ_ne_zero _,
    fun id hid => (h.ids id hid).trans (Nat.lt_succ_self _), fun j hj => ?_⟩
  obtain ⟨h1, h2, h3⟩ := h.cont j hj
  exact ⟨h1, h2.trans (Nat.lt_succ_self _), h3⟩

theorem doPlaceHead_settles (hs : Sound s) (hsize : s.queueSize ≠ 0) (hf : Funded s) :
    Settles s (doPlaceHead s) := by
  have hentry := hf.entries s.queueHead
  unfold doPlaceHead
  dsimp only
  split
  · exact (dropLapsed_closes hf.solvent hentry).balanced hs hsize hf
  split
  · rename_i hfirst
    split
    · exact (refusePlacement_closes hf.solvent hentry hfirst).balanced hs hsize hf
    split
    · exact (refusePlacement_closes hf.solvent hentry hfirst).balanced hs hsize hf
    · have hheld : held (s.queue.get s.queueHead) = (s.queue.get s.queueHead).escrow :=
        if_pos hfirst
      obtain ⟨o, ho⟩ : ∃ o, o = Out.inferenceOrderPlaced s.nextOrderId
        (s.queue.get s.queueHead).isBuy (s.queue.get s.queueHead).price
        (s.queue.get s.queueHead).amount (s.queue.get s.queueHead).owner
        (s.queue.get s.queueHead).tokenContract (s.queue.get s.queueHead).deadline
        (s.queue.get s.queueHead).flags := ⟨_, rfl⟩
      have hacc : ∀ t a, t ≠ 0 → account t a (Book.send { s.check (s.nextOrderId + 1 < u128) with
          nextOrderId := s.nextOrderId + 1 } o) = account t a s := by
        intro t a ht
        rw [account_send ht]
        rfl
      rw [← ho]
      have hsettles := runPlace_settles 0 (numbered_sound hs) hsize
        (s := Book.send { s.check (s.nextOrderId + 1 < u128) with
          nextOrderId := s.nextOrderId + 1 } o)
        ⟨{ hf.solvent with }, hf.entries⟩ rfl hheld.symm
        (fun hb hm => hheld ▸ hentry.first hb hm hfirst) hs.next_ne hs.ids
      refine ⟨hsettles.funded, hsettles.bids, fun t a ht hmine => ?_⟩
      obtain ⟨h1, h2⟩ := hsettles.accounts t a ht hmine
      refine ⟨h1, h2.trans ?_⟩
      unfold holding
      rw [hacc t a ht]
      rfl
  · rename_i hcont
    have hheld : held (s.queue.get s.queueHead) = (s.queue.get s.queueHead).contLeftover :=
      if_neg hcont
    exact runPlace_settles _ hs hsize hf rfl hheld.symm
      (fun hb hm => hheld ▸ hentry.again hb hm hcont) hcont (hs.cont _ hcont).2.2

/-! ## Cancels and expiries -/

theorem doCancel_carries {owner : Address} (hl : Linked s) (hs : Solvent s) :
    Solvent (doCancel owner id s) ∧ Carries s (doCancel owner id s) := by
  have hreject : ∀ reason, Solvent (rejectCancel id reason owner s) ∧
      Carries s (rejectCancel id reason owner s) := by
    intro reason
    refine ⟨{ hs with }, fun t a ht hmine => ⟨hmine, ?_⟩⟩
    unfold rejectCancel
    rw [account_send ht, account_send ht]
  unfold doCancel
  dsimp only
  split
  · exact hreject _
  rename_i hfound
  split
  · exact hreject _
  rename_i hown
  have hid : id ∈ s.orders.keys := by
    by_contra hid
    rw [s.orders.absent id hid] at hfound
    exact hfound ⟨rfl, rfl⟩
  have hgone := cancelRemove_gone hl hid (not_not.mp hown)
  exact ⟨gone_solvent hgone hs, gone_carries hgone hid⟩

theorem cancelAllFrom_carries {owner : Address} : ∀ (left : ℕ) {cur : ℕ} {s : Book}, Linked s →
    Solvent s → (cur ≠ 0 → cur ∈ s.orders.keys ∧ (s.orders.get cur).note = owner) →
    Solvent (cancelAllFrom owner left cur s).1 ∧ Carries s (cancelAllFrom owner left cur s).1 := by
  intro left
  induction left with
  | zero =>
    intro cur s _ hs _
    exact ⟨hs, .refl⟩
  | succ left ih =>
    intro cur s hl hs hcur
    unfold cancelAllFrom
    split
    · exact ⟨hs, .refl⟩
    rename_i hne
    obtain ⟨hmem, hnote⟩ := hcur hne
    have hgone := cancelRemove_gone hl hmem hnote
    obtain ⟨h1, h2⟩ := ih hgone.linked (gone_solvent hgone hs)
      (ownerNext hl hmem hnote hgone.toOneMaker)
    exact ⟨h1, (gone_carries hgone hmem).trans h2⟩

theorem doExpire_carries (hl : Linked s) (hs : Solvent s) :
    Solvent (doExpire id s) ∧ Carries s (doExpire id s) := by
  unfold doExpire
  dsimp only
  split
  · exact ⟨hs, .refl⟩
  rename_i hfound
  split
  · exact ⟨hs, .refl⟩
  have hid : id ∈ s.orders.keys := by
    by_contra hid
    rw [s.orders.absent id hid] at hfound
    exact hfound ⟨rfl, rfl⟩
  split
  · have hgone := removeExpiredBid_gone hl hid
    exact ⟨gone_solvent hgone hs, gone_carries hgone hid⟩
  · rename_i hb
    have hgone := removeExpiredSell_gone hl hid ((hs.orders id hid).offer (by simpa using hb))
    exact ⟨gone_solvent hgone hs, gone_carries hgone hid⟩

theorem runHead_settles (hs : Sound s) (hsize : s.queueSize ≠ 0) (hf : Funded s) :
    Settles s (runHead s) := by
  have hentry := hf.entries s.queueHead
  have htag : (s.queue.get s.queueHead).entryType ≠ .place → (s.queue.get s.queueHead).tag = 0 :=
    fun hkind => (hentry.offer (hentry.kind hkind)).1
  have hcloses : ∀ {u}, (s.queue.get s.queueHead).entryType ≠ .place →
      Solvent u ∧ Carries s u → Trimmed s u → Balanced s (advanceHead u) := fun hkind h ht =>
    (Closes.of_carries (htag hkind) h.1 ht h.2).balanced hs hsize hf
  unfold runHead
  dsimp only
  split
  · rename_i hkind
    exact hcloses (by rw [hkind]; nofun) (doCancel_carries hs.linked hf.solvent)
      (doCancel_trimmed hs.linked)
  · rename_i hkind
    have hcarry := cancelAllFrom_carries maxCancelPerCall hs.linked hf.solvent
      (fun hne => hs.linked.owners.first_mem (k := (s.queue.get s.queueHead).owner) hne)
    have htrim := doCancelAll_trimmed (s.queue.get s.queueHead).owner hs.linked
    unfold Settles
    dsimp only
    split
    · obtain ⟨h1, h2⟩ := hcarry
      refine ⟨⟨h1, fun j => ?_⟩, htrim.bids, fun t a ht hmine => ?_⟩
      · rw [htrim.queue]
        exact hf.entries j
      · obtain ⟨h3, h4⟩ := h2 t a ht hmine.1
        refine ⟨⟨h3, fun j => ?_⟩, ?_⟩
        · rw [htrim.queue]
          exact hmine.2 j
        · unfold holding queued
          rw [htrim.queue, ← h4]
          rfl
    · exact hcloses (by rw [hkind]; nofun) hcarry htrim
  · rename_i hkind
    exact hcloses (by rw [hkind]; nofun) (doExpire_carries hs.linked hf.solvent)
      (doExpire_trimmed hs.linked)
  · exact doPlaceHead_settles hs hsize hf
  · exact doPlaceHead_settles hs hsize hf

theorem processHeadCore_balanced (hs : Sound s) (hf : Funded s) :
    Balanced s (processHeadCore s) := by
  unfold processHeadCore
  split
  · exact ⟨hf, rfl, fun _ _ _ hm => ⟨hm, rfl⟩⟩
  rename_i hsize
  have hsettles := runHead_settles hs hsize hf
  unfold Settles at hsettles
  dsimp only
  generalize (if (runHead s).2 = true then (runHead s).1 else advanceHead (runHead s).1) = u
    at hsettles ⊢
  split
  · exact hsettles.trans (.of_quiet hsettles.funded sendFor_quiet rfl rfl fun t a ht =>
      account_send ht)
  · exact hsettles

/-! ## Transactions -/

/-- The escrow an entry brings joins the account of its BUY. -/
structure Charged (tag : ℕ) (owner : Address) (escrow : ℕ) (s u : Book) : Prop where
  funded : Funded u
  accounts : ∀ t a, t ≠ 0 → MineAll t a s → (tag = t → owner = a) →
    MineAll t a u ∧ holding t a u = holding t a s + if tag = t then escrow else 0

theorem Charged.of_balanced {owner : Address} {escrow : ℕ} (h : Balanced s u) :
    Charged 0 owner escrow s u := by
  refine ⟨h.funded, fun t a ht hmine _ => ?_⟩
  rw [if_neg (Ne.symm ht)]
  exact h.accounts t a ht hmine

theorem enqueue_charged (hs : Sound s) (hsize : s.queueSize < queueCapacity) (hf : Funded s)
    (he : CoveredEntry e) (hcont : e.contOrderId = 0) :
    Charged e.tag e.owner e.escrow s (enqueue e s) := by
  have hget : ∀ j, j ≠ s.queueTail → (enqueue e s).queue.get j = s.queue.get j :=
    fun j hj => Mapping.get_set_ne hj
  have hnew : (enqueue e s).queue.get s.queueTail = e := Mapping.get_set
  refine ⟨⟨{ hf.solvent with }, fun j => ?_⟩, fun t a ht hmine hown => ⟨⟨hmine.1, fun j => ?_⟩, ?_⟩⟩
  · by_cases hj : j = s.queueTail
    · rw [hj, hnew]
      exact he
    · rw [hget j hj]
      exact hf.entries j
  · by_cases hj : j = s.queueTail
    · rw [hj, hnew]
      exact hown
    · rw [hget j hj]
      exact hmine.2 j
  · have htail := hs.window.tail_notMem hsize
    have hqueue := Mapping.total_insert (w := (enqueue e s).queue)
      (f := fun e : QueueEntry => if e.tag = t then held e else 0) htail rfl
      (fun j hj => by rw [hget j (fun h => htail (h ▸ hj))])
    have hheld : held e = e.escrow := if_pos hcont
    rw [hnew, hheld] at hqueue
    have hsame : account t a (enqueue e s) = account t a s := rfl
    unfold holding queued
    rw [hsame, hqueue]
    omega

theorem submit_charged (hs : Sound s) (hsize : s.queueSize < queueCapacity) (hf : Funded s)
    (he : CoveredEntry e) (hcont : e.contOrderId = 0) :
    Charged e.tag e.owner e.escrow s (processHeadCore (enqueue e s)) ∧
      (processHeadCore (enqueue e s)).bids = s.bids := by
  have hin := enqueue_charged hs hsize hf he hcont
  have hrun := processHeadCore_balanced (enqueue_sound hs hsize hcont) hin.funded
  refine ⟨⟨hrun.funded, fun t a ht hmine hown => ?_⟩, hrun.bids⟩
  obtain ⟨h1, h2⟩ := hin.accounts t a ht hmine hown
  obtain ⟨h3, h4⟩ := hrun.accounts t a ht h1
  exact ⟨h3, h4.trans h2⟩

def tagOf (c : Call) (s : Book) : ℕ :=
  match c with
  | .placeBuyOrder .. => s.bids + 1
  | _ => 0

def escrowOf : Call → ℕ
  | .placeBuyOrder _ escrow _ _ _ _ _ _ => escrow
  | _ => 0

theorem covered_plain {kind : EntryType} {owner : Address} {target : ℕ} :
    CoveredEntry { entryType := kind, owner := owner, targetOrderId := target } :=
  ⟨fun _ => rfl, fun _ => ⟨rfl, Nat.zero_and _⟩, nofun, nofun, nofun, nofun⟩

theorem offer_covered {p n f d : ℕ} {owner tc : Address} (h : ¬ badOffer p n f d) :
    CoveredEntry { entryType := .place, owner := owner, flags := f, price := p, amount := n
                   tokenContract := tc, deadline := d } := by
  have hmarket : f &&& flagMarket = 0 := by
    by_contra hm
    exact h (.inr (.inr (.inr (.inl hm))))
  exact ⟨fun _ => rfl, fun _ => ⟨rfl, hmarket⟩, nofun, nofun, nofun, nofun⟩

theorem bid_covered {c e p n f d k tag : ℕ} {owner : Address}
    (hwhole : f &&& flagSubscription ≠ 0 → f &&& flagAon ≠ 0)
    (hlimit : f &&& flagSubscription ≠ 0 → ¬ f &&& flagMarket ≠ 0)
    (hcover : ¬ f &&& flagMarket ≠ 0 → e ≥ n * unit p +
      if f &&& flagSubscription ≠ 0 then 2 * p else 0) :
    CoveredEntry { entryType := .place, owner := owner, buyerPubkey := k, isBuy := true
                   flags := f, price := if f &&& flagMarket ≠ 0 then maxPrice else p, amount := n
                   escrow := e, deadline := d, clientOrderId := c, tag := tag } := by
  refine ⟨fun h => absurd rfl h, nofun, fun _ => hwhole, fun _ hsub => not_not.mp (hlimit hsub),
    fun _ hm _ => ?_, fun _ _ h => absurd rfl h⟩
  dsimp only at hm ⊢
  rw [if_neg (not_not.mpr hm)]
  exact hcover (not_not.mpr hm)

theorem dispatch_charged {m : Msg} {c : Call} (hs : Sound s) (hf : Funded s)
    (hd : dispatch env m s c = .ok u) :
    Charged (tagOf c s) m.sender (escrowOf c) s u ∧
      u.bids = if tagOf c s = 0 then s.bids else tagOf c s := by
  have hlimit : ∀ {n}, n < queuePlaceLimit → n < queueCapacity := fun hn =>
    hn.trans (by decide)
  have hquiet : ∀ {owner escrow u}, Quiet s u → u.underflow = s.underflow →
      u.shortfall = s.shortfall → (∀ t a, t ≠ 0 → account t a u = account t a s) →
      Charged 0 owner escrow s u ∧ u.bids = s.bids := by
    intro owner escrow u hq h1 h2 h3
    have hbal := Balanced.of_quiet hf hq h1 h2 h3
    exact ⟨.of_balanced hbal, hbal.bids⟩
  -- a submission without escrow
  have hsubmit : ∀ {owner escrow e}, s.queueSize < queueCapacity → CoveredEntry e →
      e.contOrderId = 0 → e.tag = 0 →
      Charged 0 owner escrow s (processHeadCore (enqueue e s)) ∧
        (processHeadCore (enqueue e s)).bids = s.bids := by
    intro owner escrow e hsize he hcont htag
    obtain ⟨h1, h2⟩ := submit_charged hs hsize hf he hcont
    refine ⟨⟨h1.funded, fun t a ht hmine _ => ?_⟩, h2⟩
    have := h1.accounts t a ht hmine (fun h => absurd (h.symm.trans htag) ht)
    rw [htag] at this
    rw [if_neg (Ne.symm ht)] at this ⊢
    exact this
  cases c with
  | placeSellOffer p n f k i o d =>
    simp only [dispatch, placeSellOffer, require_bind_ok] at hd
    obtain ⟨-, hd⟩ := hd
    split at hd
    · cases hd
      exact hquiet sendFor_quiet rfl rfl fun t a ht => account_send ht
    · rename_i hgood
      obtain ⟨hbad, hsize⟩ := not_or.mp hgood
      cases hd
      exact hsubmit (hlimit (not_le.mp hsize)) (offer_covered hbad) rfl rfl
  | placeBuyOrder c e p n f d k i =>
    simp only [dispatch, placeBuyOrder, require_bind_ok] at hd
    obtain ⟨-, -, -, -, -, hwhole, -, -, -, hlimit', -, -, hcover, hsize, hd⟩ := hd
    cases hd
    have hs' : Sound { s with bids := s.bids + 1 } :=
      ⟨{ hs.linked with }, hs.window, hs.next_ne, hs.ids, hs.cont⟩
    have hf' : Funded { s with bids := s.bids + 1 } := ⟨{ hf.solvent with }, hf.entries⟩
    obtain ⟨h1, h2⟩ := submit_charged hs' (hlimit hsize) hf'
      (bid_covered hwhole hlimit' hcover) rfl
    exact ⟨⟨h1.funded, h1.accounts⟩, h2⟩
  | cancelOrder id =>
    cases hd
    unfold cancelOrder
    split
    · exact hquiet sendFor_quiet rfl rfl fun t a ht => account_send ht
    · exact hsubmit (by omega) covered_plain rfl rfl
  | cancelAllOrders =>
    cases hd
    unfold cancelAllOrders
    split
    · exact hquiet sendFor_quiet rfl rfl fun t a ht => account_send ht
    · exact hsubmit (by omega) covered_plain rfl rfl
  | expireOrder id =>
    simp only [dispatch, expireOrder, require_bind_ok] at hd
    obtain ⟨hsize, hd⟩ := hd
    cases hd
    exact hsubmit (hlimit hsize) covered_plain rfl rfl
  | processHead =>
    cases hd
    have hbal := processHeadCore_balanced hs hf
    exact ⟨.of_balanced hbal, hbal.bids⟩
  | onHandoverAccepted =>
    cases hd
    exact hquiet rfl rfl rfl fun _ _ _ => rfl
  | onBounce paid =>
    cases hd
    have hclear : Quiet s { s with
        handoverBuyer := Function.update s.handoverBuyer m.sender 0 } := rfl
    unfold onBounce
    dsimp only
    split
    · refine hquiet (hclear.trans payShell_quiet) ?_ ?_ fun t a ht => ?_
      · unfold payShell
        split <;> rfl
      · unfold payShell
        split <;> rfl
      · rw [account_payShell fun h => absurd h.symm ht, if_neg (Ne.symm ht)]
        rfl
    · exact hquiet hclear rfl rfl fun _ _ _ => rfl

theorem perform_charged {tx : Tx} (hs : Sound s) (hf : Funded s)
    (hp : perform env tx s = .ok u) :
    Charged (tagOf tx.call s) tx.msg.sender (escrowOf tx.call) s u ∧
      u.bids = if tagOf tx.call s = 0 then s.bids else tagOf tx.call s := by
  have hs' : Sound (enter tx.msg s) := ⟨{ hs.linked with }, hs.window, hs.next_ne, hs.ids, hs.cont⟩
  obtain ⟨h1, h2⟩ := dispatch_charged hs' ⟨{ hf.solvent with }, hf.entries⟩ hp
  exact ⟨⟨h1.funded, h1.accounts⟩, h2⟩

/-! ## Runs -/

theorem constructed_funded (h : Constructed env s) : Funded s ∧ s.bids = 0 ∧
    ∀ t a, t ≠ 0 → MineAll t a s ∧ holding t a s = 0 := by
  obtain ⟨hash, d, n, m, hc⟩ := h
  simp only [construct, require_bind_ok] at hc
  obtain ⟨-, -, -, hc⟩ := hc
  cases hc
  refine ⟨⟨⟨fun id hid => absurd hid (Finset.notMem_empty id), rfl, rfl⟩, fun j => covered_plain⟩,
    rfl, fun t a ht => ⟨⟨fun id hid => absurd hid (Finset.notMem_empty id),
      fun j htag => absurd htag (Ne.symm ht)⟩, ?_⟩⟩
  unfold holding
  rw [account_send ht]
  rfl

/-- Along a run: the books are sound and funded, numbers not given yet have no account, and every
number given has the escrow that its BUY brought. -/
structure Ledger (l : List (TransactionSystem.Record Book Tx)) (s : Book) : Prop where
  sound : Sound s
  funded : Funded s
  fresh : ∀ t a, s.bids < t → MineAll t a s ∧ holding t a s = 0
  given : ∀ r ∈ l, tagOf r.act.call r.pre ≠ 0 → tagOf r.act.call r.pre ≤ s.bids ∧
    MineAll (tagOf r.act.call r.pre) r.act.msg.sender s ∧
    holding (tagOf r.act.call r.pre) r.act.msg.sender s = escrowOf r.act.call

theorem Ledger.step {l : List (TransactionSystem.Record Book Tx)} {tx : Tx} (h : Ledger l s)
    (he : exec env tx s = .ok u) : Ledger (l ++ [⟨s, tx, u⟩]) u := by
  obtain ⟨hp, -⟩ := exec_perform he
  obtain ⟨hc, hbids⟩ := perform_charged h.sound h.funded hp
  have htag : tagOf tx.call s = 0 ∨ tagOf tx.call s = s.bids + 1 := by
    unfold tagOf
    split
    · exact .inr rfl
    · exact .inl rfl
  have hgrow : s.bids ≤ u.bids ∧ tagOf tx.call s ≤ u.bids := by
    rw [hbids]
    split <;> omega
  refine ⟨perform_sound h.sound hp, hc.funded, fun t a ht => ?_, fun r hr hne => ?_⟩
  · obtain ⟨hm, hzero⟩ := h.fresh t a (by omega)
    have hother : tagOf tx.call s ≠ t := by omega
    have := hc.accounts t a (by omega) hm (fun h => absurd h hother)
    rw [if_neg hother, hzero] at this
    exact this
  · rcases List.mem_append.mp hr with hr | hr
    · obtain ⟨hle, hm, hhold⟩ := h.given r hr hne
      have hother : tagOf tx.call s ≠ tagOf r.act.call r.pre := by omega
      have := hc.accounts _ _ hne hm (fun h => absurd h hother)
      rw [if_neg hother, hhold] at this
      exact ⟨by omega, this.1, this.2⟩
    · rw [List.mem_singleton] at hr
      subst hr
      dsimp only at hne ⊢
      obtain ⟨hm, hzero⟩ := h.fresh (tagOf tx.call s) tx.msg.sender (by omega)
      have := hc.accounts _ _ hne hm (fun _ => rfl)
      rw [if_pos rfl, hzero, Nat.zero_add] at this
      exact ⟨hgrow.2, this.1, this.2⟩

theorem run_ledger {s₀ : Book} {l : List (TransactionSystem.Record Book Tx)}
    (h0 : Constructed env s₀) (hr : TransactionSystem.Run (exec env) (fun _ _ => True) s₀ l s) :
    Ledger l s := by
  obtain ⟨hf, hbids, hfresh⟩ := constructed_funded h0
  refine hr.invariant (I := Ledger) ⟨constructed_sound h0, hf, fun t a ht => hfresh t a (by omega),
    fun r hr => absurd hr List.not_mem_nil⟩ fun _ _ _ _ h _ he => h.step he

/-- Over every run, the escrow of every BUY it accepted is its debits, its refunds and what is
still recorded; every resting bid is covered; and no transaction that may come next, not even one
that is rolled back in the end, subtracts below zero or cuts a fill of a resting bid short. -/
theorem escrow_conserved_and_covered (env : Env) (s₀ s : Book)
    (l : List (TransactionSystem.Record Book Tx)) (h0 : Constructed env s₀)
    (hr : TransactionSystem.Run (exec env) (fun _ _ => True) s₀ l s) :
    (∀ r ∈ l, ∀ clientOrderId escrow maxPricePerTick ticks flags deadline buyerPubkey depositHash,
      r.act.call = .placeBuyOrder clientOrderId escrow maxPricePerTick ticks flags deadline
        buyerPubkey depositHash →
      escrow = debited (r.pre.bids + 1) s + refunded (r.pre.bids + 1) r.act.msg.sender s +
        queued (r.pre.bids + 1) s + resting (r.pre.bids + 1) s) ∧
    (∀ id, Live s id → (s.orders.get id).isBuy = true →
      (s.orders.get id).amount * unit (s.orders.get id).price +
        (if (s.orders.get id).flags &&& flagSubscription ≠ 0 then 2 * (s.orders.get id).price
          else 0) ≤ (s.orders.get id).escrow) ∧
    (∀ tx t, perform env tx s = .ok t → t.underflow = false ∧ t.shortfall = false) := by
  have h := run_ledger h0 hr
  refine ⟨fun r hr c e p n f d k i hcall => ?_, fun id hlive hbuy => ?_, fun tx t hp => ?_⟩
  · have hgiven := (h.given r hr (by rw [hcall]; exact Nat.succ_ne_zero _)).2.2
    rw [hcall] at hgiven
    unfold holding account tagOf escrowOf at hgiven
    dsimp only at hgiven
    omega
  · exact (h.funded.solvent.orders id (Linked.mem_of_amount hlive)).escrow hbuy
  · have hf := (perform_charged h.sound h.funded hp).1.funded
    exact ⟨hf.solvent.underflow, hf.solvent.shortfall⟩

/-- A bid of eight ticks at three steps, five of which an offer at two took. -/
theorem escrow_conserved_partly_filled : ∃ s l,
    TransactionSystem.Run (exec sampleEnv) (fun _ _ => True) sampleBook l s ∧
    debited 1 s = 10250000000 ∧ resting 1 s = 89750000000 ∧
    (∃ r ∈ l, r.act = sampleBuy 3 8 0 100 50 ∧ 100 * priceStep =
      debited (r.pre.bids + 1) s + refunded (r.pre.bids + 1) 1003 s +
        queued (r.pre.bids + 1) s + resting (r.pre.bids + 1) s) ∧
    ∀ tx t, perform sampleEnv tx s = .ok t → t.underflow = false ∧ t.shortfall = false := by
  have hplay : (playedBook [sampleSell 1 2 5 0 20, sampleBuy 3 8 0 100 50]).any (fun s =>
      decide (debited 1 s = 10250000000) && decide (resting 1 s = 89750000000)) = true := by
    decide +kernel
  obtain ⟨s, hs, hp⟩ := (Option.any_eq_true _ _).mp hplay
  simp only [Bool.and_eq_true, decide_eq_true_eq] at hp
  obtain ⟨l, hrun, hacts⟩ := TransactionSystem.Run.play .nil hs
  rw [List.nil_append] at hrun
  have hmem : sampleBuy 3 8 0 100 50 ∈ l.map (·.act) := by
    rw [hacts]
    simp
  obtain ⟨r, hr, hact⟩ := List.mem_map.mp hmem
  obtain ⟨hescrow, -, hflags⟩ :=
    escrow_conserved_and_covered sampleEnv sampleBook s l sampleBook_constructed hrun
  have hr' := hescrow r hr _ _ _ _ _ _ _ _ (by rw [hact]; rfl)
  rw [show r.act.msg.sender = 1003 by rw [hact]; rfl] at hr'
  exact ⟨s, l, hrun, hp.1, hp.2, ⟨r, hr, hact, hr'⟩, hflags⟩

end InferenceOrderBookEscrow
