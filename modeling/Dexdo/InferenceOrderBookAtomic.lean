import Dexdo.InferenceOrderBookPrechecks
import Dexdo.InferenceOrderBookContinuation

/-! # Fill or kill

`_fokFullyFillable` is a second walk over the makers, with budgets of its own and without the bond
of a subscription. -/
namespace InferenceOrderBookAtomic

open TokenContractState hiding Out Err Sent tally
open SolidityMapping InferenceOrderBookState InferenceOrderBookCalls
open InferenceOrderBookLists InferenceOrderBookMatching InferenceOrderBookStructure
open InferenceOrderBookEscrow InferenceOrderBookPriority InferenceOrderBookGreedy
open InferenceOrderBookPrechecks InferenceOrderBookContinuation

variable {env : Env} {s t u : Book} {k : Taker} {p q : Progress} {w w' : FokWalk} {e : QueueEntry}
variable {tx : Tx} {cur lp i total : ℕ} {l l' : List ℕ}

/-! ## One maker -/

theorem fokMeet_verdict : fokMeet k s i w =
    if w.matched ≥ maxMatchesPerCall then .inl false
    else match verdict k s.now (s.orders.get i).toTerms w.remaining w.leftEscrow with
      | .skip => .inr w
      | .drop => .inr { w with matched := w.matched + 1 }
      | .dust => .inr { w with matched := w.matched + 1 }
      | .stop => .inl false
      | .fill n clearing =>
        if k.isBuy then .inr
          { remaining := w.remaining - n
            leftEscrow := w.leftEscrow - n * unit clearing
            matched := w.matched + 1 }
        else .inl (w.remaining - n == 0) := by
  unfold fokMeet verdict
  dsimp only
  cases k.isBuy <;> simp only [Bool.false_eq_true, if_true, if_false, Bool.not_true, Bool.not_false]
    <;> split_ifs <;> rfl

theorem matchMaker_matched_eq (hprice : (p.book.orders.get cur).price = lp) :
    (matchMaker k lp cur p).1.matched =
      match verdict k p.book.now (p.book.orders.get cur).toTerms p.remaining p.leftoverEscrow with
      | .skip => p.matched
      | .stop => p.matched
      | .drop => p.matched + 1
      | .dust => p.matched + 1
      | .fill _ _ => p.matched + 1 := by
  unfold matchMaker verdict fillMaker
  dsimp only
  rw [hprice]
  cases k.isBuy <;> simp only [Bool.false_eq_true, if_true, if_false, Bool.not_true, Bool.not_false]
    <;> split_ifs <;> rfl

theorem verdict_fill_le {now n clearing r b : ℕ} {o : Terms}
    (h : verdict k now o r b = .fill n clearing) : n ≤ r := by
  unfold verdict at h
  dsimp only at h
  split_ifs at h
  all_goals
    obtain ⟨rfl, -⟩ := Verdict.fill.inj h
    exact tradeable_le.1

/-! ## Side by side -/

def filledTicks (l : List Trade) : ℕ :=
  (l.map fun x => match x with
    | .fill _ n _ => n
    | .removal _ _ => 0).sum

@[simp] theorem filledTicks_append (a b : List Trade) :
    filledTicks (a ++ b) = filledTicks a + filledTicks b := by
  simp [filledTicks]

/-- The figures of a match that has `total` ticks to account for, beside those of the precheck. -/
structure Abreast (s : Book) (total : ℕ) (p : Progress) (w : FokWalk) : Prop where
  clock : p.book.now = s.now
  remaining : p.remaining = w.remaining
  escrow : p.remaining ≠ 0 → p.leftoverEscrow = w.leftEscrow
  matched : p.matched = w.matched
  filled : filledTicks (trades p.book) + p.remaining = total

def Complete (total : ℕ) (p : Progress) : Prop :=
  p.remaining = 0 ∧ filledTicks (trades p.book) = total

theorem Abreast.complete (h : Abreast s total p w) (hz : w.remaining = 0) : Complete total p := by
  have hp := h.remaining.trans hz
  have hfill := h.filled
  exact ⟨hp, by omega⟩

theorem verdict_fill_debit {now n clearing r b : ℕ} {o : Terms} (hk : Ready k)
    (hb : k.isBuy = true) (h : verdict k now o r b = .fill n clearing) (hleft : r - n ≠ 0) :
    fillDebit n clearing k.flags = n * unit clearing := by
  have hplain : k.flags &&& flagSubscription = 0 := by
    by_contra hsub
    have haon := hk.whole hb hsub
    have hfit := (verdict_fill h).2.2.1
    have hlt : n < r := by omega
    simp [aonMisfit, haon, hlt] at hfit
  unfold fillDebit
  rw [if_neg (not_not.mpr hplain), Nat.add_zero]

/-- On the same maker the match does what the precheck expects. -/
theorem fokMeet_abreast (hk : Ready k) (h : Abreast s total p w) (hl : Linked p.book)
    (hat : At k lp cur p.book)
    (hterms : (p.book.orders.get cur).toTerms = (s.orders.get cur).toTerms)
    (hrem : p.remaining ≠ 0) :
    match fokMeet k s cur w with
    | .inl true => p.matched < maxMatchesPerCall ∧ (matchMaker k lp cur p).2 = false ∧
        Complete total (matchMaker k lp cur p).1
    | .inl false => True
    | .inr w' => p.matched < maxMatchesPerCall ∧ (matchMaker k lp cur p).2 = false ∧
        Abreast s total (matchMaker k lp cur p).1 w' := by
  obtain ⟨htally, -⟩ := matchMaker_settles hl hat hrem
  have hmatched := matchMaker_matched_eq (k := k) hat.2.2
  have hclock := (matchMaker_one k lp hl hat.1).now.trans h.clock
  have hgo : ¬ ((tally p false).halted = true ∨ (tally p false).remaining = 0) := by
    simpa [tally] using hrem
  unfold settle at htally
  rw [if_neg hgo, hterms, h.clock] at htally
  rw [hterms, h.clock, h.remaining, h.escrow hrem] at hmatched
  dsimp only [tally] at htally
  rw [h.remaining, h.escrow hrem] at htally
  have hfilled := h.filled
  rw [h.remaining] at hfilled
  have hm := h.matched
  rw [fokMeet_verdict]
  by_cases hcap : w.matched ≥ maxMatchesPerCall
  · rw [if_pos hcap]
    trivial
  rw [if_neg hcap]
  have hroom : p.matched < maxMatchesPerCall := hm ▸ Nat.lt_of_not_le hcap
  generalize matchMaker k lp cur p = r at htally hmatched hclock ⊢
  cases hv : verdict k s.now (s.orders.get cur).toTerms w.remaining w.leftEscrow with
  | skip =>
    rw [hv] at htally hmatched
    obtain ⟨h1, h2, h3, h4⟩ := Tally.mk.inj htally
    refine ⟨hroom, h3, hclock, h1, fun _ => h2, hmatched.trans hm, ?_⟩
    rw [h4, h1]
    exact hfilled
  | drop =>
    rw [hv] at htally hmatched
    obtain ⟨h1, h2, h3, h4⟩ := Tally.mk.inj htally
    refine ⟨hroom, h3, hclock, h1, fun _ => h2, hmatched.trans (congrArg (· + 1) hm), ?_⟩
    rw [h4, h1, filledTicks_append]
    exact hfilled
  | dust =>
    rw [hv] at htally hmatched
    obtain ⟨h1, h2, h3, h4⟩ := Tally.mk.inj htally
    refine ⟨hroom, h3, hclock, h1, fun _ => h2, hmatched.trans (congrArg (· + 1) hm), ?_⟩
    rw [h4, h1, filledTicks_append]
    exact hfilled
  | stop => trivial
  | fill n clearing =>
    have hle := verdict_fill_le hv
    rw [hv] at htally hmatched
    cases hb : k.isBuy with
    | true =>
      rw [hb] at htally
      obtain ⟨h1, h2, h3, h4⟩ := Tally.mk.inj htally
      refine ⟨hroom, h3, hclock, h1, fun hne => ?_, hmatched.trans (congrArg (· + 1) hm), ?_⟩
      · rw [h2]
        exact congrArg (w.leftEscrow - ·) (verdict_fill_debit hk hb hv (h1 ▸ hne))
      · rw [h4, h1, filledTicks_append]
        change filledTicks (trades p.book) + n + (w.remaining - n) = total
        omega
    | false =>
      rw [hb] at htally
      obtain ⟨h1, -, h3, h4⟩ := Tally.mk.inj htally
      -- one deal: the answer is whether this bid takes everything
      by_cases hall : w.remaining - n = 0
      · simp only [Bool.false_eq_true, if_false, hall, beq_self_eq_true]
        refine ⟨hroom, h3, h1, ?_⟩
        rw [h4, filledTicks_append]
        have hone : filledTicks (.fill cur n clearing ::
            if (s.orders.get cur).amount = n then [Trade.removal cur .filled] else []) = n := by
          split <;> rfl
        rw [hone]
        omega
      · have hno : (w.remaining - n == 0) = false := beq_eq_false_iff_ne.mpr hall
        simp only [Bool.false_eq_true, if_false, hno]

/-! ## Along a level -/

/-- Two walks with the same makers ahead stand at the same one. -/
theorem ahead_cursor {b : ℕ} (hc : crosses k.isBuy k.price k.isMarket lp = true)
    (hs : Ahead k s (Beyond k lp cur s) l) (ht : Ahead k t (Beyond k lp b t) l)
    (hats : cur ≠ 0 → At k lp cur s) (hatt : b ≠ 0 → At k lp b t)
    (hterms : ∀ i ∈ l, (t.orders.get i).toTerms = (s.orders.get i).toTerms) : b = cur := by
  by_cases hcur : cur = 0
  · by_contra hne
    have hb : b ≠ 0 := fun hz => hne (hz.trans hcur.symm)
    obtain ⟨l', rfl⟩ := ht.head (hatt hb) hb hc
    have hprice := congrArg Terms.price (hterms b List.mem_cons_self)
    rcases ((hs.mem b).mp List.mem_cons_self).2 with hp | ⟨-, hz, -⟩
    · rw [← hprice, (hatt hb).2.2] at hp
      exact prior_irrefl _ hp
    · exact hz hcur
  · obtain ⟨l', rfl⟩ := hs.head (hats hcur) hcur hc
    have hprice := congrArg Terms.price (hterms cur List.mem_cons_self)
    have hb : b ≠ 0 := by
      rcases ((ht.mem cur).mp List.mem_cons_self).2 with hp | ⟨-, hz, -⟩
      · rw [hprice, (hats hcur).2.2] at hp
        exact absurd hp (prior_irrefl _)
      · exact hz
    obtain ⟨l'', heq⟩ := ht.head (hatt hb) hb hc
    exact (List.cons.inj heq).1.symm

/-- The makers ahead of both walks. -/
structure Beside (k : Taker) (s : Book) (total : ℕ) (p : Progress) (w : FokWalk) (l : List ℕ) :
    Prop where
  figures : Abreast s total p w
  linked : Linked p.book
  terms : ∀ i ∈ l, (p.book.orders.get i).toTerms = (s.orders.get i).toTerms

theorem fokOrders_spent (scans : ℕ) (hz : w.remaining = 0) :
    fokOrders s k.isBuy k.price k.flags lp scans cur w = .inr (scans, w) := by
  unfold fokOrders
  rw [if_pos (.inr hz)]

theorem matchOrders_spent (scans : ℕ) (hz : p.remaining = 0) :
    matchOrders k lp scans cur p = (scans, p, .done) := by
  unfold matchOrders
  rw [if_pos (.inr hz)]

/-- Along a level the match keeps pace until the precheck has its answer or the level ends. -/
theorem fokOrders_abreast (hs : Linked s) (hk : Ready k)
    (hc : crosses k.isBuy k.price k.isMarket lp = true) :
    ∀ (scans : ℕ) {cur : ℕ} {w : FokWalk} {p : Progress} {l : List ℕ}, Beside k s total p w l →
      (cur ≠ 0 → At k lp cur s) → (cur ≠ 0 → At k lp cur p.book) →
      Ahead k s (Beyond k lp cur s) l → Ahead k p.book (Beyond k lp cur p.book) l →
      match fokOrders s k.isBuy k.price k.flags lp scans cur w with
      | .inl true => ∃ scans' q, matchOrders k lp scans cur p = (scans', q, .done) ∧
          Complete total q
      | .inl false => True
      | .inr (scans', w') => ∃ q l', matchOrders k lp scans cur p = (scans', q, .done) ∧
          Beside k s total q w' l' ∧ Trimmed p.book q.book ∧
          (w'.remaining = 0 ∨
            Ahead k s (Beyond k lp 0 s) l' ∧ Ahead k q.book (Beyond k lp 0 q.book) l') := by
  intro scans
  induction scans with
  | zero =>
    intro cur w p l h hats hatp haheads haheadp
    unfold fokOrders matchOrders
    rw [h.figures.remaining]
    by_cases hend : cur = 0 ∨ w.remaining = 0
    · rw [if_pos hend, if_pos hend]
      refine ⟨p, l, rfl, h, .refl h.linked, ?_⟩
      rcases hend with rfl | hz
      · exact .inr ⟨haheads, haheadp⟩
      · exact .inl hz
    · rw [if_neg hend]
      trivial
  | succ scans ih =>
    intro cur w p l h hats hatp haheads haheadp
    by_cases hend : cur = 0 ∨ w.remaining = 0
    · rw [fokOrders, if_pos hend, matchOrders, h.figures.remaining, if_pos hend]
      refine ⟨p, l, rfl, h, .refl h.linked, ?_⟩
      rcases hend with rfl | hz
      · exact .inr ⟨haheads, haheadp⟩
      · exact .inl hz
    obtain ⟨hcur, hrem⟩ := not_or.mp hend
    have hremp : p.remaining ≠ 0 := fun hz => hrem (h.figures.remaining.symm.trans hz)
    obtain ⟨l', rfl⟩ := haheads.head (hats hcur) hcur hc
    have hone := matchMaker_one k lp h.linked (hatp hcur).1
    have hmeet := fokMeet_abreast hk h.figures h.linked (hatp hcur)
      (h.terms cur List.mem_cons_self) hremp
    obtain ⟨-, hpass⟩ := matchMaker_walked h.linked (hatp hcur) hremp haheadp
    have hnexts := fun hn => (hats hcur).next hs (.refl hs) hn
    have hnextp := fun hn => (hatp hcur).next h.linked hone hn
    have hpasss := haheads.pass hs (hats hcur) (.refl hs) (.inr rfl)
    rw [fokOrders_succ scans (hats hcur) hcur hrem]
    have hmatch : p.matched < maxMatchesPerCall → (matchMaker k lp cur p).2 = false →
        matchOrders k lp (scans + 1) cur p =
          matchOrders k lp scans (p.book.orders.get cur).nextAtPrice (matchMaker k lp cur p).1 := by
      intro hroom hgo
      rw [matchOrders, if_neg (not_or.mpr ⟨hcur, hremp⟩)]
      dsimp only
      rw [if_neg (Nat.not_le.mpr hroom), hgo, if_neg (by decide)]
    generalize matchMaker k lp cur p = r at hone hmeet hpass hnextp hmatch ⊢
    cases hfok : fokMeet k s cur w with
    | inl b =>
      rw [hfok] at hmeet
      cases b with
      | false => trivial
      | true =>
        obtain ⟨hroom, hgo, hdone⟩ := hmeet
        exact ⟨scans, r.1, (hmatch hroom hgo).trans (matchOrders_spent scans hdone.1), hdone⟩
    | inr w' =>
      rw [hfok] at hmeet
      obtain ⟨hroom, hgo, hfig⟩ := hmeet
      obtain ⟨hwalked, hahead⟩ := hpass hgo
      have hbeside : Beside k s total r.1 w' l' := by
        refine ⟨hfig, hone.linked, fun i hi => ?_⟩
        exact (hwalked.terms i hi).trans (h.terms i (List.mem_cons_of_mem _ hi))
      rw [hmatch hroom hgo]
      dsimp only
      by_cases hz : w'.remaining = 0
      · -- both have nothing left to trade
        have hzp := hfig.remaining.trans hz
        rw [fokOrders_spent scans hz, matchOrders_spent scans hzp]
        exact ⟨r.1, l', rfl, hbeside, hone.toTrimmed, .inl hz⟩
      have hzp : r.1.remaining ≠ 0 := fun h => hz (hfig.remaining.symm.trans h)
      have hnext := ahead_cursor hc hpasss (hahead hzp) hnexts hnextp hbeside.terms
      rw [hnext] at hahead hnextp ⊢
      have hrest := ih hbeside hnexts hnextp hpasss (hahead hzp)
      generalize fokOrders s k.isBuy k.price k.flags lp scans _ w' = f at hrest ⊢
      cases f with
      | inl b =>
        cases b with
        | false => trivial
        | true => exact hrest
      | inr f =>
        obtain ⟨q, l'', heq, hb, htrim, hend⟩ := hrest
        exact ⟨q, l'', heq, hb, hone.toTrimmed.trans htrim, hend⟩

/-! ## Over levels -/

theorem matchLevels_spent : ∀ (levels scans : ℕ) (o : Option ℕ) (start : ℕ), p.remaining = 0 →
    matchLevels k levels scans o start p = (p, none)
  | 0, _, _, _, _ => rfl
  | _ + 1, _, none, _, _ => rfl
  | _ + 1, _, some _, _, hz => if_pos (.inl hz)

/-- Where the precheck finds a maker the match stands at the same level. -/
theorem stands_level {levels lq : ℕ} (hs : Linked s) (hb : Beside k s total p w l)
    (hc : crosses k.isBuy k.price k.isMarket lp = true) (hmem : lp ∈ (s.levels (!k.isBuy)).keys)
    (hahead : Ahead k s (Beyond k lp (s.level (!k.isBuy) lp).firstOrderId s) l)
    (hst : Stands k levels 0 lq p.book l) :
    lq = lp ∧ (p.book.level (!k.isBuy) lq).firstOrderId = (s.level (!k.isBuy) lp).firstOrderId := by
  have hfirst := (hs.level_iff _ _).mp hmem
  have hat : At k lp (s.level (!k.isBuy) lp).firstOrderId s := .first hs hfirst
  obtain ⟨l', rfl⟩ := hahead.head hat hfirst hc
  have hfirst' := (hb.linked.level_iff _ _).mp hst.level
  have hat' : At k lq (p.book.level (!k.isBuy) lq).firstOrderId p.book := .first hb.linked hfirst'
  have hahead' := hst.ahead
  rw [if_neg (not_not.mpr rfl)] at hahead'
  have hc' : crosses k.isBuy k.price k.isMarket lq = true := by
    by_contra hno
    cases hahead'.uncrossed ((Bool.not_eq_true _).mp hno)
  obtain ⟨l'', heq⟩ := hahead'.head hat' hfirst' hc'
  obtain ⟨hid, -⟩ := List.cons.inj heq
  have hprice := congrArg Terms.price (hb.terms _ List.mem_cons_self)
  rw [hat.2.2, hid, hat'.2.2] at hprice
  exact ⟨hprice, hid.symm⟩

/-- Over levels the precheck says yes only where the match ends with nothing left. -/
theorem fokLevels_abreast (hs : Linked s) (hk : Ready k) : ∀ (walks scans levels : ℕ)
    {o o' : Option ℕ} {w : FokWalk} {p : Progress} {l : List ℕ}, Beside k s total p w l →
    (∀ lp, o = some lp → lp ∈ (s.levels (!k.isBuy)).keys ∧
      Ahead k s (Beyond k lp (s.level (!k.isBuy) lp).firstOrderId s) l) →
    (o' = none → l = []) → (∀ lp, o' = some lp → Stands k levels 0 lp p.book l) →
    fokLevels s k.isBuy k.price k.isMarket k.flags walks scans o w = true →
    ∃ q, matchLevels k levels scans o' 0 p = (q, none) ∧ Complete total q := by
  intro walks
  induction walks using Nat.strong_induction_on with
  | h walks ih =>
    intro scans levels o o' w p l hb hsome hnone' hsome' hyes
    by_cases hz : w.remaining = 0
    · have hdone := hb.figures.complete hz
      exact ⟨p, matchLevels_spent levels scans o' 0 hdone.1, hdone⟩
    cases o with
    | none =>
      unfold fokLevels at hyes
      exact absurd (beq_iff_eq.mp hyes) hz
    | some lp =>
      obtain ⟨hmem, hahead⟩ := hsome lp rfl
      unfold fokLevels at hyes
      by_cases hno : crosses k.isBuy k.price k.isMarket lp = false
      · rw [if_pos (.inr hno)] at hyes
        exact absurd (beq_iff_eq.mp hyes) hz
      rw [if_neg (not_or.mpr ⟨hz, hno⟩)] at hyes
      have hc := (Bool.not_eq_false _).mp hno
      have hfirst := (hs.level_iff _ _).mp hmem
      have hats : At k lp (s.level (!k.isBuy) lp).firstOrderId s := .first hs hfirst
      have hnil : l ≠ [] := by
        rintro rfl
        obtain ⟨l', hl'⟩ := hahead.head hats hfirst hc
        cases hl'
      cases o' with
      | none => exact absurd (hnone' rfl) hnil
      | some lq =>
        have hst := hsome' lq rfl
        obtain ⟨rfl, hcur⟩ := stands_level hs hb hc hmem hahead hst
        have haheadp := hst.ahead
        rw [if_neg (not_not.mpr rfl), hcur] at haheadp
        have hatp : At k lq (s.level (!k.isBuy) lq).firstOrderId p.book := by
          have hne := (hb.linked.level_iff _ _).mp hst.level
          have hat := At.first hb.linked hne
          rwa [hcur] at hat
        have hwalk := fokOrders_abreast hs hk hc scans hb (fun _ => hats) (fun _ => hatp) hahead
          haheadp
        -- some maker is ahead, so the match has a level left to look at
        obtain ⟨i, hi⟩ := List.exists_mem_of_ne_nil l hnil
        have hpos := Finset.card_pos.mpr ⟨_, level_from hb.linked hst.ahead hi⟩
        obtain ⟨levels, rfl⟩ := Nat.exists_eq_succ_of_ne_zero (by
          have hfuel := hst.fuel
          omega : levels ≠ 0)
        have hremp : p.remaining ≠ 0 := fun h => hz (hb.figures.remaining.symm.trans h)
        unfold matchLevels
        rw [if_neg (not_or.mpr ⟨hremp, hno⟩)]
        dsimp only
        rw [if_neg (not_not.mpr rfl), hcur]
        generalize fokOrders s k.isBuy k.price k.flags lq scans _ w = f at hwalk hyes
        cases f with
        | inl b =>
          obtain rfl : b = true := hyes
          obtain ⟨scans', q, heq, hdone⟩ := hwalk
          rw [heq]
          exact ⟨q, matchLevels_spent levels scans' _ 0 hdone.1, hdone⟩
        | inr f =>
          obtain ⟨scans', w'⟩ := f
          obtain ⟨q, l', heq, hb', htrim, hend⟩ := hwalk
          rw [heq]
          dsimp only at hyes ⊢
          cases walks with
          | zero => cases hyes
          | succ walks =>
            dsimp only at hyes
            by_cases hlast : walks = 0
            · rw [if_pos hlast] at hyes
              cases hyes
            rw [if_neg hlast] at hyes
            rcases hend with hz' | ⟨hs', hp'⟩
            · have hdone := hb'.figures.complete hz'
              exact ⟨q, matchLevels_spent levels scans' _ 0 hdone.1, hdone⟩
            refine ih walks (Nat.lt_succ_self walks) scans' levels hb' (fun lr hn => ?_)
              (fun hn => hp'.last hb'.linked hn) (fun lr hn => ?_) hyes
            · exact ⟨(nextOpposite_some hn).1, hs'.next hs hn⟩
            · refine ⟨?_, fun h => absurd rfl h, (nextOpposite_some hn).1, ?_⟩
              · rw [if_neg (not_not.mpr rfl)]
                exact hp'.next hb'.linked hn
              · have hlt := levelsFrom_next hst.level (htrim.levels _) hn
                have hfuel := hst.fuel
                omega

/-! ## The head of the queue -/

/-- The book that a call hands to `_processHeadCore`: the one stored, or the one with its entry. -/
inductive Turn (env : Env) (s : Book) : Tx → Book → Prop where
  | head (m : Msg) : Turn env s ⟨m, .processHead⟩ (enter m s)
  | offer (m : Msg) (p n f k i : ℕ) (o : Address) (d : ℕ) :
      m.sender = env.tokenContractAddress k i → ¬ badOffer p n f d →
      s.queueSize < queuePlaceLimit →
      Turn env s ⟨m, .placeSellOffer p n f k i o d⟩ (enqueue
        { entryType := .place, owner := o, flags := f, price := p, amount := n
          tokenContract := m.sender, deadline := d } (enter m s))
  | bid (m : Msg) (c e p n f d k h : ℕ) (t : Book) :
      perform env ⟨m, .placeBuyOrder c e p n f d k h⟩ s = .ok t →
      Turn env s ⟨m, .placeBuyOrder c e p n f d k h⟩ (enqueue
        { entryType := .place, owner := m.sender, buyerPubkey := k, isBuy := true, flags := f
          price := if f &&& flagMarket ≠ 0 then maxPrice else p, amount := n, escrow := e
          deadline := d, clientOrderId := c, tag := s.bids + 1 }
        { enter m s with bids := s.bids + 1 })
  | cancel (m : Msg) (id : ℕ) : s.queueSize < queueCapacity →
      Turn env s ⟨m, .cancelOrder id⟩ (enqueue
        { entryType := .cancel, owner := m.sender, targetOrderId := id } (enter m s))
  | cancelAll (m : Msg) : s.queueSize < queueCapacity →
      Turn env s ⟨m, .cancelAllOrders⟩ (enqueue
        { entryType := .cancelAll, owner := m.sender } (enter m s))
  | expire (m : Msg) (id : ℕ) : s.queueSize < queuePlaceLimit →
      Turn env s ⟨m, .expireOrder id⟩ (enqueue
        { entryType := .expire, targetOrderId := id } (enter m s))

theorem limit_capacity {n : ℕ} (h : n < queuePlaceLimit) : n < queueCapacity := h.trans (by decide)

theorem Turn.performs (h : Turn env s tx u) : perform env tx s = .ok (processHeadCore u) := by
  cases h with
  | head m => rfl
  | offer m p n f k i o d hsender hgood hsize =>
    simp only [perform, dispatch, placeSellOffer, require_bind_ok]
    have hno : ¬ (badOffer p n f d ∨ (enter m s).queueSize ≥ queuePlaceLimit) :=
      not_or.mpr ⟨hgood, Nat.not_le.mpr hsize⟩
    rw [if_neg hno]
    exact ⟨hsender, rfl⟩
  | bid m c e p n f d k i t hok =>
    rw [hok]
    simp only [perform, dispatch, placeBuyOrder, require_bind_ok] at hok
    obtain ⟨-, -, -, -, -, -, -, -, -, -, -, -, -, -, hok⟩ := hok
    exact hok.symm
  | cancel m id hsize => exact congrArg Except.ok (if_neg (Nat.not_le.mpr hsize))
  | cancelAll m hsize => exact congrArg Except.ok (if_neg (Nat.not_le.mpr hsize))
  | expire m id hsize =>
    simp only [perform, dispatch, expireOrder, require_bind_ok]
    exact ⟨hsize, rfl⟩

/-- Every other call leaves the lists and the queue alone. -/
theorem perform_turn (h : perform env tx s = .ok t) :
    (∃ u, Turn env s tx u) ∨ Quiet (enter tx.msg s) t := by
  obtain ⟨m, c⟩ := tx
  unfold perform at h
  cases c with
  | placeSellOffer p n f k i o d =>
    simp only [dispatch, placeSellOffer, require_bind_ok] at h
    obtain ⟨hsender, h⟩ := h
    by_cases hbad : badOffer p n f d ∨ (enter m s).queueSize ≥ queuePlaceLimit
    · rw [if_pos hbad] at h
      cases h
      exact .inr sendFor_quiet
    · obtain ⟨hgood, hsize⟩ := not_or.mp hbad
      exact .inl ⟨_, .offer m p n f k i o d hsender hgood (Nat.not_le.mp hsize)⟩
  | placeBuyOrder c e p n f d k i => exact .inl ⟨_, .bid m c e p n f d k i t h⟩
  | cancelOrder id =>
    by_cases hfull : (enter m s).queueSize ≥ queueCapacity
    · cases h
      unfold cancelOrder
      rw [if_pos hfull]
      exact .inr sendFor_quiet
    · exact .inl ⟨_, .cancel m id (Nat.not_le.mp hfull)⟩
  | cancelAllOrders =>
    by_cases hfull : (enter m s).queueSize ≥ queueCapacity
    · cases h
      unfold cancelAllOrders
      rw [if_pos hfull]
      exact .inr sendFor_quiet
    · exact .inl ⟨_, .cancelAll m (Nat.not_le.mp hfull)⟩
  | expireOrder id =>
    simp only [dispatch, expireOrder, require_bind_ok] at h
    exact .inl ⟨_, .expire m id h.1⟩
  | processHead => exact .inl ⟨_, .head m⟩
  | onHandoverAccepted =>
    cases h
    exact .inr rfl
  | onBounce paid =>
    cases h
    have hdone : Quiet (enter m s) { enter m s with
        handoverBuyer := Function.update s.handoverBuyer m.sender 0 } := rfl
    unfold onBounce
    dsimp only
    split
    · exact .inr (hdone.trans payShell_quiet)
    · exact .inr hdone

/-- The head finds a book in order whose escrows are covered. -/
theorem Turn.kept (hs : Sound s) (hf : Funded s) (h : Turn env s tx u) : Sound u ∧ Funded u := by
  have hin : ∀ (m : Msg) (bids : ℕ), Sound { enter m s with bids := bids } ∧
      Funded { enter m s with bids := bids } := fun m bids =>
    ⟨⟨{ hs.linked with }, hs.window, hs.next_ne, hs.ids, hs.cont⟩, { hf.solvent with }, hf.entries⟩
  have hsubmit : ∀ (m : Msg) (bids : ℕ) (e : QueueEntry), s.queueSize < queueCapacity →
      CoveredEntry e → e.contOrderId = 0 →
      Sound (enqueue e { enter m s with bids := bids }) ∧
        Funded (enqueue e { enter m s with bids := bids }) := by
    intro m bids e hsize he hcont
    obtain ⟨hs', hf'⟩ := hin m bids
    exact ⟨enqueue_sound hs' hsize hcont, (enqueue_charged hs' hsize hf' he hcont).funded⟩
  cases h with
  | head m => exact hin m s.bids
  | offer m p n f k i o d _ hgood hsize =>
    exact hsubmit m s.bids _ (limit_capacity hsize) (offer_covered hgood) rfl
  | bid m c e p n f d k i t hok =>
    simp only [perform, dispatch, placeBuyOrder, require_bind_ok] at hok
    obtain ⟨-, -, -, -, -, hwhole, -, -, -, hlimit, -, -, hcover, hsize, -⟩ := hok
    exact hsubmit m (s.bids + 1) _ (limit_capacity hsize) (bid_covered hwhole hlimit hcover) rfl
  | cancel m id hsize => exact hsubmit m s.bids _ hsize covered_plain rfl
  | cancelAll m hsize => exact hsubmit m s.bids _ hsize covered_plain rfl
  | expire m id hsize => exact hsubmit m s.bids _ (limit_capacity hsize) covered_plain rfl

theorem reachable_funded (h : Reachable env s) : Funded s := by
  refine (h.invariant (I := fun s => Sound s ∧ Funded s) (fun s h0 => ?_)
    fun s tx t hI _ he => ?_).2
  · exact ⟨constructed_sound h0, (constructed_funded h0).1⟩
  · obtain ⟨hp, -⟩ := exec_perform he
    exact ⟨perform_sound hI.1 hp, (perform_charged hI.1 hI.2 hp).1.funded⟩

/-! ## Fill or kill -/

/-- A placement on its first run that comes to the fill-or-kill check. -/
structure Checked (u : Book) (e : QueueEntry) : Prop where
  size : u.queueSize ≠ 0
  entry : u.queue.get u.queueHead = e
  kind : e.entryType = .place
  first : e.contOrderId = 0
  timely : e.deadline = 0 ∨ u.now < e.deadline
  postOnly : e.flags &&& flagPostOnly ≠ 0 →
    executableCrosses e.isBuy e.price e.flags e.amount u = false
  fok : e.flags &&& flagFok ≠ 0

def fokAnswer (u : Book) (e : QueueEntry) : Bool :=
  fokFullyFillable e.isBuy e.price (decide (e.flags &&& flagMarket ≠ 0)) e.amount e.escrow e.flags u

/-- A yes of the check is kept by the match. -/
theorem matchTaker_abreast (hs : Linked s) (ht : Linked t) (hk : Ready k)
    (horders : t.orders = s.orders) (hnow : t.now = s.now) {amount escrow : ℕ}
    (hyes : fokFullyFillable k.isBuy k.price k.isMarket amount escrow k.flags s = true) :
    ∃ q, matchTaker k amount escrow 0 t = (q, none) ∧
      Complete (filledTicks (trades t) + amount) q := by
  obtain ⟨l, hl⟩ := exists_priceTime k s
  have hlt : PriceTime k t l := by
    obtain ⟨hsorted, hmem⟩ := hl
    unfold Before at hsorted
    unfold Resting at hmem
    refine ⟨?_, fun i => ?_⟩
    · unfold Before
      rw [horders]
      exact hsorted
    · unfold Resting
      rw [horders]
      exact hmem i
  have hb : Beside k s (filledTicks (trades t) + amount)
      { book := t, remaining := amount, leftoverEscrow := escrow }
      { remaining := amount, leftEscrow := escrow } l :=
    ⟨⟨hnow, rfl, fun _ => rfl, rfl, rfl⟩, ht, fun i _ => by rw [horders]⟩
  unfold matchTaker
  dsimp only
  rw [if_neg fun hres => hres.1 rfl]
  refine fokLevels_abreast hs hk maxPrecheckLevels maxScanPerCall _ hb
    (fun lp hbest => ⟨(bestOpposite_some hbest).1, hl.best hs hbest⟩) (fun hn => hlt.empty ht hn)
    (fun lp hbest => ?_) hyes
  refine ⟨?_, fun hz => absurd rfl hz, (bestOpposite_some hbest).1, ?_⟩
  · rw [if_neg (not_not.mpr rfl)]
    exact hlt.best ht hbest
  · exact Finset.card_le_card (Finset.filter_subset _ _)

theorem Checked.run (h : Checked u e) : runHead u =
    if fokAnswer u e then runPlace u.nextOrderId e.amount e.escrow 0 e (announced u e)
    else (refusePlacement .fok e u, false) := by
  have htime := h.timely
  rw [runHead_place (by rw [h.entry]; exact h.kind)]
  unfold doPlaceHead
  rw [h.entry]
  dsimp only
  rw [if_neg (by omega), if_pos h.first, if_neg]
  · unfold fokAnswer
    by_cases hyes : fokFullyFillable e.isBuy e.price (decide (e.flags &&& flagMarket ≠ 0)) e.amount
        e.escrow e.flags u = true
    · rw [if_neg fun hno => hno.2 hyes, if_pos hyes]
      rfl
    · rw [if_pos ⟨h.fok, hyes⟩, if_neg hyes]
  · rintro ⟨hflag, hcross⟩
    rw [h.postOnly hflag] at hcross
    cases hcross

/-- What a refusal sends: the latch of an offer's deal, the event, and the answer to the note with
all that a bid brought. -/
def refusal (u : Book) (e : QueueEntry) : List InferenceOrderBookState.Sent :=
  (if e.isBuy = true ∨ e.tokenContract = 0 then [] else [⟨0, .onSellClosed e.tokenContract⟩]) ++
    [⟨0, .inferenceOrderRejected .fok e.owner e.tokenContract (if e.isBuy then e.escrow else 0)⟩,
      ⟨e.tag, .onInferenceRejected e.owner u.modelHash e.clientOrderId .fok
        (if e.isBuy then e.escrow else 0)⟩]

theorem refusePlacement_fok : refusePlacement .fok e u = { u with out := u.out ++ refusal u e } := by
  have hback : (if e.isBuy = true ∧ e.escrow > 0 then e.escrow else 0) =
      if e.isBuy = true then e.escrow else 0 := by
    by_cases hb : e.isBuy = true
    · simp only [hb, true_and, if_true]
      split <;> omega
    · simp only [hb]
      rfl
  unfold refusePlacement
  dsimp only
  rw [hback]
  unfold refusal rejectToNote freeDeal
  cases e.isBuy with
  | true =>
    simp only [if_true, true_or, List.nil_append, Book.send, Book.sendFor, List.append_assoc]
    rfl
  | false =>
    by_cases htc : e.tokenContract = 0
    · simp only [htc, Bool.false_eq_true, ne_eq, not_true_eq_false, or_true, if_true, if_false,
        List.nil_append, Book.send, Book.sendFor, List.append_assoc]
      rfl
    · simp only [htc, Bool.false_eq_true, ne_eq, not_false_eq_true, or_self, if_true, if_false,
        Book.send, Book.sendFor, List.append_assoc]
      rfl

/-- A fill-or-kill placement is filled whole by the match that follows a yes of the check, within
one call and its own escrow; after a no the lists stand as they were and all its escrow goes
back. -/
theorem fill_or_kill_atomic (env : Env) (s u : Book) (tx : Tx) (e : QueueEntry)
    (hs : Reachable env s) (hu : Turn env s tx u) (he : Checked u e) :
    perform env tx s = .ok (processHeadCore u) ∧
    (fokAnswer u e = true → ∃ p,
      matchTaker (takerOf u.nextOrderId e) e.amount e.escrow 0 (announced u e) = (p, none) ∧
      p.remaining = 0 ∧ filledTicks (trades p.book) = filledTicks (trades u) + e.amount ∧
      p.book.underflow = false ∧
      runHead u = (finalizeTaker u.nextOrderId e 0 p.leftoverEscrow p.book, false)) ∧
    (fokAnswer u e = false →
      (processHeadCore u).orders = u.orders ∧ (processHeadCore u).levels = u.levels ∧
      (processHeadCore u).out = u.out ++ refusal u e ++
        if 1 < u.queueSize then [⟨0, .processHead⟩] else []) := by
  obtain ⟨hsound, hfunded⟩ := hu.kept (reachable_sound hs) (reachable_funded hs)
  have hcovered : CoveredEntry e := he.entry ▸ hfunded.entries u.queueHead
  have hrun := he.run
  refine ⟨hu.performs, fun hyes => ?_, fun hno => ?_⟩
  · have hlinked : Linked (announced u e) := (numbered_sound hsound).linked
    have hready : Ready (takerOf u.nextOrderId e) := ready_takerOf hcovered
    obtain ⟨p, hp, hdone, hfilled⟩ := matchTaker_abreast (t := announced u e) hsound.linked hlinked
      hready rfl rfl hyes
    have hwalk := (matchTaker_walk e.amount e.escrow 0 hlinked { hfunded.solvent with } hready
      fun hb hm => hcovered.first hb (by simpa [takerOf] using hm) he.first).1
    rw [hp] at hwalk
    refine ⟨p, hp, hdone, ?_, hwalk.solvent.underflow, ?_⟩
    · rw [hfilled]
      exact congrArg (filledTicks · + e.amount) (trades_send.trans (List.append_nil _))
    · rw [hrun, if_pos hyes]
      unfold runPlace
      rw [hp]
      dsimp only
      rw [hdone]
  · rw [if_neg (by rw [hno]; decide), refusePlacement_fok] at hrun
    have hcore : processHeadCore u =
        let v := advanceHead { u with out := u.out ++ refusal u e }
        if v.queueSize > 0 then v.send .processHead else v := processHeadCore_run he.size hrun
    dsimp only at hcore
    rw [hcore]
    have hsize : (advanceHead { u with out := u.out ++ refusal u e }).queueSize > 0 ↔
        1 < u.queueSize := Nat.lt_sub_iff_add_lt
    by_cases hmore : 1 < u.queueSize
    · rw [if_pos (hsize.mpr hmore), if_pos hmore]
      exact ⟨rfl, rfl, rfl⟩
    · rw [if_neg fun h => hmore (hsize.mp h), if_neg hmore, List.append_nil]
      exact ⟨rfl, rfl, rfl⟩

def sampleFok (tag : ℕ) : QueueEntry :=
  { entryType := .place, owner := 1003, isBuy := true, flags := flagFok, price := 3 * priceStep
    amount := 6, escrow := 100 * priceStep, clientOrderId := 7, tag := tag }

/-- It takes the cheaper of two offers and half of the other. -/
theorem two_offers_filled_or_killed : ∃ s u p, Reachable sampleEnv s ∧
    Turn sampleEnv s (sampleBuy 3 6 flagFok 100 40) u ∧ Checked u (sampleFok 1) ∧
    matchTaker (takerOf u.nextOrderId (sampleFok 1)) 6 (100 * priceStep) 0
      (announced u (sampleFok 1)) = (p, none) ∧ p.remaining = 0 ∧
    filledTicks (trades p.book) = filledTicks (trades u) + 6 := by
  have hplay : (playedBook [sampleSell 1 3 4 0 20, sampleSell 2 2 4 0 30]).any (fun s =>
      decide (s.bids = 0) && decide (s.queueSize = 0) && decide (s.queueHead = s.queueTail) &&
        (perform sampleEnv (sampleBuy 3 6 flagFok 100 40) s).toBool &&
        fokAnswer (enqueue (sampleFok (s.bids + 1))
          { enter (sampleBuy 3 6 flagFok 100 40).msg s with bids := s.bids + 1 }) (sampleFok 1)) =
      true := by
    decide +kernel
  obtain ⟨s, hs, hp⟩ := playedBook_reachable hplay
  simp only [Bool.and_eq_true, decide_eq_true_eq] at hp
  obtain ⟨⟨⟨⟨hbids, hsize⟩, hhead⟩, hperform⟩, hyes⟩ := hp
  cases hok : perform sampleEnv (sampleBuy 3 6 flagFok 100 40) s with
  | error _ =>
    rw [hok] at hperform
    cases hperform
  | ok t =>
    have hu : Turn sampleEnv s (sampleBuy 3 6 flagFok 100 40) (enqueue (sampleFok (s.bids + 1))
        { enter (sampleBuy 3 6 flagFok 100 40).msg s with bids := s.bids + 1 }) :=
      .bid _ _ _ _ _ _ _ _ _ t hok
    have he : Checked (enqueue (sampleFok (s.bids + 1))
        { enter (sampleBuy 3 6 flagFok 100 40).msg s with bids := s.bids + 1 }) (sampleFok 1) := by
      refine ⟨Nat.succ_ne_zero _, ?_, rfl, rfl, .inl rfl, fun h => ?_, by decide⟩
      · change (s.queue.set s.queueTail (sampleFok (s.bids + 1))).get s.queueHead = sampleFok 1
        rw [hhead, Mapping.get_set, hbids]
      · exact absurd rfl h
    obtain ⟨-, hfilled, -⟩ := fill_or_kill_atomic sampleEnv s _ _ _ hs hu he
    obtain ⟨p, hp, hdone, htotal, -, -⟩ := hfilled hyes
    exact ⟨s, _, p, hs, hu, he, hp, hdone, htotal⟩

end InferenceOrderBookAtomic
