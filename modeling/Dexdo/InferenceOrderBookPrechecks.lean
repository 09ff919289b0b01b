import Dexdo.InferenceOrderBookPriority

/-! # The fill-or-kill precheck

`_fokFullyFillable` walks the makers a taker accepts without touching them. As long as its budgets
suffice, it is a walk along the list of makers in price and time order. -/
namespace InferenceOrderBookPrechecks

open TokenContractState SolidityMapping InferenceOrderBookState InferenceOrderBookCalls
open InferenceOrderBookLists InferenceOrderBookMatching InferenceOrderBookPriority

variable {s : Book} {k : Taker} {w : FokWalk} {lp cur : ℕ} {l : List ℕ}

/-- One maker: an answer, or the figures past it. -/
def fokMeet (k : Taker) (s : Book) (i : ℕ) (w : FokWalk) : Bool ⊕ FokWalk :=
  let mk := s.orders.get i
  if w.matched ≥ maxMatchesPerCall then .inl false
  else if !dealCompatible k.isBuy k.flags mk.flags then .inr w
  else if isExpired mk.deadline s.now then .inr { w with matched := w.matched + 1 }
  else
    let unit := unit (if k.isBuy then mk.price else k.price)
    let trade := tradeable w.remaining mk.amount (if k.isBuy then w.leftEscrow else mk.escrow) unit
    if aonMisfit k.flags mk.flags trade w.remaining mk.amount then .inr w
    else if trade < 2 then
      if k.isBuy then .inl false else .inr { w with matched := w.matched + 1 }
    else if !k.isBuy then .inl (w.remaining - trade == 0)
    else .inr
      { remaining := w.remaining - trade
        leftEscrow := w.leftEscrow - trade * unit
        matched := w.matched + 1 }

/-- The makers of a list one after the other. -/
def fokList (k : Taker) (s : Book) : List ℕ → FokWalk → Bool ⊕ FokWalk
  | [], w => .inr w
  | i :: l, w =>
    if w.remaining = 0 then .inr w
    else
      match fokMeet k s i w with
      | .inl answer => .inl answer
      | .inr w => fokList k s l w

def answer : Bool ⊕ FokWalk → Bool
  | .inl b => b
  | .inr w => w.remaining == 0

theorem fokList_done (h : w.remaining = 0) : fokList k s l w = .inr w := by
  cases l with
  | nil => rfl
  | cons i l => exact if_pos h

theorem fokOrders_succ (scans : ℕ) (hat : At k lp cur s) (hcur : cur ≠ 0) (hrem : w.remaining ≠ 0) :
    fokOrders s k.isBuy k.price k.flags lp (scans + 1) cur w =
      match fokMeet k s cur w with
      | .inl answer => .inl answer
      | .inr w => fokOrders s k.isBuy k.price k.flags lp scans (s.orders.get cur).nextAtPrice w := by
  have hgo : ¬ (cur = 0 ∨ w.remaining = 0) := not_or.mpr ⟨hcur, hrem⟩
  rw [fokOrders, if_neg hgo]
  unfold fokMeet
  dsimp only
  rw [hat.2.2]
  split
  · rfl
  split
  · rfl
  split
  · rfl
  generalize unit _ = price
  generalize tradeable _ _ _ price = trade
  split
  · rfl
  split
  · split
    · rfl
    · rfl
  split
  · rfl
  · rfl

/-- The walk along a level, on a scan budget that suffices. -/
theorem fokOrders_list (hl : Linked s) (hc : crosses k.isBuy k.price k.isMarket lp = true) :
    ∀ (scans : ℕ) {cur : ℕ} {w : FokWalk} {l : List ℕ}, (cur ≠ 0 → At k lp cur s) →
      Ahead k s (Beyond k lp cur s) l → l.length ≤ scans →
      match fokOrders s k.isBuy k.price k.flags lp scans cur w with
      | .inl b => fokList k s l w = .inl b
      | .inr (scans', w') => ∃ l', fokList k s l w = fokList k s l' w' ∧
          (w'.remaining = 0 ∨ Ahead k s (Beyond k lp 0 s) l') ∧ l'.length ≤ scans' ∧
          (l'.length < l.length ∨ l' = l ∧ w' = w ∧ (cur = 0 ∨ w.remaining = 0)) := by
  intro scans
  induction scans with
  | zero =>
    intro cur w l hat h hlen
    obtain rfl : l = [] := List.eq_nil_of_length_eq_zero (Nat.le_zero.mp hlen)
    have hend : cur = 0 := by
      by_contra hcur
      obtain ⟨l', hl'⟩ := h.head (hat hcur) hcur hc
      cases hl'
    rw [fokOrders, if_pos (.inl hend)]
    subst hend
    exact ⟨[], rfl, .inr h, le_rfl, .inr ⟨rfl, rfl, .inl rfl⟩⟩
  | succ scans ih =>
    intro cur w l hat h hlen
    by_cases hend : cur = 0 ∨ w.remaining = 0
    · rw [fokOrders, if_pos hend]
      refine ⟨l, rfl, ?_, hlen, .inr ⟨rfl, rfl, hend⟩⟩
      rcases hend with rfl | hz
      · exact .inr h
      · exact .inl hz
    obtain ⟨hcur, hrem⟩ := not_or.mp hend
    obtain ⟨l', rfl⟩ := h.head (hat hcur) hcur hc
    have hnext : (s.orders.get cur).nextAtPrice ≠ 0 →
        At k lp (s.orders.get cur).nextAtPrice s := fun hn => (hat hcur).next hl (.refl hl) hn
    have hpass := h.pass hl (hat hcur) (.refl hl) (.inr rfl)
    rw [fokOrders_succ scans (hat hcur) hcur hrem]
    rw [List.length_cons] at hlen
    have hlist : fokList k s (cur :: l') w = match fokMeet k s cur w with
        | .inl answer => .inl answer
        | .inr w => fokList k s l' w := if_neg hrem
    rw [hlist]
    cases fokMeet k s cur w with
    | inl b => rfl
    | inr w' =>
      have hrest := ih (w := w') hnext hpass (Nat.le_of_succ_le_succ hlen)
      dsimp only
      generalize fokOrders s k.isBuy k.price k.flags lp scans _ w' = r at hrest ⊢
      cases r with
      | inl b => exact hrest
      | inr r =>
        obtain ⟨l'', heq, hahead, hle, hlt⟩ := hrest
        refine ⟨l'', heq, hahead, hle, .inl ?_⟩
        rw [List.length_cons]
        rcases hlt with hlt | ⟨rfl, -, -⟩
        · omega
        · omega

/-- The walk over levels, on budgets that suffice. -/
theorem fokLevels_list (hl : Linked s) : ∀ (walks scans : ℕ) {o : Option ℕ} {w : FokWalk}
    {l : List ℕ}, (o = none → l = []) → (∀ lp, o = some lp → lp ∈ (s.levels (!k.isBuy)).keys ∧
      Ahead k s (Beyond k lp (s.level (!k.isBuy) lp).firstOrderId s) l) →
    l.length ≤ scans → l.length + 2 ≤ walks →
    fokLevels s k.isBuy k.price k.isMarket k.flags walks scans o w = answer (fokList k s l w) := by
  intro walks
  induction walks with
  | zero =>
    intro scans o w l _ _ _ hwalks
    omega
  | succ walks ih =>
    intro scans o w l hnone hsome hscans hwalks
    cases o with
    | none =>
      rw [hnone rfl]
      rfl
    | some lp =>
      obtain ⟨hmem, h⟩ := hsome lp rfl
      have hfirst := (hl.level_iff _ _).mp hmem
      rw [fokLevels]
      split
      · rename_i hend
        rcases hend with hz | hno
        · rw [fokList_done hz]
          rfl
        · rw [h.uncrossed hno]
          rfl
      rename_i hgo
      obtain ⟨hrem, hcross⟩ := not_or.mp hgo
      have hcross := (Bool.not_eq_false _).mp hcross
      have hwalk := fokOrders_list hl hcross scans (w := w) (fun hne => .first hl hne) h hscans
      generalize fokOrders s k.isBuy k.price k.flags lp scans _ w = r at hwalk ⊢
      cases r with
      | inl b =>
        rw [hwalk]
        rfl
      | inr r =>
        obtain ⟨l', heq, hahead, hle, hlt⟩ := hwalk
        have hshort : l'.length < l.length := by
          rcases hlt with hlt | ⟨-, -, hz⟩
          · exact hlt
          · exact absurd hz (not_or.mpr ⟨hfirst, hrem⟩)
        dsimp only
        rw [if_neg (by omega), heq]
        rcases hahead with hz | hahead
        · -- everything is covered; the next level only says so
          rw [fokList_done hz]
          cases nextOpposite k.isBuy lp s with
          | none => rw [fokLevels]; rfl
          | some lq =>
            rw [fokLevels, if_pos (.inl hz)]
            rfl
        · refine ih _ (fun hn => hahead.last hl hn) (fun lq hn => ?_) hle (by omega)
          exact ⟨(nextOpposite_some hn).1, hahead.next hl hn⟩

theorem fokFullyFillable_list (hl : Linked s) (h : PriceTime k s l)
    (hlen : l.length ≤ maxMatchesPerCall) (need escrow : ℕ) :
    fokFullyFillable k.isBuy k.price k.isMarket need escrow k.flags s =
      answer (fokList k s l { remaining := need, leftEscrow := escrow }) := by
  unfold maxMatchesPerCall at hlen
  unfold fokFullyFillable
  refine fokLevels_list hl _ _ (fun hn => h.empty hl hn) (fun lp hb => ?_) ?_ ?_
  · exact ⟨(bestOpposite_some hb).1, h.best hl hb⟩
  · unfold maxScanPerCall
    omega
  · unfold maxPrecheckLevels
    omega

end InferenceOrderBookPrechecks
