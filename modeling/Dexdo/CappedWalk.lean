import Mathlib

/-! # A greedy walk cut into capped calls

A taker with a budget meets makers in a fixed order. The reference takes each maker whole and
ends at the first one it cannot take whole. An engine makes at most a number of fills in one call
and starts the next call from the best maker again; it goes on after a maker it could not take
whole as long as budget is left. The two agree unless the budget left there still buys something
from the maker that the engine meets next. -/
namespace CappedWalk

structure Rule (M : Type) where
  size : M → ℕ
  trade : M → ℕ → ℕ
  cost : M → ℕ → ℕ
  cut : M → ℕ → M

inductive Stop where
  | done | capped | dust
  deriving DecidableEq, Repr

structure Tally (M : Type) where
  fills : List (M × ℕ)
  remaining : ℕ
  stop : Stop
  makers : List M

variable {M : Type} (R : Rule M)

/-- One call with at most `left` fills, on the makers `ahead` of it; those `behind` it were met
and not taken whole. -/
def walk : ℕ → List M → List M → ℕ → List (M × ℕ) → Tally M
  | _, behind, [], r, fills => ⟨fills, r, .done, behind⟩
  | left, behind, m :: ahead, r, fills =>
    if r = 0 then ⟨fills, r, .done, behind ++ m :: ahead⟩
    else
      match left with
      | 0 => ⟨fills, r, .capped, behind ++ m :: ahead⟩
      | left + 1 =>
        if R.trade m r = 0 then ⟨fills, r, .dust, behind ++ m :: ahead⟩
        else walk left
          (if R.trade m r = R.size m then behind else behind ++ [R.cut m (R.trade m r)]) ahead
          (r - R.cost m (R.trade m r)) (fills ++ [(m, R.trade m r)])

/-- The reference: its fills and what is left of the budget. -/
def greedy : List M → ℕ → List (M × ℕ) × ℕ
  | [], r => ([], r)
  | m :: l, r =>
    if r = 0 ∨ R.trade m r = 0 then ([], r)
    else if R.trade m r = R.size m then
      ((m, R.trade m r) :: (greedy l (r - R.cost m (R.trade m r))).1,
        (greedy l (r - R.cost m (R.trade m r))).2)
    else ([(m, R.trade m r)], r - R.cost m (R.trade m r))

/-- The maker the engine meets after `m`, which it could not take whole: the next one, or, when
the call has no fill left, the rest of `m` itself. -/
def meetsNext (left : ℕ) (m : M) (r : ℕ) : List M → Option M
  | [] => none
  | a :: _ => if left = 0 then some (R.cut m (R.trade m r)) else some a

/-- With `left` fills left after this one in the call and `cap + 1` in a new one, the budget left
at the first maker not taken whole still buys something. -/
def Spills (cap : ℕ) : ℕ → List M → ℕ → Prop
  | _, [], _ => False
  | left, m :: l, r =>
    r ≠ 0 ∧ R.trade m r ≠ 0 ∧
      if R.trade m r = R.size m then
        Spills cap (if left = 0 then cap else left - 1) l (r - R.cost m (R.trade m r))
      else r - R.cost m (R.trade m r) ≠ 0 ∧
        ∃ a, meetsNext R left m r l = some a ∧ R.trade a (r - R.cost m (R.trade m r)) ≠ 0

attribute [grind =] walk greedy Spills

variable {R} {cap left r : ℕ} {m : M} {l behind : List M} {fills : List (M × ℕ)}

/-! ## Calls only add fills -/

theorem walk_fills : ∀ (l behind : List M) (left r : ℕ) (fills : List (M × ℕ)),
    ∃ more, (walk R left behind l r fills).fills = fills ++ more := by
  intro l
  induction l with
  | nil =>
    intro behind left r fills
    exact ⟨[], by simp [walk]⟩
  | cons m l ih =>
    intro behind left r fills
    unfold walk
    split
    · exact ⟨[], (List.append_nil _).symm⟩
    · cases left with
      | zero => exact ⟨[], (List.append_nil _).symm⟩
      | succ left =>
        dsimp only
        split
        · exact ⟨[], (List.append_nil _).symm⟩
        · obtain ⟨more, hmore⟩ := ih (if R.trade m r = R.size m then behind
            else behind ++ [R.cut m (R.trade m r)]) left (r - R.cost m (R.trade m r))
            (fills ++ [(m, R.trade m r)])
          refine ⟨(m, R.trade m r) :: more, ?_⟩
          rw [hmore, List.append_assoc, List.singleton_append]

theorem walk_first (hr : r ≠ 0) (ht : R.trade m r ≠ 0) :
    ∃ more, (walk R (left + 1) behind (m :: l) r fills).fills =
      fills ++ (m, R.trade m r) :: more := by
  obtain ⟨more, hmore⟩ := walk_fills (R := R) l (if R.trade m r = R.size m then behind
    else behind ++ [R.cut m (R.trade m r)]) left (r - R.cost m (R.trade m r))
    (fills ++ [(m, R.trade m r)])
  refine ⟨more, ?_⟩
  unfold walk
  rw [if_neg hr]
  dsimp only
  rw [if_neg ht, hmore, List.append_assoc, List.singleton_append]

theorem greedy_whole (hr : r ≠ 0) (ht : R.trade m r ≠ 0) (hw : R.trade m r = R.size m) :
    greedy R (m :: l) r = ((m, R.trade m r) :: (greedy R l (r - R.cost m (R.trade m r))).1,
      (greedy R l (r - R.cost m (R.trade m r))).2) := by
  rw [greedy, if_neg (not_or.mpr ⟨hr, ht⟩), if_pos hw]

theorem greedy_part (hr : r ≠ 0) (ht : R.trade m r ≠ 0) (hw : R.trade m r ≠ R.size m) :
    greedy R (m :: l) r = ([(m, R.trade m r)], r - R.cost m (R.trade m r)) := by
  rw [greedy, if_neg (not_or.mpr ⟨hr, ht⟩), if_neg hw]

theorem greedy_stop (h : r = 0 ∨ R.trade m r = 0) : greedy R (m :: l) r = ([], r) := by
  rw [greedy, if_pos h]

theorem walk_whole (hr : r ≠ 0) (ht : R.trade m r ≠ 0) (hw : R.trade m r = R.size m) :
    walk R (left + 1) behind (m :: l) r fills =
      walk R left behind l (r - R.cost m (R.trade m r)) (fills ++ [(m, R.trade m r)]) := by
  rw [walk, if_neg hr, if_neg ht, if_pos hw]

theorem walk_part (hr : r ≠ 0) (ht : R.trade m r ≠ 0) (hw : R.trade m r ≠ R.size m) :
    walk R (left + 1) behind (m :: l) r fills =
      walk R left (behind ++ [R.cut m (R.trade m r)]) l (r - R.cost m (R.trade m r))
        (fills ++ [(m, R.trade m r)]) := by
  rw [walk, if_neg hr, if_neg ht, if_neg hw]

theorem spills_whole (hr : r ≠ 0) (ht : R.trade m r ≠ 0) (hw : R.trade m r = R.size m) :
    Spills R cap left (m :: l) r ↔
      Spills R cap (if left = 0 then cap else left - 1) l (r - R.cost m (R.trade m r)) := by
  rw [Spills, if_pos hw]
  exact ⟨fun h => h.2.2, fun h => ⟨hr, ht, h⟩⟩

theorem spills_part (hr : r ≠ 0) (ht : R.trade m r ≠ 0) (hw : R.trade m r ≠ R.size m) :
    Spills R cap left (m :: l) r ↔ r - R.cost m (R.trade m r) ≠ 0 ∧
      ∃ a, meetsNext R left m r l = some a ∧ R.trade a (r - R.cost m (R.trade m r)) ≠ 0 := by
  rw [Spills, if_neg hw]
  exact ⟨fun h => h.2.2, fun h => ⟨hr, ht, h⟩⟩

theorem not_spills_stop (h : r = 0 ∨ R.trade m r = 0) : ¬ Spills R cap left (m :: l) r := by
  rw [Spills]
  rintro ⟨hr, ht, -⟩
  exact h.elim hr ht

/-! ## Where nothing spills -/

/-- A call that ended: for good with the fills of the reference, or at its cap on the way there. -/
def Follows (R : Rule M) (cap : ℕ) (fills : List (M × ℕ)) (g : List (M × ℕ) × ℕ) (bound : ℕ)
    (T : Tally M) : Prop :=
  (T.stop ≠ .capped ∧ T.fills = fills ++ g.1 ∧ T.remaining = g.2) ∨
  (T.stop = .capped ∧ T.remaining ≠ 0 ∧ ¬ Spills R cap cap T.makers T.remaining ∧
    ∃ before, T.fills = fills ++ before ∧ before ++ (greedy R T.makers T.remaining).1 = g.1 ∧
      (greedy R T.makers T.remaining).2 = g.2 ∧
      (T.makers.length < bound ∨ ∃ a l, T.makers = a :: l ∧ R.trade a T.remaining = 0))

theorem Follows.cons {g : List (M × ℕ) × ℕ} {b b' n : ℕ} {T : Tally M}
    (h : Follows R cap (fills ++ [(m, n)]) g b T) (hb : b ≤ b') :
    Follows R cap fills ((m, n) :: g.1, g.2) b' T := by
  rcases h with ⟨hs, hf, hr⟩ | ⟨hs, hr, hsp, before, hf, hg, hg2, hlen⟩
  · refine .inl ⟨hs, ?_, hr⟩
    rw [hf, List.append_assoc, List.singleton_append]
  · refine .inr ⟨hs, hr, hsp, (m, n) :: before, ?_, ?_, hg2, ?_⟩
    · rw [hf, List.append_assoc, List.singleton_append]
    · rw [List.cons_append, hg]
    · exact hlen.imp_left fun h => Nat.lt_of_lt_of_le h hb

theorem walk_follows : ∀ (l : List M) (left r : ℕ) (fills : List (M × ℕ)),
    ¬ Spills R cap left l r →
    Follows R cap fills (greedy R l r) l.length (walk R (left + 1) [] l r fills) := by
  intro l
  induction l with
  | nil =>
    intro left r fills _
    exact .inl ⟨by simp [walk], by simp [walk, greedy], by simp [walk, greedy]⟩
  | cons m l ih =>
    intro left r fills hsp
    by_cases hr : r = 0
    · refine .inl ?_
      rw [walk, if_pos hr, greedy_stop (.inl hr)]
      exact ⟨by simp, by simp, rfl⟩
    by_cases ht : R.trade m r = 0
    · refine .inl ?_
      rw [walk, if_neg hr, greedy_stop (.inr ht)]
      dsimp only
      rw [if_pos ht]
      exact ⟨by simp, by simp, rfl⟩
    by_cases hw : R.trade m r = R.size m
    · rw [spills_whole hr ht hw] at hsp
      rw [walk_whole hr ht hw, greedy_whole hr ht hw]
      cases left with
      | succ left => exact (ih left _ _ (by simpa using hsp)).cons (Nat.le_succ _)
      | zero =>
        -- the cap: the rest of the list is met by the next call
        rw [if_pos rfl] at hsp
        cases l with
        | nil => exact .inl ⟨by simp [walk], by simp [walk, greedy], by simp [walk, greedy]⟩
        | cons a l =>
          by_cases hr' : r - R.cost m (R.trade m r) = 0
          · refine .inl ?_
            unfold walk
            rw [if_pos hr', greedy_stop (.inl hr')]
            exact ⟨by simp, rfl, rfl⟩
          · refine .inr ?_
            unfold walk
            rw [if_neg hr']
            exact ⟨rfl, hr', hsp, [(m, R.trade m r)], rfl, rfl, rfl, .inl (Nat.lt_succ_self _)⟩
    · rw [spills_part hr ht hw] at hsp
      rw [walk_part hr ht hw, greedy_part hr ht hw, List.nil_append]
      cases l with
      | nil => exact .inl ⟨by simp [walk], by simp [walk], by simp [walk]⟩
      | cons a l =>
        by_cases hr' : r - R.cost m (R.trade m r) = 0
        · refine .inl ?_
          unfold walk
          rw [if_pos hr']
          exact ⟨by simp, rfl, rfl⟩
        cases left with
        | zero =>
          have hrest : R.trade (R.cut m (R.trade m r)) (r - R.cost m (R.trade m r)) = 0 := by
            by_contra hne
            exact hsp ⟨hr', _, rfl, hne⟩
          refine .inr ?_
          rw [walk, if_neg hr']
          refine ⟨rfl, hr', not_spills_stop (.inr hrest), [(m, R.trade m r)], rfl, ?_, ?_,
            .inr ⟨_, _, rfl, hrest⟩⟩
          · change [(m, R.trade m r)] ++ (greedy R (_ :: a :: l) _).1 = _
            rw [greedy_stop (.inr hrest)]
            rfl
          · change (greedy R (_ :: a :: l) _).2 = _
            rw [greedy_stop (.inr hrest)]
        | succ left =>
          have hnext : R.trade a (r - R.cost m (R.trade m r)) = 0 := by
            by_contra hne
            exact hsp ⟨hr', a, rfl, hne⟩
          refine .inl ?_
          rw [walk, if_neg hr']
          dsimp only
          rw [if_pos hnext]
          exact ⟨by simp, rfl, rfl⟩

/-! ## Where something spills -/

/-- A call after which the engine has made, or is about to make, a fill the reference lacks. -/
def Strays (R : Rule M) (cap : ℕ) (fills : List (M × ℕ)) (g : List (M × ℕ) × ℕ) (bound : ℕ)
    (T : Tally M) : Prop :=
  (∃ x more, T.fills = fills ++ g.1 ++ x :: more) ∨
  (T.stop = .capped ∧ T.remaining ≠ 0 ∧
    ((∃ before, T.fills = fills ++ before ∧ before ++ (greedy R T.makers T.remaining).1 = g.1 ∧
      Spills R cap cap T.makers T.remaining ∧ T.makers.length < bound) ∨
    (T.fills = fills ++ g.1 ∧ ∃ a l, T.makers = a :: l ∧ R.trade a T.remaining ≠ 0)))

theorem Strays.cons {g : List (M × ℕ) × ℕ} {b b' n : ℕ} {T : Tally M}
    (h : Strays R cap (fills ++ [(m, n)]) g b T) (hb : b ≤ b') :
    Strays R cap fills ((m, n) :: g.1, g.2) b' T := by
  rcases h with ⟨x, more, hf⟩ | ⟨hs, hr, ⟨before, hf, hg, hsp, hlen⟩ | ⟨hf, hmore⟩⟩
  · refine .inl ⟨x, more, ?_⟩
    rw [hf]
    simp
  · refine .inr ⟨hs, hr, .inl ⟨(m, n) :: before, ?_, ?_, hsp, Nat.lt_of_lt_of_le hlen hb⟩⟩
    · rw [hf, List.append_assoc, List.singleton_append]
    · rw [List.cons_append, hg]
  · refine .inr ⟨hs, hr, .inr ⟨?_, hmore⟩⟩
    rw [hf, List.append_assoc, List.singleton_append]

theorem walk_strays : ∀ (l : List M) (left r : ℕ) (fills : List (M × ℕ)),
    Spills R cap left l r →
    Strays R cap fills (greedy R l r) l.length (walk R (left + 1) [] l r fills) := by
  intro l
  induction l with
  | nil =>
    intro left r fills h
    exact h.elim
  | cons m l ih =>
    intro left r fills hsp
    have hr : r ≠ 0 := by
      rw [Spills] at hsp
      exact hsp.1
    have ht : R.trade m r ≠ 0 := by
      rw [Spills] at hsp
      exact hsp.2.1
    by_cases hw : R.trade m r = R.size m
    · rw [spills_whole hr ht hw] at hsp
      rw [walk_whole hr ht hw, greedy_whole hr ht hw]
      cases left with
      | succ left => exact (ih left _ _ (by simpa using hsp)).cons (Nat.le_succ _)
      | zero =>
        rw [if_pos rfl] at hsp
        cases l with
        | nil => exact hsp.elim
        | cons a l =>
          have hr' : r - R.cost m (R.trade m r) ≠ 0 := by
            rw [Spills] at hsp
            exact hsp.1
          refine .inr ?_
          rw [walk, if_neg hr']
          exact ⟨rfl, hr', .inl ⟨[(m, R.trade m r)], rfl, rfl, hsp, Nat.lt_succ_self _⟩⟩
    · rw [spills_part hr ht hw] at hsp
      rw [walk_part hr ht hw, greedy_part hr ht hw, List.nil_append]
      obtain ⟨hr', a, hmeets, hne⟩ := hsp
      cases l with
      | nil => cases hmeets
      | cons b l =>
        cases left with
        | zero =>
          obtain rfl : R.cut m (R.trade m r) = a := by simpa [meetsNext] using hmeets
          refine .inr ?_
          rw [walk, if_neg hr']
          exact ⟨rfl, hr', .inr ⟨rfl, _, _, rfl, hne⟩⟩
        | succ left =>
          obtain rfl : b = a := by simpa [meetsNext] using hmeets
          have hfirst : ∃ more, (walk R (left + 1) [R.cut m (R.trade m r)] (b :: l)
              (r - R.cost m (R.trade m r)) (fills ++ [(m, R.trade m r)])).fills =
              fills ++ [(m, R.trade m r)] ++ (b, R.trade b (r - R.cost m (R.trade m r))) :: more :=
            walk_first hr' hne
          obtain ⟨more, hmore⟩ := hfirst
          exact .inl ⟨_, more, hmore⟩

/-! ## The reference -/

theorem greedy_takes_whole : ∀ (l : List M) (r : ℕ) {a b : List (M × ℕ)} {x y : M × ℕ},
    (greedy R l r).1 = a ++ x :: y :: b → x.2 = R.size x.1 := by
  intro l
  induction l with
  | nil =>
    intro r a b x y h
    simp [greedy] at h
  | cons m l ih =>
    intro r a b x y h
    by_cases hstop : r = 0 ∨ R.trade m r = 0
    · rw [greedy_stop hstop] at h
      simp at h
    obtain ⟨hr, ht⟩ := not_or.mp hstop
    by_cases hw : R.trade m r = R.size m
    · rw [greedy_whole hr ht hw] at h
      cases a with
      | nil =>
        obtain ⟨rfl, -⟩ := List.cons.inj h
        exact hw
      | cons z a => exact ih _ (List.cons.inj h).2
    · rw [greedy_part hr ht hw] at h
      cases a with
      | nil => simp at h
      | cons z a => simp at h

theorem greedy_sublist : ∀ (l : List M) (r : ℕ), ((greedy R l r).1.map Prod.fst).Sublist l := by
  intro l
  induction l with
  | nil =>
    intro r
    exact List.nil_sublist _
  | cons m l ih =>
    intro r
    by_cases hstop : r = 0 ∨ R.trade m r = 0
    · rw [greedy_stop hstop]
      exact List.nil_sublist _
    obtain ⟨hr, ht⟩ := not_or.mp hstop
    by_cases hw : R.trade m r = R.size m
    · rw [greedy_whole hr ht hw]
      exact (ih _).cons_cons m
    · rw [greedy_part hr ht hw]
      exact (List.nil_sublist l).cons_cons m

theorem greedy_sum (htrade : ∀ m r, R.trade m r = min r (R.size m))
    (hcost : ∀ m n, R.cost m n = n) : ∀ (l : List M) (r : ℕ), (∀ m ∈ l, R.size m ≠ 0) →
      ((greedy R l r).1.map Prod.snd).sum = min r (l.map R.size).sum := by
  intro l
  induction l with
  | nil =>
    intro r _
    simp [greedy]
  | cons m l ih =>
    intro r hlive
    have hm := hlive m List.mem_cons_self
    have hl := fun a ha => hlive a (List.mem_cons_of_mem m ha)
    rw [List.map_cons, List.sum_cons]
    by_cases hr : r = 0
    · rw [greedy_stop (.inl hr), hr]
      simp
    have ht : R.trade m r ≠ 0 := by
      rw [htrade]
      omega
    by_cases hw : R.trade m r = R.size m
    · rw [greedy_whole hr ht hw, List.map_cons, List.sum_cons, ih _ hl, hcost, hw]
      rw [htrade] at hw
      omega
    · rw [greedy_part hr ht hw, List.map_cons, List.map_nil, List.sum_cons, List.sum_nil]
      rw [htrade] at hw ⊢
      omega

end CappedWalk
