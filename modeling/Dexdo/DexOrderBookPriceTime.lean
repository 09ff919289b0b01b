import Dexdo.DexOrderBookStructure
import Dexdo.CappedWalk

/-! # The match of one call by price and time

The crossing makers of a taker in line, best price first and older orders first within a price. -/
namespace DexOrderBookPriceTime

open TokenContractState (Address u64 u128)
open SolidityMapping IntrusiveList CappedWalk DexOrderBookState DexOrderBookCalls
open DexOrderBookLists DexOrderBookMatching

variable {s t u : Book} {k : Taker} {w : Progress} {cur lp : ℕ} {m : Maker} {A B l : List Maker}

structure Maker where
  id : ℕ
  price : ℕ
  amount : ℕ
  deriving DecidableEq, Repr

def makerOf (s : Book) (id : ℕ) : Maker :=
  ⟨id, (s.orders.get id).price, (s.orders.get id).amount⟩

def rule (k : Taker) : Rule Maker where
  size m := m.amount
  trade m r := tradeOf k m.price m.amount r
  cost m n := consumed k n m.price
  cut m n := { m with amount := m.amount - n }

def Before (k : Taker) (a b : Maker) : Prop :=
  Taker.worse k a.price b.price ∨ a.price = b.price ∧ a.id < b.id

def InReach (k : Taker) (s : Book) (m : Maker) : Prop :=
  m = makerOf s m.id ∧ m.id ∈ s.orders.keys ∧ (s.orders.get m.id).side = k.opposite ∧
    k.crosses m.price = true

structure Line (k : Taker) (s : Book) (l : List Maker) : Prop where
  sorted : l.Pairwise (Before k)
  mem : ∀ m, m ∈ l ↔ InReach k s m

/-! ## The order of the line -/

theorem worse_irrefl (p : ℕ) : ¬ Taker.worse k p p := by
  unfold Taker.worse
  split
  · exact lt_irrefl p
  · exact lt_irrefl p

theorem worse_trans {p q r : ℕ} (h : Taker.worse k p q) (h' : Taker.worse k q r) :
    Taker.worse k p r := by
  unfold Taker.worse at *
  split at h
  · rename_i hk
    rw [if_pos hk] at h' ⊢
    exact h.trans h'
  · rename_i hk
    rw [if_neg hk] at h' ⊢
    exact h'.trans h

theorem worse_total {p q : ℕ} (h : p ≠ q) : Taker.worse k p q ∨ Taker.worse k q p := by
  unfold Taker.worse
  split
  · exact lt_or_gt_of_ne h
  · exact (lt_or_gt_of_ne h).symm

theorem before_trans {a b c : Maker} (h : Before k a b) (h' : Before k b c) : Before k a c := by
  rcases h with h | ⟨hp, hi⟩
  · rcases h' with h' | ⟨hp', -⟩
    · exact .inl (worse_trans h h')
    · exact .inl (hp' ▸ h)
  · rcases h' with h' | ⟨hp', hi'⟩
    · exact .inl (hp ▸ h')
    · exact .inr ⟨hp.trans hp', hi.trans hi'⟩

theorem before_total {a b : Maker} (h : a.id ≠ b.id) : Before k a b ∨ Before k b a := by
  by_cases hp : a.price = b.price
  · rcases lt_or_gt_of_ne h with hi | hi
    · exact .inl (.inr ⟨hp, hi⟩)
    · exact .inr (.inr ⟨hp.symm, hi⟩)
  · rcases worse_total (k := k) hp with hw | hw
    · exact .inl (.inl hw)
    · exact .inr (.inl hw)

theorem before_asymm {a b : Maker} (h : Before k a b) : ¬ Before k b a := by
  intro h'
  rcases before_trans h h' with hw | ⟨-, hi⟩
  · exact worse_irrefl _ hw
  · exact lt_irrefl _ hi

theorem exists_line (k : Taker) (s : Book) : ∃ l, Line k s l := by
  classical
  let r : ℕ → ℕ → Prop := fun i j => Before k (makerOf s i) (makerOf s j) ∨ i = j
  have htotal : Std.Total r := ⟨fun i j => by
    by_cases h : i = j
    · exact .inl (.inr h)
    · exact (before_total (k := k) (a := makerOf s i) (b := makerOf s j) h).imp .inl .inl⟩
  have htrans : IsTrans ℕ r := ⟨fun a b c hab hbc => by
    rcases hab with hab | rfl
    · rcases hbc with hbc | rfl
      · exact .inl (before_trans hab hbc)
      · exact .inl hab
    · exact hbc⟩
  let ids := (s.orders.keys.filter fun i => InReach k s (makerOf s i)).toList
  have hperm : (ids.insertionSort r).Perm ids := List.perm_insertionSort r ids
  refine ⟨(ids.insertionSort r).map (makerOf s), ?_, fun m => ?_⟩
  · have hsorted := List.pairwise_insertionSort r ids
    have hnodup : (ids.insertionSort r).Nodup := hperm.nodup_iff.mpr (Finset.nodup_toList _)
    rw [List.pairwise_map]
    exact (hsorted.and hnodup).imp fun h => h.1.resolve_right h.2
  · rw [List.mem_map]
    constructor
    · rintro ⟨i, hi, rfl⟩
      rw [hperm.mem_iff, Finset.mem_toList, Finset.mem_filter] at hi
      exact hi.2
    · intro hm
      refine ⟨m.id, ?_, hm.1.symm⟩
      rw [hperm.mem_iff, Finset.mem_toList, Finset.mem_filter, ← hm.1]
      exact ⟨hm.2.1, hm⟩

/-! ## Standing in line -/

theorem InReach.place (h : InReach k s m) : (s.orders.get m.id).place = (k.opposite, m.price) := by
  obtain ⟨heq, -, hside, -⟩ := h
  have hprice : m.price = (s.orders.get m.id).price := congrArg Maker.price heq
  unfold Terms.place
  rw [hside, hprice]

theorem InReach.at (h : InReach k s m) : At k m.price m.id s := ⟨h.2.1, h.place⟩

theorem InReach.amount (h : InReach k s m) : (s.orders.get m.id).amount = m.amount :=
  (congrArg Maker.amount h.1).symm

theorem inReach_of_at (h : At k lp cur s) (hc : k.crosses lp = true) : InReach k s (makerOf s cur) := by
  have hprice : (s.orders.get cur).price = lp := congrArg Prod.snd h.2
  refine ⟨rfl, h.1, congrArg Prod.fst h.2, ?_⟩
  change k.crosses (s.orders.get cur).price = true
  rw [hprice]
  exact hc

theorem Line.level_mem (h : Line k s l) (hl : Linked s) (hm : m ∈ l) :
    m.price ∈ (s.levels k.opposite).keys := by
  have hat := ((h.mem m).mp hm).at
  have hne := hl.prices.first_ne_zero hat.1
  rw [hat.2] at hne
  exact (hl.level_iff _ _).mpr hne

/-- Behind a maker in line stand the rest of its level and worse levels. -/
theorem Line.next (h : Line k s (B ++ m :: A)) (hl : Linked s) :
    ((s.orders.get m.id).nextAtPrice = 0 → ∀ a ∈ A, Taker.worse k m.price a.price) ∧
    ((s.orders.get m.id).nextAtPrice ≠ 0 →
      ∃ A', A = makerOf s (s.orders.get m.id).nextAtPrice :: A' ∧
        At k m.price (s.orders.get m.id).nextAtPrice s) := by
  have hm : InReach k s m := (h.mem m).mp (by simp)
  have hafter : ∀ a ∈ A, Before k m a :=
    (List.pairwise_cons.mp (List.pairwise_append.mp h.sorted).2.1).1
  have hreach : ∀ a ∈ A, InReach k s a := fun a ha => (h.mem a).mp (by simp [ha])
  have hsame : ∀ a ∈ A, a.price = m.price →
      (s.orders.get m.id).nextAtPrice ≠ 0 ∧ (s.orders.get m.id).nextAtPrice ≤ a.id := by
    intro a ha hp
    have hlt : m.id < a.id := by
      rcases hafter a ha with hw | ⟨-, hlt⟩
      · rw [hp] at hw
        exact absurd hw (worse_irrefl _)
      · exact hlt
    refine hl.prices.next_le hm.2.1 (hreach a ha).2.1 ?_ hlt
    rw [(hreach a ha).place, hm.place, hp]
  constructor
  · intro hz a ha
    rcases hafter a ha with hw | ⟨hp, -⟩
    · exact hw
    · exact absurd hz (hsame a ha hp.symm).1
  · intro hne
    obtain ⟨hmem, hcls, hlt⟩ := hl.prices.next_mem hm.2.1 hne
    have hat : At k m.price (s.orders.get m.id).nextAtPrice s := ⟨hmem, hcls.trans hm.place⟩
    have hin := (h.mem _).mpr (inReach_of_at hat hm.2.2.2)
    have hnp : (makerOf s (s.orders.get m.id).nextAtPrice).price = m.price :=
      congrArg Prod.snd hat.2
    have hbefore : Before k m (makerOf s (s.orders.get m.id).nextAtPrice) := .inr ⟨hnp.symm, hlt⟩
    have hA : makerOf s (s.orders.get m.id).nextAtPrice ∈ A := by
      rcases List.mem_append.mp hin with hB | hA
      · have hb := (List.pairwise_append.mp h.sorted).2.2 _ hB m List.mem_cons_self
        exact absurd hb (before_asymm hbefore)
      · rcases List.mem_cons.mp hA with heq | hA
        · exact absurd (congrArg Maker.id heq) hlt.ne'
        · exact hA
    cases A with
    | nil => exact absurd hA List.not_mem_nil
    | cons a A' =>
      rcases List.mem_cons.mp hA with heq | hA'
      · exact ⟨A', by rw [heq], hat⟩
      -- the head of the rest would stand between the maker and its next order
      exfalso
      have hb := (List.pairwise_cons.mp (List.pairwise_cons.mp
        (List.pairwise_append.mp h.sorted).2.1).2).1 _ hA'
      rcases hafter a List.mem_cons_self with hw | ⟨hp, -⟩
      · rcases hb with hw' | ⟨hp', -⟩
        · exact worse_irrefl _ (hnp ▸ worse_trans hw hw')
        · rw [hp', hnp] at hw
          exact worse_irrefl _ hw
      · obtain ⟨-, hle⟩ := hsame a List.mem_cons_self hp.symm
        rcases hb with hw' | ⟨-, hlt'⟩
        · rw [← hp, hnp] at hw'
          exact worse_irrefl _ hw'
        · exact absurd hle (not_le.mpr hlt')

/-- The first maker of a level stands first in line among those not yet passed. -/
theorem Line.first (h : Line k s (B ++ m :: A)) (hl : Linked s)
    (hB : ∀ b ∈ B, Taker.worse k b.price m.price) :
    (s.level k.opposite m.price).firstOrderId = m.id := by
  have hm : InReach k s m := (h.mem m).mp (by simp)
  have hne : (s.level k.opposite m.price).firstOrderId ≠ 0 := by
    have hf := hl.prices.first_ne_zero hm.2.1
    rw [hm.place] at hf
    exact hf
  have hle : (s.level k.opposite m.price).firstOrderId ≤ m.id := by
    have hf := hl.prices.first_le hm.2.1
    rw [hm.place] at hf
    exact hf
  have hat : At k m.price (s.level k.opposite m.price).firstOrderId s := At.first hl hne
  have hprice : (makerOf s (s.level k.opposite m.price).firstOrderId).price = m.price :=
    congrArg Prod.snd hat.2
  rcases List.mem_append.mp ((h.mem _).mpr (inReach_of_at hat hm.2.2.2)) with hmem | hmem
  · have hw := hB _ hmem
    rw [hprice] at hw
    exact absurd hw (worse_irrefl _)
  · rcases List.mem_cons.mp hmem with heq | hmem
    · exact congrArg Maker.id heq
    · have hb := (List.pairwise_cons.mp (List.pairwise_append.mp h.sorted).2.1).1 _ hmem
      rcases hb with hw | ⟨-, hlt⟩
      · rw [hprice] at hw
        exact absurd hw (worse_irrefl _)
      · exact absurd hle (not_le.mpr hlt)

/-! ## One fill -/

def legs (takerId : ℕ) (f : Maker × ℕ) : List (ℕ × ℕ × ℕ × Bool) :=
  [(f.1.id, f.2, f.1.price, false), (takerId, f.2, f.1.price, true)]

def fillEvent : Out → Option (ℕ × ℕ × ℕ × Bool)
  | .orderFilled id amount price _ isTaker _ _ => some (id, amount, price, isTaker)
  | _ => none

def fillEvents (s : Book) : List (ℕ × ℕ × ℕ × Bool) := s.out.filterMap fun m => fillEvent m.body

theorem fillMaker_events : fillEvents (fillMaker k m.price m.id w).book = fillEvents w.book ++
    legs k.orderId (m, tradeOf k m.price (w.book.orders.get m.id).amount w.remaining) := by
  unfold fillEvents
  rw [fillMaker_out, List.filterMap_append]
  congr 1
  unfold matchMessages
  by_cases hc : (w.book.orders.get m.id).amount =
      tradeOf k m.price (w.book.orders.get m.id).amount w.remaining
  · simp [legs, fillEvent, ← hc]
  · simp [legs, fillEvent, hc]

def passed (B : List Maker) (m : Maker) (n : ℕ) : List Maker :=
  if n = m.amount then B else B ++ [{ m with amount := m.amount - n }]

theorem InReach.of_one (h : OneMaker cur s t) {x : Maker} (hx : x.id ≠ cur) :
    InReach k t x ↔ InReach k s x := by
  have hkeys : x.id ∈ t.orders.keys ↔ x.id ∈ s.orders.keys :=
    ⟨fun hm => h.keys hm, fun hm => (h.others _ hm hx).1⟩
  by_cases hm : x.id ∈ s.orders.keys
  · obtain ⟨hm', hterms⟩ := h.others _ hm hx
    have hmaker : makerOf t x.id = makerOf s x.id := by
      unfold makerOf
      rw [congrArg Terms.price hterms, congrArg Terms.amount hterms]
    have hside : (t.orders.get x.id).side = (s.orders.get x.id).side :=
      congrArg Terms.side hterms
    unfold InReach
    rw [hkeys, hmaker, hside]
  · exact iff_of_false (fun hr => hm (hkeys.mp hr.2.1)) (fun hr => hm hr.2.1)

theorem Line.fill (h : Line k w.book (B ++ m :: A)) (hl : Linked w.book) :
    Line k (fillMaker k m.price m.id w).book
      (passed B m (tradeOf k m.price m.amount w.remaining) ++ A) := by
  have hm : InReach k w.book m := (h.mem m).mp (by simp)
  have hone := fillMaker_one (w := w) hl hm.at
  have hown := fillMaker_own (w := w) hl hm.at
  rw [hm.amount] at hown
  have hid : ∀ x, InReach k w.book x → x.id = m.id → x = m := by
    intro x hx hxm
    rw [hx.1, hm.1, hxm]
  have hsplit := List.pairwise_append.mp h.sorted
  have hB : ∀ x ∈ B, x.id ≠ m.id := by
    intro x hx hxm
    have hb := hsplit.2.2 x hx m List.mem_cons_self
    rw [hid x ((h.mem x).mp (by simp [hx])) hxm] at hb
    exact before_asymm hb hb
  have hA : ∀ x ∈ A, x.id ≠ m.id := by
    intro x hx hxm
    have hb := (List.pairwise_cons.mp hsplit.2.1).1 x hx
    rw [hid x ((h.mem x).mp (by simp [hx])) hxm] at hb
    exact before_asymm hb hb
  have hothers : ∀ x : Maker, x.id ≠ m.id →
      (InReach k (fillMaker k m.price m.id w).book x ↔ x ∈ B ∨ x ∈ A) := by
    intro x hx
    rw [InReach.of_one hone hx, ← h.mem x, List.mem_append, List.mem_cons]
    constructor
    · rintro (hb | rfl | ha)
      · exact .inl hb
      · exact absurd rfl hx
      · exact .inr ha
    · rintro (hb | ha)
      · exact .inl hb
      · exact .inr (.inr ha)
  unfold passed
  by_cases hw : tradeOf k m.price m.amount w.remaining = m.amount
  · rw [if_pos hw]
    refine ⟨?_, fun x => ?_⟩
    · rw [List.pairwise_append]
      exact ⟨hsplit.1, (List.pairwise_cons.mp hsplit.2.1).2,
        fun a ha b hb => hsplit.2.2 a ha b (List.mem_cons_of_mem _ hb)⟩
    · rw [List.mem_append]
      by_cases hx : x.id = m.id
      · refine iff_of_false ?_ fun hr => ?_
        · rintro (hb | ha)
          · exact hB x hb hx
          · exact hA x ha hx
        · have hgone := hr.2.1
          rw [hown.1 hw, hx] at hgone
          exact absurd rfl (Finset.mem_erase.mp hgone).1
      · rw [hothers x hx]
  · rw [if_neg hw]
    obtain ⟨hmem, hamount⟩ := hown.2 hw
    obtain ⟨a, f, hterms⟩ := hone.own hmem
    have hprice : ((fillMaker k m.price m.id w).book.orders.get m.id).price = m.price := by
      rw [congrArg Terms.price hterms]
      exact (congrArg Maker.price hm.1).symm
    have hside : ((fillMaker k m.price m.id w).book.orders.get m.id).side = k.opposite := by
      rw [congrArg Terms.side hterms]
      exact hm.2.2.1
    have hcut : makerOf (fillMaker k m.price m.id w).book m.id =
        { m with amount := m.amount - tradeOf k m.price m.amount w.remaining } := by
      unfold makerOf
      rw [hamount, hprice]
    have hreach : InReach k (fillMaker k m.price m.id w).book
        { m with amount := m.amount - tradeOf k m.price m.amount w.remaining } :=
      ⟨hcut.symm, hmem, hside, hm.2.2.2⟩
    refine ⟨?_, fun x => ?_⟩
    · rw [List.append_assoc, List.singleton_append, List.pairwise_append]
      obtain ⟨hfirst, hrest⟩ := List.pairwise_cons.mp hsplit.2.1
      refine ⟨hsplit.1, List.pairwise_cons.mpr ⟨hfirst, hrest⟩, ?_⟩
      intro a ha b hb
      rcases List.mem_cons.mp hb with rfl | hb
      · exact hsplit.2.2 a ha m List.mem_cons_self
      · exact hsplit.2.2 a ha b (List.mem_cons_of_mem _ hb)
    · rw [List.append_assoc, List.singleton_append, List.mem_append, List.mem_cons]
      by_cases hx : x.id = m.id
      · constructor
        · rintro (hb | rfl | ha)
          · exact absurd hx (hB x hb)
          · exact hreach
          · exact absurd hx (hA x ha)
        · intro hr
          refine .inr (.inl ?_)
          rw [hr.1, hx, hcut]
      · rw [hothers x hx]
        constructor
        · rintro (hb | rfl | ha)
          · exact .inl hb
          · exact absurd rfl hx
          · exact .inr ha
        · rintro (hb | ha)
          · exact .inl hb
          · exact .inr (.inr ha)

/-! ## The walk of a call -/

theorem Line.of_orders (h : Line k s l) (ho : t.orders = s.orders) : Line k t l := by
  refine ⟨h.sorted, fun m => ?_⟩
  rw [h.mem]
  unfold InReach makerOf
  rw [ho]

theorem Line.quiet (h : Line k s l) (hq : Quiet s t) : Line k t l := h.of_orders hq.orders

theorem Line.sized {n : ℕ} (h : Line k s l) : Line { k with amount := n } s l := ⟨h.sorted, h.mem⟩

theorem Line.of_sized {n : ℕ} (h : Line { k with amount := n } s l) : Line k s l := ⟨h.sorted, h.mem⟩

/-- The progress `v` is where the walk along `A` has come from `w`. -/
structure Reaches (k : Taker) (left : ℕ) (B A : List Maker) (w : Progress) (left' : ℕ)
    (B' A' : List Maker) (v : Progress) : Prop where
  linked : Linked v.book
  line : Line k v.book (B' ++ A')
  fills : ∃ fills, (∀ F, walk (rule k) left B A w.remaining F =
      walk (rule k) left' B' A' v.remaining (F ++ fills)) ∧
    fillEvents v.book = fillEvents w.book ++ fills.flatMap (legs k.orderId)

variable {left left' left'' : ℕ} {A' B' A'' B'' : List Maker} {v v' : Progress}

theorem Reaches.refl (hl : Linked w.book) (h : Line k w.book (B ++ A)) :
    Reaches k left B A w left B A w :=
  ⟨hl, h, [], fun F => by rw [List.append_nil], by simp⟩

theorem Reaches.trans (h : Reaches k left B A w left' B' A' v)
    (h' : Reaches k left' B' A' v left'' B'' A'' v') : Reaches k left B A w left'' B'' A'' v' := by
  obtain ⟨f, hwalk, hev⟩ := h.fills
  obtain ⟨f', hwalk', hev'⟩ := h'.fills
  refine ⟨h'.linked, h'.line, f ++ f', fun F => ?_, ?_⟩
  · rw [hwalk F, hwalk' (F ++ f), List.append_assoc]
  · rw [hev', hev, List.flatMap_append, List.append_assoc]

theorem Reaches.quiet (h : Reaches k left B A w left' B' A' v) (hq : Quiet v.book s)
    (hev : fillEvents s = fillEvents v.book) :
    Reaches k left B A w left' B' A' { v with book := s } := by
  obtain ⟨f, hwalk, hf⟩ := h.fills
  exact ⟨hq.linked h.linked, h.line.quiet hq, f, hwalk, hev.trans hf⟩

theorem Reaches.fill (hl : Linked w.book) (h : Line k w.book (B ++ m :: A))
    (hr : w.remaining ≠ 0) (ht : tradeOf k m.price m.amount w.remaining ≠ 0) :
    Reaches k (left + 1) B (m :: A) w left
      (passed B m (tradeOf k m.price m.amount w.remaining)) A (fillMaker k m.price m.id w) := by
  have hm : InReach k w.book m := (h.mem m).mp (by simp)
  have hrem : (fillMaker k m.price m.id w).remaining =
      w.remaining - consumed k (tradeOf k m.price m.amount w.remaining) m.price := by
    rw [← hm.amount]
    rfl
  refine ⟨(fillMaker_one hl hm.at).linked, h.fill hl,
    [(m, tradeOf k m.price m.amount w.remaining)], fun F => ?_, ?_⟩
  · rw [walk, if_neg hr, if_neg (show (rule k).trade m w.remaining ≠ 0 from ht), hrem]
    rfl
  · rw [fillMaker_events, hm.amount]
    simp

/-- Where the walk along the level `lp` stands: at its next order, or past it. -/
def Standing (k : Taker) (lp cur : ℕ) (s : Book) (A : List Maker) : Prop :=
  (cur = 0 ∧ ∀ a ∈ A, Taker.worse k lp a.price) ∨
  (cur ≠ 0 ∧ ∃ A', A = makerOf s cur :: A' ∧ (makerOf s cur).price = lp)

/-- How the walk along a level ends. -/
def LevelDone (k : Taker) (lp : ℕ) (r : ℕ × Progress × WalkEnd) (B A : List Maker) : Prop :=
  match r.2.2 with
  | .done => r.2.1.remaining = 0 ∨
      (∀ a ∈ A, Taker.worse k lp a.price) ∧ ∀ b ∈ B, ¬ Taker.worse k lp b.price
  | .capped => r.1 = 0 ∧ r.2.1.remaining ≠ 0 ∧ A ≠ []
  | .dust => r.2.1.remaining ≠ 0 ∧ ∃ m A' n, A = m :: A' ∧ r.1 = n + 1 ∧
      tradeOf k m.price m.amount r.2.1.remaining = 0

theorem weighed_events {p r : ℕ} : fillEvents (weighed k p r s) = fillEvents s := by
  unfold weighed fillEvents
  split <;> rfl

theorem Line.standing (hl : Linked w.book) (h : Line k w.book (B ++ m :: A)) :
    Standing k m.price (w.book.orders.get m.id).nextAtPrice (fillMaker k m.price m.id w).book A := by
  have hm : InReach k w.book m := (h.mem m).mp (by simp)
  obtain ⟨hzero, hnext⟩ := h.next hl
  by_cases hn : (w.book.orders.get m.id).nextAtPrice = 0
  · exact .inl ⟨hn, hzero hn⟩
  · obtain ⟨A', hA, hat⟩ := hnext hn
    obtain ⟨-, -, hlt⟩ := hl.prices.next_mem hm.2.1 hn
    obtain ⟨-, hterms⟩ := (fillMaker_one (w := w) hl hm.at).others _ hat.1 hlt.ne'
    have hsame : makerOf (fillMaker k m.price m.id w).book (w.book.orders.get m.id).nextAtPrice =
        makerOf w.book (w.book.orders.get m.id).nextAtPrice := by
      unfold makerOf
      rw [congrArg Terms.price hterms, congrArg Terms.amount hterms]
    refine .inr ⟨hn, A', ?_, ?_⟩
    · rw [hsame]
      exact hA
    · rw [hsame]
      exact congrArg Prod.snd hat.2

theorem passed_behind {n : ℕ} (hB : ∀ b ∈ B, ¬ Taker.worse k m.price b.price) :
    ∀ b ∈ passed B m n, ¬ Taker.worse k m.price b.price := by
  intro b hb
  unfold passed at hb
  split at hb
  · exact hB b hb
  · rcases List.mem_append.mp hb with hb | hb
    · exact hB b hb
    · rw [List.mem_singleton.mp hb]
      exact worse_irrefl _

theorem matchOrders_reaches : ∀ (left cur : ℕ) (w : Progress) (B A : List Maker),
    Linked w.book → Line k w.book (B ++ A) → (∀ b ∈ B, ¬ Taker.worse k lp b.price) →
    Standing k lp cur w.book A →
    ∃ B' A', A' <:+ A ∧ Reaches k left B A w (matchOrders k lp left cur w).1 B' A'
        (matchOrders k lp left cur w).2.1 ∧
      LevelDone k lp (matchOrders k lp left cur w) B' A' := by
  intro left
  induction left with
  | zero =>
    intro cur w B A hl h hB hs
    refine ⟨B, A, List.suffix_rfl, ?_, ?_⟩
    · unfold matchOrders
      split
      · exact .refl hl h
      · exact .refl hl h
    · unfold matchOrders
      split
      · rename_i hstop
        rcases hs with ⟨-, hA⟩ | ⟨hne, -⟩
        · exact .inr ⟨hA, hB⟩
        · exact .inl (hstop.resolve_left hne)
      · rename_i hgo
        obtain ⟨hcur, hrem⟩ := not_or.mp hgo
        rcases hs with ⟨hz, -⟩ | ⟨-, A', hA, -⟩
        · exact absurd hz hcur
        · exact ⟨rfl, hrem, by rw [hA]; exact List.cons_ne_nil _ _⟩
  | succ left ih =>
    intro cur w B A hl h hB hs
    unfold matchOrders
    split
    · rename_i hstop
      refine ⟨B, A, List.suffix_rfl, .refl hl h, ?_⟩
      rcases hs with ⟨-, hA⟩ | ⟨hne, -⟩
      · exact .inr ⟨hA, hB⟩
      · exact .inl (hstop.resolve_left hne)
    rename_i hgo
    obtain ⟨hcur, hrem⟩ := not_or.mp hgo
    rcases hs with ⟨hz, -⟩ | ⟨-, A', rfl, rfl⟩
    · exact absurd hz hcur
    have hm : InReach k w.book (makerOf w.book cur) := (h.mem _).mp (by simp)
    dsimp only
    split
    · rename_i hdust
      refine ⟨B, makerOf w.book cur :: A', List.suffix_rfl,
        (Reaches.refl hl h).quiet weighed_quiet weighed_events, hrem, makerOf w.book cur, A', left, rfl, rfl, hdust.2⟩
    · rename_i htrade
      have hne : tradeOf k (makerOf w.book cur).price (makerOf w.book cur).amount w.remaining ≠ 0 :=
        tradeOf_ne_zero hrem (hl.live cur hm.2.1) htrade
      have hfill : Reaches k (left + 1) B (makerOf w.book cur :: A') w left
          (passed B (makerOf w.book cur) _) A' _ := .fill hl h hrem hne
      obtain ⟨B', A'', hsuf, hreach, hdone⟩ := ih (w.book.orders.get cur).nextAtPrice _ _ A'
        hfill.linked hfill.line (passed_behind hB) (h.standing hl)
      exact ⟨B', A'', hsuf.trans (List.suffix_cons _ _), hfill.trans hreach, hdone⟩

/-! ## The walk over levels -/

/-- How the walk of a call ends. -/
def WalkDone (k : Taker) (e : WalkEnd) (left : ℕ) (A : List Maker) (remaining : ℕ) : Prop :=
  match e with
  | .done => remaining = 0 ∨ A = []
  | .capped => left = 0 ∧ remaining ≠ 0 ∧ A ≠ []
  | .dust => remaining ≠ 0 ∧ ∃ m A' n, A = m :: A' ∧ left = n + 1 ∧
      tradeOf k m.price m.amount remaining = 0

structure Heads (k : Taker) (o : Option ℕ) (A : List Maker) : Prop where
  none : A = [] → ∀ lp, o = some lp → k.crosses lp = false
  some : ∀ m A', A = m :: A' → o = some m.price

theorem Line.heads (hl : Linked s) (h : Line k s (B ++ A)) {S : Finset ℕ} {o : Option ℕ}
    (hS : ∀ p ∈ S, p ∈ (s.levels k.opposite).keys ∧ ∀ b ∈ B, b.price ≠ p)
    (hAS : ∀ a ∈ A, a.price ∈ S) (ho : Leads k S o) : Heads k o A := by
  -- an order on a crossing level of `S` is ahead
  have hahead : ∀ q ∈ S, k.crosses q = true → ∃ a ∈ A, a.price = q := by
    intro q hq hc
    obtain ⟨hkey, hnotB⟩ := hS q hq
    have hat : At k q (s.level k.opposite q).firstOrderId s :=
      At.first hl ((hl.level_iff _ _).mp hkey)
    have hprice : (makerOf s (s.level k.opposite q).firstOrderId).price = q :=
      congrArg Prod.snd hat.2
    rcases List.mem_append.mp ((h.mem _).mpr (inReach_of_at hat hc)) with hb | ha
    · exact absurd hprice (hnotB _ hb)
    · exact ⟨_, ha, hprice⟩
  refine ⟨fun hA lp hlp => ?_, fun m A' hA => ?_⟩
  · rw [← Bool.not_eq_true]
    intro hc
    obtain ⟨a, ha, -⟩ := hahead lp (ho.mem lp hlp) hc
    rw [hA] at ha
    exact List.not_mem_nil ha
  · subst hA
    obtain ⟨q, hq, hmq⟩ := ho.best m.price (hAS m List.mem_cons_self)
    rw [hq]
    rcases hmq with hmq | hw
    · rw [hmq]
    -- a better level of `S` would stand before the first maker in line
    exfalso
    have hc : k.crosses q = true := by
      by_contra hn
      have hm : InReach k s m := (h.mem m).mp (by simp)
      have hnc := crosses_worse ((Bool.not_eq_true _).mp hn) hw
      rw [hm.2.2.2] at hnc
      cases hnc
    obtain ⟨a, ha, haq⟩ := hahead q (ho.mem q hq) hc
    rcases List.mem_cons.mp ha with rfl | ha
    · rw [haq] at hw
      exact worse_irrefl _ hw
    · rcases (List.pairwise_cons.mp (List.pairwise_append.mp h.sorted).2.1).1 a ha with hb | ⟨hb, -⟩
      · rw [haq] at hb
        exact worse_irrefl _ (worse_trans hw hb)
      · rw [← haq, ← hb] at hw
        exact worse_irrefl _ hw

def pricesOf (A : List Maker) : Finset ℕ := (A.map Maker.price).toFinset

theorem mem_pricesOf {p : ℕ} : p ∈ pricesOf A ↔ ∃ a ∈ A, a.price = p := by
  simp [pricesOf]

theorem pricesOf_suffix (h : A' <:+ m :: A) (hA : ∀ a ∈ A', Taker.worse k m.price a.price) :
    (pricesOf A').card < (pricesOf (m :: A)).card := by
  refine Finset.card_lt_card (Finset.ssubset_iff_subset_ne.mpr ⟨fun p hp => ?_, fun heq => ?_⟩)
  · obtain ⟨a, ha, rfl⟩ := mem_pricesOf.mp hp
    exact mem_pricesOf.mpr ⟨a, h.subset ha, rfl⟩
  · have hm : m.price ∈ pricesOf A' := heq ▸ mem_pricesOf.mpr ⟨m, List.mem_cons_self, rfl⟩
    obtain ⟨a, ha, hp⟩ := mem_pricesOf.mp hm
    exact worse_irrefl _ (hp ▸ hA a ha)

theorem Line.heads_next (hl : Linked s) (h : Line k s (B ++ A))
    (hA : ∀ a ∈ A, Taker.worse k lp a.price) (hB : ∀ b ∈ B, ¬ Taker.worse k lp b.price) :
    Heads k (nextOpposite k lp s) A := by
  refine h.heads hl (fun p hp => ?_) (fun a ha => ?_) (nextOpposite_leads k lp s)
  · obtain ⟨hkey, hw⟩ := Finset.mem_filter.mp hp
    exact ⟨hkey, fun b hb heq => hB b hb (heq ▸ hw)⟩
  · exact Finset.mem_filter.mpr ⟨h.level_mem hl (List.mem_append_right B ha), hA a ha⟩

theorem matchLevels_reaches : ∀ (levels left : ℕ) (o : Option ℕ) (w : Progress)
    (B A : List Maker), Linked w.book → Line k w.book (B ++ A) →
    (∀ b ∈ B, ∀ a ∈ A, Taker.worse k b.price a.price) → Heads k o A →
    (pricesOf A).card ≤ levels →
    ∃ left' B' A', Reaches k left B A w left' B' A' (matchLevels k levels left o w).1 ∧
      WalkDone k (matchLevels k levels left o w).2 left' A'
        (matchLevels k levels left o w).1.remaining := by
  intro levels
  induction levels with
  | zero =>
    intro left o w B A hl h hsep ho hcard
    refine ⟨left, B, A, .refl hl h, .inr ?_⟩
    rw [List.eq_nil_iff_forall_not_mem]
    intro a ha
    have hempty := Finset.card_eq_zero.mp (Nat.le_zero.mp hcard)
    exact Finset.notMem_empty a.price (hempty ▸ mem_pricesOf.mpr ⟨a, ha, rfl⟩)
  | succ levels ih =>
    intro left o w B A hl h hsep ho hcard
    cases o with
    | none =>
      refine ⟨left, B, A, .refl hl h, .inr ?_⟩
      cases A with
      | nil => rfl
      | cons m A => cases ho.some m A rfl
    | some lp =>
      unfold matchLevels
      cases A with
      | nil =>
        rw [if_pos (.inr (ho.none rfl lp rfl))]
        exact ⟨left, B, [], .refl hl h, .inr rfl⟩
      | cons m A =>
        obtain rfl : lp = m.price := Option.some.inj (ho.some m A rfl)
        split
        · rename_i hstop
          have hm : InReach k w.book m := (h.mem m).mp (by simp)
          refine ⟨left, B, m :: A, .refl hl h, .inl (hstop.resolve_right ?_)⟩
          rw [hm.2.2.2]
          exact Bool.noConfusion
        have hm : InReach k w.book m := (h.mem m).mp (by simp)
        have hB : ∀ b ∈ B, Taker.worse k b.price m.price := fun b hb => hsep b hb m List.mem_cons_self
        have hstand : Standing k m.price (w.book.level k.opposite m.price).firstOrderId w.book
            (m :: A) := by
          rw [h.first hl hB]
          refine .inr ⟨hl.prices.ne_zero hm.2.1, A, ?_, ?_⟩
          · rw [← hm.1]
          · rw [← hm.1]
        obtain ⟨B', A', hsuf, hreach, hdone⟩ := matchOrders_reaches left _ w B (m :: A) hl h
          (fun b hb hw => worse_irrefl _ (worse_trans (hB b hb) hw)) hstand
        generalize matchOrders k m.price left _ w = r at hreach hdone
        obtain ⟨left', v, e⟩ := r
        cases e with
        | capped => exact ⟨left', B', A', hreach, hdone⟩
        | dust => exact ⟨left', B', A', hreach, hdone⟩
        | done =>
          dsimp only at hreach ⊢
          by_cases hv : v.remaining = 0
          · rw [matchLevels_spent hv]
            exact ⟨left', B', A', hreach, .inl hv⟩
          · obtain ⟨hA', hB'⟩ := Or.resolve_left hdone hv
            have hsep' : ∀ b ∈ B', ∀ a ∈ A', Taker.worse k b.price a.price := by
              intro b hb a ha
              by_cases heq : b.price = m.price
              · rw [heq]
                exact hA' a ha
              · rcases worse_total (k := k) heq with hw | hw
                · exact worse_trans hw (hA' a ha)
                · exact absurd hw (hB' b hb)
            have hlt := pricesOf_suffix hsuf hA'
            obtain ⟨left'', B'', A'', hreach', hdone'⟩ := ih left'
              (nextOpposite k m.price v.book) v B' A' hreach.linked hreach.line hsep'
              (hreach.line.heads_next hreach.linked hA' hB') (by omega)
            exact ⟨left'', B'', A'', hreach.trans hreach', hdone'⟩

def endOf : Stop → WalkEnd
  | .done => .done
  | .capped => .capped
  | .dust => .dust

/-- The match went from `w` to `v` as the capped walk `T` says. -/
structure Walked (k : Taker) (w v : Progress) (T : Tally Maker) : Prop where
  linked : Linked v.book
  remaining : v.remaining = T.remaining
  line : Line k v.book T.makers
  fills : fillEvents v.book = fillEvents w.book ++ T.fills.flatMap (legs k.orderId)

theorem WalkDone.walk {e : WalkEnd} {r : ℕ} {F : List (Maker × ℕ)} (h : WalkDone k e left A r) :
    (walk (rule k) left B A r F).fills = F ∧ (walk (rule k) left B A r F).remaining = r ∧
      (walk (rule k) left B A r F).makers = B ++ A ∧ endOf (walk (rule k) left B A r F).stop = e := by
  cases e with
  | done =>
    cases A with
    | nil => simp [CappedWalk.walk, endOf]
    | cons m A =>
      have hr : r = 0 := Or.resolve_right h (List.cons_ne_nil m A)
      unfold CappedWalk.walk
      simp [hr, endOf]
  | capped =>
    obtain ⟨rfl, hr, hA⟩ := h
    obtain ⟨m, A, rfl⟩ := List.exists_cons_of_ne_nil hA
    simp [CappedWalk.walk, hr, endOf]
  | dust =>
    obtain ⟨hr, m, A, n, rfl, rfl, ht⟩ := h
    have hrule : (rule k).trade m r = 0 := ht
    simp [CappedWalk.walk, hr, hrule, endOf]

/-- One call of the match is one capped walk along the crossing makers. -/
theorem matchTaker_walk (hl : Linked w.book) (h : Line k w.book l) :
    Walked k w (matchTaker k w).1 (walk (rule k) maxMatchesPerCall [] l w.remaining []) ∧
      (matchTaker k w).2 = endOf (walk (rule k) maxMatchesPerCall [] l w.remaining []).stop := by
  have hcard : (pricesOf l).card ≤ (w.book.levels k.opposite).keys.card := by
    refine Finset.card_le_card fun p hp => ?_
    obtain ⟨m, hm, rfl⟩ := mem_pricesOf.mp hp
    exact h.level_mem hl hm
  have hheads : Heads k (bestOpposite k w.book) l := by
    refine Line.heads (B := []) hl h (fun p hp => ⟨hp, ?_⟩) (fun a ha => h.level_mem hl ha)
      (bestOpposite_leads k w.book)
    intro b hb
    exact absurd hb List.not_mem_nil
  obtain ⟨left', B', A', hreach, hdone⟩ := matchLevels_reaches (k := k) _ maxMatchesPerCall _ w []
    l hl h (fun b hb => absurd hb List.not_mem_nil) hheads hcard
  obtain ⟨fills, hwalk, hev⟩ := hreach.fills
  obtain ⟨hf, hr, hm, he⟩ := hdone.walk (B := B') (F := fills)
  rw [hwalk [], List.nil_append]
  refine ⟨⟨hreach.linked, hr.symm, ?_, ?_⟩, he.symm⟩
  · rw [hm]
    exact hreach.line
  · rw [hf]
    exact hev

end DexOrderBookPriceTime
