import Mathlib.Data.Finset.Card
import Mathlib.Data.List.Nodup

/-! # Doubly linked lists threaded through nodes

Nodes are positive numbers, `0` ends a list. -/
namespace IntrusiveList

/-- The nodes of `l` linked in both directions, with `before` and `after` at its ends. -/
def Seg (next prev : ℕ → ℕ) : ℕ → ℕ → List ℕ → Prop
  | _, _, [] => True
  | before, after, x :: l =>
    x ≠ 0 ∧ prev x = before ∧ next x = l.head?.getD after ∧ Seg next prev x after l

variable {next prev next' prev' : ℕ → ℕ} {a b x y : ℕ} {l m : List ℕ}

theorem seg_append : ∀ {l : List ℕ} {b : ℕ}, Seg next prev b a (l ++ m) ↔
    Seg next prev b (m.head?.getD a) l ∧ Seg next prev (l.getLast?.getD b) a m
  | [], b => by simp [Seg]
  | x :: l, b => by
    have hhead : (l ++ m).head?.getD a = l.head?.getD (m.head?.getD a) := by
      cases l <;> simp
    have hlast : ((x :: l).getLast?.getD b) = l.getLast?.getD x := by
      rw [List.getLast?_cons, Option.getD_some]
    simp only [List.cons_append, Seg, hhead, hlast, seg_append (l := l), and_assoc]

theorem Seg.congr : ∀ {l : List ℕ} {b : ℕ}, Seg next prev b a l →
    (∀ y ∈ l, next' y = next y ∧ prev' y = prev y) → Seg next' prev' b a l
  | [], _, _, _ => trivial
  | x :: l, b, h, heq => by
    obtain ⟨hx, hp, hn, hl⟩ := h
    obtain ⟨h1, h2⟩ := heq x List.mem_cons_self
    refine ⟨hx, h2.trans hp, h1.trans hn, hl.congr fun y hy => ?_⟩
    exact heq y (List.mem_cons_of_mem _ hy)

theorem Seg.ne_zero : ∀ {l : List ℕ} {b : ℕ}, Seg next prev b a l → ∀ y ∈ l, y ≠ 0
  | [], _, _, _, hy => absurd hy List.not_mem_nil
  | x :: l, b, h, y, hy => by
    rcases List.mem_cons.mp hy with rfl | hy
    · exact h.1
    · exact h.2.2.2.ne_zero y hy

structure Threaded (next prev : ℕ → ℕ) (first last : ℕ) (l : List ℕ) : Prop where
  first : first = l.head?.getD 0
  last : last = l.getLast?.getD 0
  seg : Seg next prev 0 0 l

theorem Threaded.first_eq_zero {f t : ℕ} (h : Threaded next prev f t l) : f = 0 ↔ l = [] := by
  have hne := h.seg.ne_zero
  rw [h.first]
  cases l with
  | nil => simp
  | cons x l => simpa using hne x List.mem_cons_self

theorem Threaded.last_eq_zero {f t : ℕ} (h : Threaded next prev f t l) : t = 0 ↔ l = [] := by
  have hne := h.seg.ne_zero
  rw [h.last]
  rcases List.eq_nil_or_concat' l with rfl | ⟨l', x, rfl⟩
  · simp
  · simpa using hne x (by simp)

theorem Threaded.last_mem {f t : ℕ} (h : Threaded next prev f t l) (ht : t ≠ 0) : t ∈ l := by
  have hlast := h.last
  rcases List.eq_nil_or_concat' l with rfl | ⟨l', x, rfl⟩
  · exact absurd hlast ht
  · have htx : t = x := by simpa using hlast
    rw [htx]
    simp

theorem Threaded.first_mem {f t : ℕ} (h : Threaded next prev f t l) (hf : f ≠ 0) : f ∈ l := by
  have hfirst := h.first
  cases l with
  | nil => exact absurd hfirst hf
  | cons x l =>
    have hfx : f = x := by simpa using hfirst
    rw [hfx]
    exact List.mem_cons_self

theorem Threaded.congr {f t : ℕ} (h : Threaded next prev f t l)
    (heq : ∀ y ∈ l, next' y = next y ∧ prev' y = prev y) : Threaded next' prev' f t l :=
  ⟨h.first, h.last, h.seg.congr heq⟩

theorem Threaded.around {f t : ℕ} (h : Threaded next prev f t l) (hx : x ∈ l) :
    ∃ l₁ l₂, l = l₁ ++ x :: l₂ ∧ prev x = l₁.getLast?.getD 0 ∧ next x = l₂.head?.getD 0 ∧
      Seg next prev 0 x l₁ ∧ Seg next prev x 0 l₂ := by
  obtain ⟨l₁, l₂, rfl⟩ := List.append_of_mem hx
  obtain ⟨h1, h2⟩ := seg_append.mp h.seg
  exact ⟨l₁, l₂, rfl, h2.2.1, h2.2.2.1, h1, h2.2.2.2⟩

theorem Threaded.next_mem {f t : ℕ} (h : Threaded next prev f t l) (hx : x ∈ l)
    (hn : next x ≠ 0) : next x ∈ l := by
  obtain ⟨l₁, l₂, rfl, -, hnext, -, -⟩ := h.around hx
  cases l₂ with
  | nil => exact absurd hnext hn
  | cons y l₂ =>
    have : next x = y := by simpa using hnext
    rw [this]
    simp

theorem Threaded.prev_mem {f t : ℕ} (h : Threaded next prev f t l) (hx : x ∈ l)
    (hp : prev x ≠ 0) : prev x ∈ l := by
  obtain ⟨l₁, l₂, rfl, hprev, -, -, -⟩ := h.around hx
  rcases List.eq_nil_or_concat' l₁ with rfl | ⟨l', y, rfl⟩
  · exact absurd hprev hp
  · have : prev x = y := by simpa using hprev
    rw [this]
    simp

/-- A new node behind the last one. -/
theorem Threaded.append {f t n : ℕ} (h : Threaded next prev f t l) (hn : n ≠ 0)
    (hnext : next' n = 0) (hprev : prev' n = t)
    (hold : ∀ y ∈ l, next' y = (if y = t then n else next y) ∧ prev' y = prev y)
    (hnodup : l.Nodup) : Threaded next' prev' (if t = 0 then n else f) n (l ++ [n]) := by
  rcases List.eq_nil_or_concat' l with rfl | ⟨l', z, rfl⟩
  · have ht : t = 0 := h.last
    refine ⟨by simp [ht], by simp, hn, ?_, ?_, trivial⟩
    · rw [hprev, ht]
    · simpa using hnext
  · have ht : t = z := by simpa using h.last
    have hz := h.seg.ne_zero z (by simp)
    obtain ⟨hs, hzs⟩ := seg_append.mp h.seg
    refine ⟨?_, by simp, ?_⟩
    · rw [if_neg (by rw [ht]; exact hz), h.first]
      cases l' <;> simp
    · rw [seg_append, seg_append]
      refine ⟨⟨?_, ?_⟩, hn, ?_, ?_, trivial⟩
      · refine hs.congr fun y hy => ?_
        have hyz : y ≠ z := by
          rintro rfl
          exact List.disjoint_of_nodup_append hnodup hy List.mem_cons_self
        obtain ⟨h1, h2⟩ := hold y (List.mem_append_left _ hy)
        rw [h1, h2, if_neg (by rw [ht]; exact hyz)]
        exact ⟨rfl, rfl⟩
      · obtain ⟨h1, h2⟩ := hold z (by simp)
        refine ⟨hz, h2.trans hzs.2.1, ?_, trivial⟩
        rw [h1, if_pos ht.symm]
        simp
      · rw [hprev, ht]
        simp
      · simpa using hnext

/-- A node taken out, its neighbours linked to each other. -/
theorem Threaded.remove {f t : ℕ} (h : Threaded next prev f t l) (hx : x ∈ l) (hnodup : l.Nodup)
    (hold : ∀ y ∈ l, y ≠ x → next' y = (if y = prev x then next x else next y) ∧
      prev' y = (if y = next x then prev x else prev y)) :
    Threaded next' prev' (if prev x = 0 then next x else f) (if next x = 0 then prev x else t)
      (l.erase x) := by
  have hthread := h
  obtain ⟨l₁, l₂, rfl, hp, hn, h1, h2⟩ := h.around hx
  have hnot : x ∉ l₁ := fun hmem =>
    List.disjoint_of_nodup_append hnodup hmem List.mem_cons_self
  have hnot' : x ∉ l₂ := (List.nodup_cons.mp (List.Nodup.of_append_right hnodup)).1
  rw [List.erase_append_right _ hnot, List.erase_cons_head]
  have hdis : ∀ y ∈ l₁, y ∉ l₂ := fun y hy hy' =>
    List.disjoint_of_nodup_append hnodup hy (List.mem_cons_of_mem _ hy')
  have hzero₁ := h1.ne_zero
  have hzero₂ := h2.ne_zero
  refine ⟨?_, ?_, seg_append.mpr ⟨?_, ?_⟩⟩
  · rw [hthread.first, hp, hn]
    rcases List.eq_nil_or_concat' l₁ with rfl | ⟨l', z, rfl⟩
    · simp
    · have hz := hzero₁ z (by simp)
      have hlast : (l' ++ [z]).getLast?.getD 0 = z := by simp
      rw [hlast, if_neg hz]
      cases l' <;> simp
  · rw [hthread.last, hp, hn]
    cases l₂ with
    | nil => simp
    | cons w l₂ =>
      have hw := hzero₂ w List.mem_cons_self
      simp [hw, List.getLast?_append, List.getLast?_cons]
  · -- before the gap only the last node's forward link changes
    rcases List.eq_nil_or_concat' l₁ with rfl | ⟨l', z, rfl⟩
    · trivial
    · have hpz : prev x = z := by simpa using hp
      obtain ⟨hs, hz⟩ := seg_append.mp h1
      have hnod : (l' ++ [z]).Nodup := List.Nodup.of_append_left hnodup
      have hback : ∀ y ∈ l' ++ [z], y ≠ next x := by
        rintro y hy rfl
        cases l₂ with
        | nil => exact hzero₁ _ hy hn
        | cons w l₂ =>
          have hw : next x = w := by simpa using hn
          exact hdis _ hy (by rw [hw]; exact List.mem_cons_self)
      have hne : ∀ y ∈ l' ++ [z], y ≠ x := by
        rintro y hy rfl
        exact hnot hy
      rw [seg_append]
      refine ⟨hs.congr fun y hy => ?_, hz.1, ?_, ?_, trivial⟩
      · have hyz : y ≠ z := by
          rintro rfl
          exact List.disjoint_of_nodup_append hnod hy List.mem_cons_self
        have hmem : y ∈ l' ++ [z] := List.mem_append_left _ hy
        obtain ⟨e1, e2⟩ := hold y (List.mem_append_left _ hmem) (hne y hmem)
        rw [e1, e2, if_neg (by rw [hpz]; exact hyz), if_neg (hback y hmem)]
        exact ⟨rfl, rfl⟩
      · have hmem : z ∈ l' ++ [z] := by simp
        obtain ⟨-, e2⟩ := hold z (List.mem_append_left _ hmem) (hne z hmem)
        rw [e2, if_neg (hback z hmem)]
        exact hz.2.1
      · have hmem : z ∈ l' ++ [z] := by simp
        obtain ⟨e1, -⟩ := hold z (List.mem_append_left _ hmem) (hne z hmem)
        rw [e1, if_pos hpz.symm, hn]
        rfl
  · -- behind the gap only the first node's backward link changes
    cases l₂ with
    | nil => trivial
    | cons w l₂ =>
      have hnw : next x = w := by simpa using hn
      obtain ⟨hw, -, hwn, hrest⟩ := h2
      have hfront : ∀ y ∈ w :: l₂, y ≠ prev x := by
        rintro y hy rfl
        rcases List.eq_nil_or_concat' l₁ with rfl | ⟨l', z, rfl⟩
        · exact hzero₂ _ hy hp
        · have hz : prev x = z := by simpa using hp
          exact hdis (prev x) (by rw [hz]; simp) hy
      have hne : ∀ y ∈ w :: l₂, y ≠ x := by
        rintro y hy rfl
        exact hnot' hy
      have hmem : ∀ y ∈ w :: l₂, y ∈ l₁ ++ x :: w :: l₂ := fun y hy =>
        List.mem_append_right _ (List.mem_cons_of_mem _ hy)
      have hnod : (w :: l₂).Nodup :=
        (List.nodup_cons.mp (List.Nodup.of_append_right hnodup)).2
      obtain ⟨e1, e2⟩ := hold w (hmem w List.mem_cons_self) (hne w List.mem_cons_self)
      refine ⟨hw, ?_, ?_, hrest.congr fun y hy => ?_⟩
      · rw [e2, if_pos hnw.symm, hp]
      · rw [e1, if_neg (hfront w List.mem_cons_self), hwn]
      · have hyw : y ≠ w := by
          rintro rfl
          exact (List.nodup_cons.mp hnod).1 hy
        have hy' := List.mem_cons_of_mem w hy
        obtain ⟨f1, f2⟩ := hold y (hmem y hy') (hne y hy')
        rw [f1, f2, if_neg (hfront y hy'), if_neg (by rw [hnw]; exact hyw)]
        exact ⟨rfl, rfl⟩

/-! ## Families -/

variable {κ : Type} {cls cls' : ℕ → κ} {first last first' last' : κ → ℕ} {S : Finset ℕ} {n : ℕ}

def Family (next prev : ℕ → ℕ) (S : Finset ℕ) (cls : ℕ → κ) (first last : κ → ℕ) : Prop :=
  ∀ k, ∃ l : List ℕ, Threaded next prev (first k) (last k) l ∧ l.Pairwise (· < ·) ∧
    ∀ x, x ∈ l ↔ x ∈ S ∧ cls x = k

theorem Family.congr (h : Family next prev S cls first last)
    (hlinks : ∀ x ∈ S, next' x = next x ∧ prev' x = prev x) (hcls : ∀ x ∈ S, cls' x = cls x) :
    Family next' prev' S cls' first last := by
  intro k
  obtain ⟨l, hl, hsorted, hmem⟩ := h k
  refine ⟨l, hl.congr fun y hy => hlinks y ((hmem y).mp hy).1, hsorted, fun x => ?_⟩
  rw [hmem x]
  constructor
  · rintro ⟨hx, hk⟩
    exact ⟨hx, (hcls x hx).trans hk⟩
  · rintro ⟨hx, hk⟩
    exact ⟨hx, (hcls x hx).symm.trans hk⟩

theorem Family.ne_zero (h : Family next prev S cls first last) (hx : x ∈ S) : x ≠ 0 := by
  obtain ⟨l, hl, -, hmem⟩ := h (cls x)
  exact hl.seg.ne_zero x ((hmem x).mpr ⟨hx, rfl⟩)

theorem Family.first_mem {k : κ} (h : Family next prev S cls first last) (hf : first k ≠ 0) :
    first k ∈ S ∧ cls (first k) = k := by
  obtain ⟨l, hl, -, hmem⟩ := h k
  exact (hmem _).mp (hl.first_mem hf)

theorem Family.prev_first {k : κ} (h : Family next prev S cls first last) (hf : first k ≠ 0) :
    prev (first k) = 0 := by
  obtain ⟨l, hl, -, -⟩ := h k
  have hfirst := hl.first
  have hseg := hl.seg
  cases l with
  | nil => exact absurd hfirst hf
  | cons x l =>
    have hx : first k = x := by simpa using hfirst
    rw [hx]
    exact hseg.2.1

theorem Family.last_mem {k : κ} (h : Family next prev S cls first last) (hl : last k ≠ 0) :
    last k ∈ S ∧ cls (last k) = k := by
  obtain ⟨l, hth, -, hmem⟩ := h k
  exact (hmem _).mp (hth.last_mem hl)

theorem Family.first_eq_zero (h : Family next prev S cls first last) (k : κ) :
    first k = 0 ↔ last k = 0 := by
  obtain ⟨l, hl, -, -⟩ := h k
  rw [hl.first_eq_zero, hl.last_eq_zero]

theorem Family.first_ne_zero (h : Family next prev S cls first last) (hx : x ∈ S) :
    first (cls x) ≠ 0 := by
  obtain ⟨l, hl, -, hmem⟩ := h (cls x)
  rw [Ne, hl.first_eq_zero]
  rintro rfl
  exact List.not_mem_nil ((hmem x).mpr ⟨hx, rfl⟩)

theorem Family.next_mem (h : Family next prev S cls first last) (hx : x ∈ S) (hn : next x ≠ 0) :
    next x ∈ S ∧ cls (next x) = cls x ∧ x < next x := by
  obtain ⟨l, hl, hsorted, hmem⟩ := h (cls x)
  have hxl := (hmem x).mpr ⟨hx, rfl⟩
  obtain ⟨hs, hc⟩ := (hmem _).mp (hl.next_mem hxl hn)
  refine ⟨hs, hc, ?_⟩
  obtain ⟨l₁, l₂, rfl, -, hnext, -, -⟩ := hl.around hxl
  cases l₂ with
  | nil => exact absurd hnext hn
  | cons y l₂ =>
    have hy : next x = y := by simpa using hnext
    rw [hy]
    exact (List.pairwise_cons.mp (List.pairwise_append.mp hsorted).2.1).1 y List.mem_cons_self

theorem Family.first_le (h : Family next prev S cls first last) (hx : x ∈ S) :
    first (cls x) ≤ x := by
  obtain ⟨l, hl, hsorted, hmem⟩ := h (cls x)
  have hxl := (hmem x).mpr ⟨hx, rfl⟩
  rw [hl.first]
  cases l with
  | nil => exact absurd hxl List.not_mem_nil
  | cons y l =>
    rcases List.mem_cons.mp hxl with rfl | hxl
    · exact le_rfl
    · exact ((List.pairwise_cons.mp hsorted).1 x hxl).le

/-- Nothing of a class stands between a node and the next one. -/
theorem Family.next_le (h : Family next prev S cls first last) (hx : x ∈ S) (hy : y ∈ S)
    (hcls : cls y = cls x) (hlt : x < y) : next x ≠ 0 ∧ next x ≤ y := by
  obtain ⟨l, hl, hsorted, hmem⟩ := h (cls x)
  have hyl := (hmem y).mpr ⟨hy, hcls⟩
  obtain ⟨l₁, l₂, rfl, -, hnext, -, hseg⟩ := hl.around ((hmem x).mpr ⟨hx, rfl⟩)
  obtain ⟨-, hafter, hbefore⟩ := List.pairwise_append.mp hsorted
  rcases List.mem_append.mp hyl with hy₁ | hy₂
  · exact absurd (hbefore y hy₁ x List.mem_cons_self) hlt.asymm
  · cases l₂ with
    | nil =>
      rcases List.mem_cons.mp hy₂ with rfl | hy₂
      · exact absurd hlt (lt_irrefl _)
      · exact absurd hy₂ List.not_mem_nil
    | cons z l₂ =>
      have hz : next x = z := by simpa using hnext
      rw [hz]
      refine ⟨hseg.ne_zero z List.mem_cons_self, ?_⟩
      rcases List.mem_cons.mp hy₂ with rfl | hy₂
      · exact absurd hlt (lt_irrefl _)
      · rcases List.mem_cons.mp hy₂ with rfl | hy₂
        · exact le_rfl
        · exact ((List.pairwise_cons.mp (List.pairwise_cons.mp hafter).2).1 y hy₂).le

theorem Family.prev_mem (h : Family next prev S cls first last) (hx : x ∈ S) (hp : prev x ≠ 0) :
    prev x ∈ S ∧ cls (prev x) = cls x ∧ prev x < x := by
  obtain ⟨l, hl, hsorted, hmem⟩ := h (cls x)
  have hxl := (hmem x).mpr ⟨hx, rfl⟩
  obtain ⟨hs, hc⟩ := (hmem _).mp (hl.prev_mem hxl hp)
  refine ⟨hs, hc, ?_⟩
  obtain ⟨l₁, l₂, rfl, hprev, -, -, -⟩ := hl.around hxl
  rcases List.eq_nil_or_concat' l₁ with rfl | ⟨l', y, rfl⟩
  · exact absurd hprev hp
  · have hy : prev x = y := by simpa using hprev
    rw [hy]
    exact (List.pairwise_append.mp hsorted).2.2 y (by simp) x List.mem_cons_self

/-- A node with the largest number joins its class at the end. -/
theorem Family.insert [DecidableEq κ] (h : Family next prev S cls first last) {c : κ}
    (hn : n ≠ 0) (hmax : ∀ x ∈ S, x < n) (hcls : cls' n = c) (hold : ∀ x ∈ S, cls' x = cls x)
    (hnext : next' n = 0) (hprev : prev' n = last c)
    (hlinks : ∀ x ∈ S, next' x = (if x = last c then n else next x) ∧ prev' x = prev x)
    (hfirst : ∀ k, first' k = if k = c ∧ last c = 0 then n else first k)
    (hlast : ∀ k, last' k = if k = c then n else last k) :
    Family next' prev' (Insert.insert n S) cls' first' last' := by
  intro k
  obtain ⟨l, hl, hsorted, hmem⟩ := h k
  have hlt : ∀ y ∈ l, y < n := fun y hy => hmax y ((hmem y).mp hy).1
  have hnot : n ∉ S := fun hmemn => lt_irrefl n (hmax n hmemn)
  by_cases hk : k = c
  · subst hk
    refine ⟨l ++ [n], ?_, ?_, fun x => ?_⟩
    · have happ := hl.append hn hnext hprev (fun y hy => hlinks y ((hmem y).mp hy).1) hsorted.nodup
      rw [hfirst, hlast, if_pos rfl]
      simpa using happ
    · rw [List.pairwise_append]
      refine ⟨hsorted, List.pairwise_singleton _ _, fun y hy z hz => ?_⟩
      rw [List.mem_singleton.mp hz]
      exact hlt y hy
    · rw [List.mem_append, List.mem_singleton, hmem, Finset.mem_insert]
      constructor
      · rintro (⟨hx, hc⟩ | rfl)
        · exact ⟨.inr hx, (hold x hx).trans hc⟩
        · exact ⟨.inl rfl, hcls⟩
      · rintro ⟨rfl | hx, hc⟩
        · exact .inr rfl
        · exact .inl ⟨hx, (hold x hx).symm.trans hc⟩
  · refine ⟨l, ?_, hsorted, fun x => ?_⟩
    · rw [hfirst, hlast, if_neg (fun hc => hk hc.1), if_neg hk]
      refine hl.congr fun y hy => ?_
      obtain ⟨hy, hyc⟩ := (hmem y).mp hy
      obtain ⟨e1, e2⟩ := hlinks y hy
      have hne : y ≠ last c := by
        rintro rfl
        exact hk (hyc.symm.trans (h.last_mem (h.ne_zero hy)).2)
      rw [e1, if_neg hne]
      exact ⟨rfl, e2⟩
    · rw [hmem, Finset.mem_insert]
      constructor
      · rintro ⟨hx, hc⟩
        exact ⟨.inr hx, (hold x hx).trans hc⟩
      · rintro ⟨rfl | hx, hc⟩
        · exact absurd (hc.symm.trans hcls) hk
        · exact ⟨hx, (hold x hx).symm.trans hc⟩

/-- A node leaves its class. -/
theorem Family.remove [DecidableEq κ] (h : Family next prev S cls first last) (hx : x ∈ S)
    (hold : ∀ y ∈ S, y ≠ x → cls' y = cls y)
    (hlinks : ∀ y ∈ S, y ≠ x → next' y = (if y = prev x then next x else next y) ∧
      prev' y = (if y = next x then prev x else prev y))
    (hfirst : ∀ k, first' k = if k = cls x ∧ prev x = 0 then next x else first k)
    (hlast : ∀ k, last' k = if k = cls x ∧ next x = 0 then prev x else last k) :
    Family next' prev' (S.erase x) cls' first' last' := by
  intro k
  obtain ⟨l, hl, hsorted, hmem⟩ := h k
  by_cases hk : k = cls x
  · subst hk
    have hxl := (hmem x).mpr ⟨hx, rfl⟩
    refine ⟨l.erase x, ?_, hsorted.sublist List.erase_sublist, fun y => ?_⟩
    · have hrem := hl.remove hxl hsorted.nodup
        (fun y hy hne => hlinks y ((hmem y).mp hy).1 hne)
      rw [hfirst, hlast]
      simpa using hrem
    · rw [hsorted.nodup.mem_erase_iff, hmem, Finset.mem_erase]
      constructor
      · rintro ⟨hne, hy, hc⟩
        exact ⟨⟨hne, hy⟩, (hold y hy hne).trans hc⟩
      · rintro ⟨⟨hne, hy⟩, hc⟩
        exact ⟨hne, hy, (hold y hy hne).symm.trans hc⟩
  · have hother : ∀ y, y ∈ S → cls y = k → y ≠ x := by
      rintro y hy hc rfl
      exact hk hc.symm
    refine ⟨l, ?_, hsorted, fun y => ?_⟩
    · rw [hfirst, hlast, if_neg (fun hc => hk hc.1), if_neg (fun hc => hk hc.1)]
      refine hl.congr fun y hy => ?_
      obtain ⟨hyS, hyc⟩ := (hmem y).mp hy
      obtain ⟨e1, e2⟩ := hlinks y hyS (hother y hyS hyc)
      have hp : y ≠ prev x := by
        rintro rfl
        exact hk (hyc.symm.trans (h.prev_mem hx (h.ne_zero hyS)).2.1)
      have hn : y ≠ next x := by
        rintro rfl
        exact hk (hyc.symm.trans (h.next_mem hx (h.ne_zero hyS)).2.1)
      rw [e1, e2, if_neg hp, if_neg hn]
      exact ⟨rfl, rfl⟩
    · rw [hmem, Finset.mem_erase]
      constructor
      · rintro ⟨hy, hc⟩
        have hne := hother y hy hc
        exact ⟨⟨hne, hy⟩, (hold y hy hne).trans hc⟩
      · rintro ⟨⟨hne, hy⟩, hc⟩
        exact ⟨hy, (hold y hy hne).symm.trans hc⟩

end IntrusiveList
