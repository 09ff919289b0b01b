import Mathlib.Data.List.GetD
import Mathlib.Data.List.Perm.Subperm
import Mathlib.Data.List.Nodup
import Mathlib.Logic.Function.Basic

/-! # A ring of slots that keeps the most recent items

`N` slots and the position of the slot written last. -/
namespace RecentRing

variable {α : Type}

def back (N cur i : ℕ) : ℕ := if i ≤ cur then cur - i else cur + N - i

structure Holds (N : ℕ) (blank : α) (slots : ℕ → α) (cur : ℕ) (items : List α) : Prop where
  cur_lt : cur < N
  slot : ∀ i < N, slots (back N cur i) = items.getD i blank

variable {N cur i j : ℕ} {blank x y : α} {slots : ℕ → α} {items : List α}

theorem back_zero : back N cur 0 = cur := by simp [back]

theorem back_lt (hc : cur < N) (hi : i < N) : back N cur i < N := by
  unfold back
  split <;> omega

theorem back_injective (hi : i < N) (hj : j < N)
    (h : back N cur i = back N cur j) : i = j := by
  unfold back at h
  split at h <;> split at h <;> omega

theorem back_ne_cur (hi : i + 1 < N) : back N cur (i + 1) ≠ cur := by
  unfold back
  split <;> omega

theorem next_lt (hc : cur < N) : (cur + 1) % N < N := Nat.mod_lt _ (Nat.zero_lt_of_lt hc)

theorem back_next (hc : cur < N) (hi : i + 1 < N) :
    back N ((cur + 1) % N) (i + 1) = back N cur i := by
  rcases Nat.lt_or_ge (cur + 1) N with hlt | hge
  · rw [Nat.mod_eq_of_lt hlt]
    unfold back
    split <;> split <;> omega
  · obtain rfl : N = cur + 1 := by omega
    rw [Nat.mod_self]
    unfold back
    split <;> split <;> omega

theorem Holds.empty (h : 0 < N) : Holds N blank (fun _ => blank) 0 [] :=
  ⟨h, fun _ _ => by simp⟩

theorem Holds.current (h : Holds N blank slots cur items) :
    slots cur = items.getD 0 blank := by
  have hs := h.slot 0 (Nat.zero_lt_of_lt h.cur_lt)
  rwa [back_zero] at hs

theorem Holds.first (h : Holds N blank slots cur []) (x : α) :
    Holds N blank (Function.update slots cur x) cur [x] := by
  refine ⟨h.cur_lt, fun i hi => ?_⟩
  cases i with
  | zero => simp [back_zero]
  | succ i =>
    rw [Function.update_of_ne (back_ne_cur hi), h.slot _ hi]
    simp

theorem Holds.push (h : Holds N blank slots cur items) (x : α) :
    Holds N blank (Function.update slots ((cur + 1) % N) x) ((cur + 1) % N) (x :: items) := by
  refine ⟨next_lt h.cur_lt, fun i hi => ?_⟩
  cases i with
  | zero => simp [back_zero]
  | succ i =>
    rw [Function.update_of_ne (back_ne_cur hi), back_next h.cur_lt hi,
      h.slot i (by omega), List.getD_cons_succ]

theorem Holds.replace (h : Holds N blank slots cur (y :: items)) (x : α) :
    Holds N blank (Function.update slots cur x) cur (x :: items) := by
  refine ⟨h.cur_lt, fun i hi => ?_⟩
  cases i with
  | zero => simp [back_zero]
  | succ i =>
    rw [Function.update_of_ne (back_ne_cur hi), h.slot _ hi, List.getD_cons_succ,
      List.getD_cons_succ]

theorem back_perm (hc : cur < N) :
    ((List.range N).map (back N cur)).Perm (List.range N) := by
  have hnodup : ((List.range N).map (back N cur)).Nodup :=
    List.Nodup.map_on (fun i hi j hj h => back_injective (List.mem_range.mp hi)
      (List.mem_range.mp hj) h) List.nodup_range
  have hsub : (List.range N).map (back N cur) ⊆ List.range N := by
    intro k hk
    obtain ⟨i, hi, rfl⟩ := List.mem_map.mp hk
    exact List.mem_range.mpr (back_lt hc (List.mem_range.mp hi))
  exact (hnodup.subperm hsub).perm_of_length_le (by simp)

theorem getD_range (items : List α) (N : ℕ) (blank : α) :
    (List.range N).map (fun i => items.getD i blank) =
      items.take N ++ List.replicate (N - items.length) blank := by
  apply List.ext_getElem
  · simp
    omega
  · intro i h₁ h₂
    simp only [List.length_map, List.length_range] at h₁
    simp only [List.getElem_map, List.getElem_range]
    rcases Nat.lt_or_ge i items.length with hi | hi
    · rw [List.getElem_append_left (by simp; omega), List.getD_eq_getElem _ _ hi,
        List.getElem_take]
    · rw [List.getElem_append_right (by simp; omega), List.getD_eq_default _ _ hi,
        List.getElem_replicate]

theorem Holds.slots_perm (h : Holds N blank slots cur items) :
    ((List.range N).map slots).Perm
      (items.take N ++ List.replicate (N - items.length) blank) := by
  rw [← getD_range]
  have hread : (List.range N).map (fun i => items.getD i blank) =
      ((List.range N).map (back N cur)).map slots := by
    rw [List.map_map]
    exact List.map_congr_left fun i hi => (h.slot i (List.mem_range.mp hi)).symm
  rw [hread]
  exact ((back_perm h.cur_lt).map slots).symm

theorem Holds.filter_perm (h : Holds N blank slots cur items) {p : α → Bool}
    (hblank : p blank = false) (hold : ∀ x ∈ items.drop N, p x = false) :
    (((List.range N).map slots).filter p).Perm (items.filter p) := by
  have hp := h.slots_perm.filter p
  have hrep : (List.replicate (N - items.length) blank).filter p = [] := by
    simp [hblank]
  have hdrop : (items.drop N).filter p = [] := by
    rw [List.filter_eq_nil_iff]
    intro x hx
    simp [hold x hx]
  rw [List.filter_append, hrep, List.append_nil] at hp
  have hall : items.filter p = (items.take N).filter p := by
    conv_lhs => rw [← List.take_append_drop N items, List.filter_append, hdrop, List.append_nil]
  rwa [hall]

theorem Holds.slot_mem (h : Holds N blank slots cur items) (hi : i < N) :
    slots i ∈ items ∨ slots i = blank := by
  have hm : slots i ∈ (List.range N).map slots := List.mem_map_of_mem (List.mem_range.mpr hi)
  rcases List.mem_append.mp (h.slots_perm.subset hm) with ht | hr
  · exact .inl (List.mem_of_mem_take ht)
  · exact .inr (List.eq_of_mem_replicate hr)

theorem Holds.held (h : Holds N blank slots cur items) (hx : x ∈ items.take N) :
    ∃ i < N, slots i = x := by
  have hm : x ∈ (List.range N).map slots :=
    h.slots_perm.symm.subset (List.mem_append_left _ hx)
  obtain ⟨i, hi, heq⟩ := List.mem_map.mp hm
  exact ⟨i, List.mem_range.mp hi, heq⟩

theorem Holds.slot_injective (h : Holds N blank slots cur items) (hnodup : items.Nodup)
    (hi : i < N) (hj : j < N) (hne : slots i ≠ blank) (heq : slots i = slots j) : i = j := by
  have hage : ∀ k < N, ∃ a < N, back N cur a = k := by
    intro k hk
    have hm := (back_perm h.cur_lt).symm.subset (List.mem_range.mpr hk)
    obtain ⟨a, ha, rfl⟩ := List.mem_map.mp hm
    exact ⟨a, List.mem_range.mp ha, rfl⟩
  obtain ⟨a, ha, rfl⟩ := hage i hi
  obtain ⟨b, hb, rfl⟩ := hage j hj
  rw [h.slot a ha] at hne heq
  rw [h.slot b hb] at heq
  have hlen : ∀ k, items.getD k blank ≠ blank → k < items.length := by
    intro k hk
    by_contra hge
    exact hk (List.getD_eq_default _ _ (Nat.not_lt.mp hge))
  have hla := hlen a hne
  have hlb := hlen b (heq ▸ hne)
  rw [List.getD_eq_getElem _ _ hla, List.getD_eq_getElem _ _ hlb] at heq
  rw [(hnodup.getElem_inj_iff).mp heq]

end RecentRing
