import Mathlib.Data.Nat.ModEq
import Mathlib.Data.Finset.Basic

/-! # A window of a circular buffer

The occupied slots of a buffer of `cap` slots: `size` of them from `head` on, with `tail` the
slot that the next arrival takes. -/
namespace CircularWindow

structure Window (cap head size tail : ℕ) (S : Finset ℕ) : Prop where
  head_lt : head < cap
  size_le : size ≤ cap
  tail_eq : tail = (head + size) % cap
  mem : ∀ k, k ∈ S ↔ ∃ i < size, k = (head + i) % cap

variable {cap head size tail i j : ℕ} {S : Finset ℕ}

theorem slot_injective (hi : i < cap) (hj : j < cap)
    (h : (head + i) % cap = (head + j) % cap) : i = j :=
  (Nat.ModEq.add_left_cancel' head h).eq_of_lt_of_lt hi hj

theorem Window.empty (h : 0 < cap) : Window cap 0 0 0 ∅ :=
  ⟨h, Nat.zero_le _, by simp, by simp⟩

theorem Window.head_mem (h : Window cap head size tail S) (hs : size ≠ 0) : head ∈ S :=
  (h.mem head).mpr ⟨0, Nat.pos_of_ne_zero hs, (Nat.mod_eq_of_lt h.head_lt).symm⟩

theorem Window.tail_notMem (h : Window cap head size tail S) (hs : size < cap) : tail ∉ S := by
  intro hm
  obtain ⟨i, hi, heq⟩ := (h.mem tail).mp hm
  rw [h.tail_eq] at heq
  exact hi.ne' (slot_injective hs (hi.trans hs) heq)

theorem Window.push (h : Window cap head size tail S) (hs : size < cap) :
    Window cap head (size + 1) ((tail + 1) % cap) (insert tail S) := by
  refine ⟨h.head_lt, hs, ?_, fun k => ?_⟩
  · rw [h.tail_eq, Nat.mod_add_mod, Nat.add_assoc]
  · rw [Finset.mem_insert, h.mem k]
    constructor
    · rintro (rfl | ⟨i, hi, rfl⟩)
      · exact ⟨size, Nat.lt_succ_self size, h.tail_eq⟩
      · exact ⟨i, Nat.lt_succ_of_lt hi, rfl⟩
    · rintro ⟨i, hi, rfl⟩
      rcases Nat.lt_succ_iff_lt_or_eq.mp hi with hi | rfl
      · exact .inr ⟨i, hi, rfl⟩
      · exact .inl h.tail_eq.symm

theorem Window.pop (h : Window cap head size tail S) (hs : size ≠ 0) :
    Window cap ((head + 1) % cap) (size - 1) tail (S.erase head) := by
  have hcap : 0 < cap := Nat.zero_lt_of_lt h.head_lt
  have hhead : head = (head + 0) % cap := (Nat.mod_eq_of_lt h.head_lt).symm
  refine ⟨Nat.mod_lt _ hcap, (Nat.sub_le _ _).trans h.size_le, ?_, fun k => ?_⟩
  · rw [h.tail_eq, Nat.mod_add_mod]
    congr 1
    omega
  · rw [Finset.mem_erase, h.mem k]
    constructor
    · rintro ⟨hne, i, hi, rfl⟩
      have hpos : i ≠ 0 := by
        rintro rfl
        exact hne hhead.symm
      refine ⟨i - 1, by omega, ?_⟩
      rw [Nat.mod_add_mod]
      congr 1
      omega
    · rintro ⟨i, hi, rfl⟩
      have hslot : ((head + 1) % cap + i) % cap = (head + (i + 1)) % cap := by
        rw [Nat.mod_add_mod]
        congr 1
        omega
      refine ⟨fun heq => ?_, i + 1, by omega, hslot⟩
      rw [hslot] at heq
      have hzero := slot_injective (Nat.lt_of_lt_of_le (by omega) h.size_le) hcap
        (heq.trans hhead)
      omega

end CircularWindow
