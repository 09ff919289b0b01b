import Mathlib.Data.Finset.Max
import Mathlib.Algebra.BigOperators.Group.Finset.Basic

/-! # Mappings with ordered keys

A mapping reads the zero value at every key it does not hold. Besides lookup, write and
delete it offers the ordered traversal of its keys. -/
namespace SolidityMapping

structure Mapping (V : Type) [Inhabited V] where
  keys : Finset ℕ
  get : ℕ → V
  absent : ∀ k, k ∉ keys → get k = default

variable {V : Type} [Inhabited V] {m : Mapping V} {j k : ℕ} {v : V}

namespace Mapping

def empty : Mapping V := ⟨∅, fun _ => default, fun _ _ => rfl⟩

def set (m : Mapping V) (k : ℕ) (v : V) : Mapping V where
  keys := insert k m.keys
  get := Function.update m.get k v
  absent := by
    intro j hj
    rw [Finset.mem_insert, not_or] at hj
    rw [Function.update_of_ne hj.1]
    exact m.absent j hj.2

def delete (m : Mapping V) (k : ℕ) : Mapping V where
  keys := m.keys.erase k
  get := Function.update m.get k default
  absent := by
    intro j hj
    by_cases h : j = k
    · rw [h, Function.update_self]
    · rw [Function.update_of_ne h]
      exact m.absent j (fun hm => hj (Finset.mem_erase.mpr ⟨h, hm⟩))

def modify (m : Mapping V) (k : ℕ) (f : V → V) : Mapping V := m.set k (f (m.get k))

@[simp] theorem keys_set : (m.set k v).keys = insert k m.keys := rfl

@[simp] theorem keys_delete : (m.delete k).keys = m.keys.erase k := rfl

theorem keys_modify {f : V → V} (h : k ∈ m.keys) : (m.modify k f).keys = m.keys :=
  Finset.insert_eq_of_mem h

@[simp] theorem get_set : (m.set k v).get k = v := Function.update_self ..

theorem get_set_ne (h : j ≠ k) : (m.set k v).get j = m.get j := Function.update_of_ne h ..

theorem get_delete_ne (h : j ≠ k) : (m.delete k).get j = m.get j := Function.update_of_ne h ..

@[simp] theorem get_modify {f : V → V} : (m.modify k f).get k = f (m.get k) :=
  Function.update_self ..

theorem get_modify_ne {f : V → V} (h : j ≠ k) : (m.modify k f).get j = m.get j :=
  Function.update_of_ne h ..

@[ext] theorem ext {w : Mapping V} (hk : m.keys = w.keys) (h : ∀ k, m.get k = w.get k) :
    m = w := by
  obtain ⟨keys, get, _⟩ := m
  obtain ⟨keys', get', _⟩ := w
  obtain rfl : keys = keys' := hk
  obtain rfl : get = get' := funext h
  rfl

theorem ext_keys {w : Mapping V} (hk : m.keys = w.keys) (h : ∀ k ∈ w.keys, m.get k = w.get k) :
    m = w := by
  refine ext hk fun k => ?_
  by_cases hmem : k ∈ w.keys
  · exact h k hmem
  · rw [w.absent k hmem, m.absent k (hk ▸ hmem)]

theorem set_set {w : V} : (m.set k v).set k w = m.set k w := by
  refine ext ?_ fun j => congrFun (Function.update_idem ..) j
  rw [keys_set, keys_set, keys_set, Finset.insert_idem]

theorem set_get (h : k ∈ m.keys) : m.set k (m.get k) = m :=
  ext (Finset.insert_eq_of_mem h) fun j => congrFun (Function.update_eq_self ..) j

theorem delete_set : (m.set k v).delete k = m.delete k := by
  refine ext ?_ fun j => congrFun (Function.update_idem ..) j
  rw [keys_delete, keys_set, keys_delete, Finset.erase_insert_eq_erase]

def map {W : Type} [Inhabited W] (f : V → W) (hf : f default = default) (m : Mapping V) :
    Mapping W where
  keys := m.keys
  get k := f (m.get k)
  absent k hk := by rw [m.absent k hk, hf]

section Map

variable {W : Type} [Inhabited W] {f : V → W} {hf : f default = default}

@[simp] theorem keys_map : (m.map f hf).keys = m.keys := rfl

@[simp] theorem get_map : (m.map f hf).get k = f (m.get k) := rfl

theorem map_set : (m.set k v).map f hf = (m.map f hf).set k (f v) := by
  refine ext rfl fun j => ?_
  by_cases h : j = k
  · subst h
    rw [get_map, get_set, get_set]
  · rw [get_map, get_set_ne h, get_set_ne h, get_map]

theorem map_delete : (m.delete k).map f hf = (m.map f hf).delete k := by
  refine ext_keys rfl fun j hj => ?_
  have hne : j ≠ k := (Finset.mem_erase.mp hj).1
  rw [get_map, get_delete_ne hne, get_delete_ne hne, get_map]

end Map

/-! ## Traversal -/

def least (s : Finset ℕ) : Option ℕ := if h : s.Nonempty then some (s.min' h) else none

def greatest (s : Finset ℕ) : Option ℕ := if h : s.Nonempty then some (s.max' h) else none

theorem least_mem {s : Finset ℕ} (h : least s = some k) : k ∈ s := by
  unfold least at h
  split at h
  · rename_i hs
    rw [← Option.some.inj h]
    exact s.min'_mem hs
  · cases h

theorem greatest_mem {s : Finset ℕ} (h : greatest s = some k) : k ∈ s := by
  unfold greatest at h
  split at h
  · rename_i hs
    rw [← Option.some.inj h]
    exact s.max'_mem hs
  · cases h

theorem least_le {s : Finset ℕ} (h : least s = some k) {j : ℕ} (hj : j ∈ s) : k ≤ j := by
  unfold least at h
  split at h
  · rw [← Option.some.inj h]
    exact s.min'_le j hj
  · cases h

theorem le_greatest {s : Finset ℕ} (h : greatest s = some k) {j : ℕ} (hj : j ∈ s) : j ≤ k := by
  unfold greatest at h
  split at h
  · rw [← Option.some.inj h]
    exact s.le_max' j hj
  · cases h

theorem least_none {s : Finset ℕ} (h : least s = none) (j : ℕ) : j ∉ s := by
  intro hj
  have hs : s.Nonempty := ⟨j, hj⟩
  rw [least, dif_pos hs] at h
  cases h

theorem greatest_none {s : Finset ℕ} (h : greatest s = none) (j : ℕ) : j ∉ s := by
  intro hj
  have hs : s.Nonempty := ⟨j, hj⟩
  rw [greatest, dif_pos hs] at h
  cases h

def min (m : Mapping V) : Option ℕ := least m.keys
def max (m : Mapping V) : Option ℕ := greatest m.keys
def next (m : Mapping V) (k : ℕ) : Option ℕ := least (m.keys.filter (k < ·))
def prev (m : Mapping V) (k : ℕ) : Option ℕ := greatest (m.keys.filter (· < k))

theorem next_spec (h : m.next k = some j) : j ∈ m.keys ∧ k < j :=
  Finset.mem_filter.mp (least_mem h)

theorem prev_spec (h : m.prev k = some j) : j ∈ m.keys ∧ j < k :=
  Finset.mem_filter.mp (greatest_mem h)

/-! ## Totals over the values held -/

def total (m : Mapping V) (f : V → ℕ) : ℕ := ∑ k ∈ m.keys, f (m.get k)

theorem total_congr {w : Mapping V} {f : V → ℕ} (hk : w.keys = m.keys)
    (h : ∀ k ∈ m.keys, f (w.get k) = f (m.get k)) : w.total f = m.total f := by
  unfold total
  rw [hk]
  exact Finset.sum_congr rfl h

theorem total_erase {w : Mapping V} {f : V → ℕ} (hk : k ∈ m.keys)
    (hkeys : w.keys = m.keys.erase k) (h : ∀ j ∈ w.keys, f (w.get j) = f (m.get j)) :
    w.total f + f (m.get k) = m.total f := by
  unfold total
  rw [Finset.sum_congr rfl h, hkeys]
  exact Finset.sum_erase_add _ _ hk

theorem total_insert {w : Mapping V} {f : V → ℕ} (hk : k ∉ m.keys)
    (hkeys : w.keys = insert k m.keys) (h : ∀ j ∈ m.keys, f (w.get j) = f (m.get j)) :
    w.total f = m.total f + f (w.get k) := by
  unfold total
  rw [hkeys, Finset.sum_insert hk, Finset.sum_congr rfl h, Nat.add_comm]

theorem total_set {f : V → ℕ} (hk : k ∈ m.keys) :
    (m.set k v).total f + f (m.get k) = m.total f + f v := by
  have hrest : ∑ j ∈ m.keys.erase k, f ((m.set k v).get j) = ∑ j ∈ m.keys.erase k, f (m.get j) :=
    Finset.sum_congr rfl fun j hj => by rw [get_set_ne (Finset.mem_erase.mp hj).1]
  have hold := Finset.sum_erase_add m.keys (fun j => f (m.get j)) hk
  have hnew := Finset.sum_erase_add m.keys (fun j => f ((m.set k v).get j)) hk
  rw [hrest, get_set] at hnew
  unfold total
  rw [keys_set, Finset.insert_eq_of_mem hk]
  omega

theorem total_write {f : V → ℕ} (hf : f default = 0) :
    (m.set k v).total f + f (m.get k) = m.total f + f v := by
  by_cases hk : k ∈ m.keys
  · exact total_set hk
  · have hrest : ∀ j ∈ m.keys, f ((m.set k v).get j) = f (m.get j) := by
      intro j hj
      have hne : j ≠ k := by
        rintro rfl
        exact hk hj
      rw [get_set_ne hne]
    rw [total_insert hk keys_set hrest, get_set, m.absent k hk, hf, Nat.add_zero]

end Mapping

end SolidityMapping
