import Mathlib.Data.Set.Finite.Basic
import Mathlib.Logic.Relation
import Mathlib.Order.WellFounded
import Mathlib.Data.Fintype.Order

/-! # Walking from cursor to cursor

A walk that asks for the next cursor until there is none. Over finitely many cursors it ends exactly
when it never comes back to one it left. -/
namespace CursorWalk

variable {α : Type*} {next : α → Option α} {a b c : α} {k : ℕ}

def ends (next : α → Option α) : ℕ → α → Bool
  | 0, _ => false
  | k + 1, a =>
    match next a with
    | none => true
    | some b => ends next k b

def Ends (next : α → Option α) (a : α) : Prop := ∃ k, ends next k a = true

def Follows (next : α → Option α) (a b : α) : Prop := next a = some b

def Circles (next : α → Option α) (a : α) : Prop :=
  ∃ c, Relation.ReflTransGen (Follows next) a c ∧ Relation.TransGen (Follows next) c c

theorem ends_follows (h : Follows next a b) : ends next (k + 1) a = ends next k b := by
  simp only [ends]
  rw [h]

theorem ends_stop (h : next a = none) : ends next (k + 1) a = true := by
  simp only [ends]
  rw [h]

theorem ends_of_follows (h : Follows next a b) (hb : Ends next b) : Ends next a := by
  obtain ⟨k, hk⟩ := hb
  exact ⟨k + 1, (ends_follows h).trans hk⟩

theorem ends_descends (h : Relation.TransGen (Follows next) a b) :
    ∀ k, ends next k a = true → ∃ j, j < k ∧ ends next j b = true := by
  induction h with
  | single h =>
    intro k hk
    cases k with
    | zero => cases hk
    | succ k => exact ⟨k, Nat.lt_succ_self k, (ends_follows h).symm.trans hk⟩
  | tail _ h ih =>
    intro k hk
    obtain ⟨j, hj, hends⟩ := ih k hk
    cases j with
    | zero => cases hends
    | succ j => exact ⟨j, by omega, (ends_follows h).symm.trans hends⟩

theorem not_ends_of_cycle (h : Relation.TransGen (Follows next) c c) : ∀ k, ends next k c ≠ true := by
  intro k
  induction k using Nat.strong_induction_on with
  | _ k ih =>
    intro hk
    obtain ⟨j, hj, hends⟩ := ends_descends h k hk
    exact ih j hj hends

theorem not_ends_of_circles (h : Circles next a) : ¬ Ends next a := by
  rintro ⟨k, hk⟩
  obtain ⟨c, hreach, hcycle⟩ := h
  rcases Relation.reflTransGen_iff_eq_or_transGen.mp hreach with rfl | hpath
  · exact not_ends_of_cycle hcycle k hk
  · obtain ⟨j, -, hends⟩ := ends_descends hpath k hk
    exact not_ends_of_cycle hcycle j hends

theorem ends_of_not_circles (hfin : {b | Relation.ReflTransGen (Follows next) a b}.Finite)
    (h : ¬ Circles next a) : Ends next a := by
  let S := {b | Relation.ReflTransGen (Follows next) a b}
  have : Finite S := hfin
  let later : S → S → Prop := fun x y => Relation.TransGen (Follows next) y.1 x.1
  have htrans : IsTrans S later := ⟨fun _ _ _ hxy hyz => hyz.trans hxy⟩
  have hirrefl : Std.Irrefl later := ⟨fun x hx => h ⟨x.1, x.2, hx⟩⟩
  have hwf : WellFounded later := Finite.wellFounded_of_trans_of_irrefl later
  have hall : ∀ x : S, Ends next x.1 := by
    intro x
    induction x using hwf.induction with
    | _ x ih =>
      cases hx : next x.1 with
      | none => exact ⟨1, ends_stop hx⟩
      | some b =>
        have hb : Relation.ReflTransGen (Follows next) a b := x.2.tail hx
        exact ends_of_follows hx (ih ⟨b, hb⟩ (.single hx))
  exact hall ⟨a, .refl⟩

theorem ends_iff (hfin : {b | Relation.ReflTransGen (Follows next) a b}.Finite) :
    Ends next a ↔ ¬ Circles next a :=
  ⟨fun h hc => not_ends_of_circles hc h, ends_of_not_circles hfin⟩

end CursorWalk
