import Mathlib.Order.Monotone.Basic

/-! # The proleptic Gregorian calendar

Years from 0 on, months and days, and the number of the day a date stands for, by counting what
comes before it. -/
namespace GregorianCalendar

def isLeap (y : ℕ) : Bool := y % 4 == 0 && (y % 100 != 0 || y % 400 == 0)

def monthLength (y : ℕ) : ℕ → ℕ
  | 2 => if isLeap y then 29 else 28
  | 4 | 6 | 9 | 11 => 30
  | _ => 31

def daysBeforeMonth (y : ℕ) : ℕ → ℕ
  | 0 => 0
  | m + 1 => daysBeforeMonth y m + monthLength y (m + 1)

def yearLength (y : ℕ) : ℕ := daysBeforeMonth y 12

def daysBeforeYear : ℕ → ℕ
  | 0 => 0
  | y + 1 => daysBeforeYear y + yearLength y

structure Date where
  year : ℕ
  month : ℕ
  day : ℕ
  month_pos : 1 ≤ month
  month_le : month ≤ 12
  day_pos : 1 ≤ day
  day_le : day ≤ monthLength year month

def Date.number (d : Date) : ℕ :=
  daysBeforeYear d.year + daysBeforeMonth d.year (d.month - 1) + (d.day - 1)

def epoch : Date := ⟨1970, 1, 1, by decide, by decide, by decide, by decide⟩

theorem Date.number_first {d : Date} (hmonth : d.month = 1) (hday : d.day = 1) :
    d.number = daysBeforeYear d.year := by
  unfold number
  rw [hmonth, hday]
  rfl

/-! ## Counting -/

variable {y m : ℕ}

theorem yearLength_eq (y : ℕ) : yearLength y = if isLeap y then 366 else 365 := by
  unfold yearLength
  cases h : isLeap y <;> simp [daysBeforeMonth, monthLength, h]

theorem isLeap_iff : isLeap y = true ↔ y % 4 = 0 ∧ (y % 100 ≠ 0 ∨ y % 400 = 0) := by
  simp [isLeap]

theorem daysBeforeYear_eq (y : ℕ) :
    daysBeforeYear y + (y + 99) / 100 = 365 * y + (y + 3) / 4 + (y + 399) / 400 := by
  induction y with
  | zero => rfl
  | succ y ih =>
    rw [daysBeforeYear, yearLength_eq]
    by_cases h : isLeap y = true
    · rw [if_pos h]
      rw [isLeap_iff] at h
      omega
    · rw [if_neg h]
      rw [isLeap_iff] at h
      omega

theorem daysBeforeYear_lt {y' : ℕ} (h : y < y') :
    daysBeforeYear y + yearLength y ≤ daysBeforeYear y' := by
  have hmono : Monotone daysBeforeYear := monotone_nat_of_le_succ fun y => Nat.le_add_right ..
  exact hmono (Nat.succ_le_of_lt h)

theorem daysBeforeMonth_lt {m' : ℕ} (h : m < m') :
    daysBeforeMonth y m + monthLength y (m + 1) ≤ daysBeforeMonth y m' := by
  have hmono : Monotone (daysBeforeMonth y) := monotone_nat_of_le_succ fun m => Nat.le_add_right ..
  exact hmono (Nat.succ_le_of_lt h)

namespace Date

variable (d d' : Date)

theorem month_end : daysBeforeMonth d.year (d.month - 1) + (d.day - 1) <
    daysBeforeMonth d.year d.month := by
  obtain ⟨m, hm⟩ := Nat.exists_eq_add_of_lt d.month_pos
  have hday := d.day_le
  have hpos := d.day_pos
  rw [show d.month = m + 1 by omega] at hday ⊢
  rw [Nat.add_sub_cancel, daysBeforeMonth]
  omega

theorem year_end : daysBeforeMonth d.year (d.month - 1) + (d.day - 1) < yearLength d.year := by
  have hmonth := d.month_end
  have hyear : daysBeforeMonth d.year d.month ≤ yearLength d.year := by
    rcases Nat.lt_or_eq_of_le d.month_le with hlt | heq
    · exact (Nat.le_add_right ..).trans (daysBeforeMonth_lt hlt)
    · rw [heq]
      exact Nat.le_refl _
  omega

def Before : Prop :=
  d.year < d'.year ∨ d.year = d'.year ∧
    (d.month < d'.month ∨ d.month = d'.month ∧ d.day < d'.day)

variable {d d'}

theorem number_lt (h : d.Before d') : d.number < d'.number := by
  unfold number
  rcases h with hyear | ⟨hyear, hmonth | ⟨hmonth, hday⟩⟩
  · have hend := d.year_end
    have hnext := daysBeforeYear_lt hyear
    omega
  · have hend := d.month_end
    have hpos := d.month_pos
    have hnext : daysBeforeMonth d.year d.month ≤ daysBeforeMonth d.year (d'.month - 1) := by
      rcases Nat.lt_or_eq_of_le (show d.month ≤ d'.month - 1 by omega) with hlt | heq
      · exact (Nat.le_add_right ..).trans (daysBeforeMonth_lt hlt)
      · rw [heq]
    rw [← hyear]
    omega
  · have hpos := d.day_pos
    rw [← hyear, ← hmonth]
    omega

theorem before_iff : d.Before d' ↔ d.number < d'.number := by
  constructor
  · exact number_lt
  · intro hlt
    by_contra hnot
    have hsame : d'.Before d ∨ d.number = d'.number := by
      unfold Before at hnot ⊢
      by_cases hall : d.year = d'.year ∧ d.month = d'.month ∧ d.day = d'.day
      · right
        unfold number
        rw [hall.1, hall.2.1, hall.2.2]
      · left
        omega
    rcases hsame with hafter | heq
    · have := number_lt hafter
      omega
    · omega

end Date

end GregorianCalendar
