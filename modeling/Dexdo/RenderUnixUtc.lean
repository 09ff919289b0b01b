import Mathlib.Tactic.IntervalCases
import Dexdo.GregorianCalendar

/-! # Deadlines as UTC date-times

`render_unix_utc` of `orders.rs`. Every step of its arithmetic is checked: `none` is a value that
does not fit its type. -/
namespace RenderUnixUtc

open GregorianCalendar

/-! ## Arithmetic -/

def i64 (x : ℤ) : Option ℤ := if -2 ^ 63 ≤ x ∧ x < 2 ^ 63 then some x else none

def u64 (n : ℕ) : Option ℕ := if n < 2 ^ 64 then some n else none

def asI64 (n : ℕ) : ℤ := if n < 2 ^ 63 then n else n - 2 ^ 64

def asU64 (x : ℤ) : ℕ := (x % 2 ^ 64).toNat

structure DateTime where
  year : ℤ
  month : ℕ
  day : ℕ
  hour : ℕ
  minute : ℕ
  second : ℕ
  deriving DecidableEq

/-- What the text shows of so many seconds. -/
def dateTime (seconds : ℕ) : Option DateTime := do
  let days := asI64 (seconds / 86400)
  let timeOfDay := seconds % 86400
  let shifted ← i64 (days + 719468)
  let era := shifted / 146097
  let dayOfEra := shifted % 146097
  let first ← i64 (dayOfEra - dayOfEra / 1460)
  let second ← i64 (first + dayOfEra / 36524)
  let third ← i64 (second - dayOfEra / 146096)
  let yearOfEra := third / 365
  let ordinary ← i64 (365 * yearOfEra)
  let fourth ← i64 (ordinary + yearOfEra / 4)
  let before ← i64 (fourth - yearOfEra / 100)
  let dayOfYear ← i64 (dayOfEra - before)
  let five ← i64 (5 * dayOfYear)
  let fiveTwo ← i64 (five + 2)
  let shiftedMonth := fiveTwo / 153
  let months ← i64 (153 * shiftedMonth)
  let monthsTwo ← i64 (months + 2)
  let dayOfMonth ← i64 (dayOfYear - monthsTwo / 5)
  let day ← i64 (dayOfMonth + 1)
  let month ← if shiftedMonth < 10 then i64 (shiftedMonth + 3) else i64 (shiftedMonth - 9)
  let eras ← i64 (era * 400)
  let year ← i64 (yearOfEra + eras)
  let year ← i64 (year + if asU64 month ≤ 2 then 1 else 0)
  return {
    year := year
    month := asU64 month
    day := asU64 day
    hour := timeOfDay / 3600
    minute := timeOfDay % 3600 / 60
    second := timeOfDay % 60 }

def pad (width n : ℕ) : String :=
  String.ofList (List.replicate (width - n.repr.length) '0') ++ n.repr

def padYear (year : ℤ) : String :=
  if 0 ≤ year then pad 4 year.natAbs else "-" ++ pad 3 year.natAbs

def DateTime.text (t : DateTime) : String :=
  padYear t.year ++ "-" ++ pad 2 t.month ++ "-" ++ pad 2 t.day ++ "T" ++ pad 2 t.hour ++ ":" ++
    pad 2 t.minute ++ ":" ++ pad 2 t.second ++ "Z"

def renderUnixUtc (seconds : ℕ) : Option String :=
  if seconds = 0 then some "-" else (dateTime seconds).map DateTime.text

/-! ## Eras, centuries, cycles of four years -/

/-- Where a day stands in its era, counted from the first of March: the century, the cycle of four
years, the year and the day in it. -/
structure Place where
  century : ℕ
  cycle : ℕ
  year : ℕ
  day : ℕ
  century_lt : century < 4
  cycle_lt : cycle < 25
  year_lt : year < 4
  /-- A year has a day more when the one after it is a leap year. -/
  day_le : day < 365 ∨ day = 365 ∧ year = 3 ∧ (cycle < 24 ∨ century = 3)

namespace Place

variable (p : Place)

def dayOfEra : ℕ := 36524 * p.century + 1461 * p.cycle + 365 * p.year + p.day

def yearOfEra : ℕ := 100 * p.century + 4 * p.cycle + p.year

theorem exists_of_lt {doe : ℕ} (h : doe < 146097) : ∃ p : Place, p.dayOfEra = doe := by
  let c := min (doe / 36524) 3
  let r := doe - 36524 * c
  let q := r / 1461
  let j := min (r % 1461 / 365) 3
  refine ⟨⟨c, q, j, r % 1461 - 365 * j, ?_, ?_, ?_, ?_⟩, ?_⟩
  · omega
  · omega
  · omega
  · omega
  · unfold dayOfEra
    dsimp only
    omega

theorem yearOfEra_eq : ((p.dayOfEra : ℤ) - p.dayOfEra / 1460 + p.dayOfEra / 36524 -
    p.dayOfEra / 146096) / 365 = p.yearOfEra := by
  obtain ⟨c, q, j, t, hc, hq, hj, ht⟩ := p
  unfold dayOfEra yearOfEra
  dsimp only at *
  generalize hd : 36524 * c + 1461 * q + 365 * j + t = d
  -- the last day of an era ends a fifth century, and is taken back
  have hcentury : d / 36524 = c + d / 146096 := by
    by_cases hlast : t = 365 ∧ q = 24
    · obtain rfl : c = 3 := by omega
      omega
    · have hrest : 1461 * q + 365 * j + t < 36524 := by omega
      have hlt : d / 146096 = 0 := Nat.div_eq_of_lt (by omega)
      omega
  -- a cycle has a day more than four times 365, which adds up to a year at the end of one
  have hcycle : d / 1460 = 25 * c + q + (24 * c + q + 365 * j + t) / 1460 := by omega
  have hyear : (24 * c + q + 365 * j + t) / 1460 ≤ t ∧
      t < 365 + (24 * c + q + 365 * j + t) / 1460 := by omega
  omega

theorem beforeYear_eq : 365 * (p.yearOfEra : ℤ) + p.yearOfEra / 4 - p.yearOfEra / 100 =
    p.dayOfEra - p.day := by
  obtain ⟨c, q, j, t, hc, hq, hj, ht⟩ := p
  unfold dayOfEra yearOfEra
  dsimp only at *
  push_cast
  omega

end Place

/-! ## Months counted from March -/

theorem march_number (y : ℕ) : daysBeforeYear y + daysBeforeMonth y 2 + y / 100 =
    365 * y + y / 4 + y / 400 + 60 := by
  have hcount := daysBeforeYear_eq y
  have hmonths : daysBeforeMonth y 2 = if isLeap y then 60 else 59 := by
    cases h : isLeap y <;> simp [daysBeforeMonth, monthLength, h]
  have hfourth : (y + 3) / 4 = y / 4 + if y % 4 = 0 then 0 else 1 := by split <;> omega
  have hhundredth : (y + 99) / 100 = y / 100 + if y % 100 = 0 then 0 else 1 := by split <;> omega
  have hera : (y + 399) / 400 = y / 400 + if y % 400 = 0 then 0 else 1 := by split <;> omega
  rw [hfourth, hhundredth, hera] at hcount
  rw [hmonths]
  by_cases h : isLeap y = true
  · rw [if_pos h]
    obtain ⟨h4, h100⟩ := isLeap_iff.mp h
    rw [if_pos h4] at hcount
    split_ifs at hcount <;> omega
  · rw [if_neg h]
    rw [isLeap_iff] at h
    split_ifs at hcount <;> omega

theorem yearLength_march (y : ℕ) : yearLength y = daysBeforeMonth y 2 + 306 := by
  cases h : isLeap y <;> simp [yearLength, daysBeforeMonth, monthLength, h]

def marchMonth (t : ℕ) : ℕ := (5 * t + 2) / 153

def beforeMarchMonth (m : ℕ) : ℕ := (153 * m + 2) / 5

theorem daysBeforeMonth_march (y : ℕ) {m : ℕ} (h : m < 10) :
    daysBeforeMonth y (m + 2) = daysBeforeMonth y 2 + beforeMarchMonth m := by
  interval_cases m <;> simp [daysBeforeMonth, monthLength, beforeMarchMonth]

theorem daysBeforeMonth_january (y : ℕ) {m : ℕ} (h : 10 ≤ m) (h' : m < 12) :
    daysBeforeMonth y (m - 10) + 306 = beforeMarchMonth m := by
  interval_cases m <;> simp [daysBeforeMonth, monthLength, beforeMarchMonth]

theorem marchMonth_spec {t : ℕ} (h : t ≤ 365) : marchMonth t < 12 ∧
    beforeMarchMonth (marchMonth t) ≤ t ∧
    (marchMonth t < 11 → t < beforeMarchMonth (marchMonth t + 1)) := by
  unfold beforeMarchMonth
  have hmonth : marchMonth t = (5 * t + 2) / 153 := rfl
  generalize marchMonth t = m at hmonth ⊢
  omega

theorem monthLength_march (y : ℕ) {m : ℕ} (h : m < 10) :
    monthLength y (m + 3) = beforeMarchMonth (m + 1) - beforeMarchMonth m := by
  interval_cases m <;> rfl

/-- The date of a place in an era. -/
theorem Place.date (p : Place) (era : ℕ) : ∃ d : Date,
    d.number = 146097 * era + p.dayOfEra + 60 ∧
    d.month = (if marchMonth p.day < 10 then marchMonth p.day + 3 else marchMonth p.day - 9) ∧
    d.day = p.day - beforeMarchMonth (marchMonth p.day) + 1 ∧
    d.year = 400 * era + p.yearOfEra + (if d.month ≤ 2 then 1 else 0) := by
  obtain ⟨c, q, j, t, hc, hq, hj, ht⟩ := p
  unfold dayOfEra yearOfEra
  dsimp only at *
  obtain ⟨hm, hle, hlt⟩ := marchMonth_spec (t := t) (by omega)
  generalize marchMonth t = m at hm hle hlt ⊢
  generalize hy : 400 * era + (100 * c + 4 * q + j) = y
  have hmarch := march_number y
  have hfourth : y / 4 = 100 * era + 25 * c + q := by omega
  have hhundredth : y / 100 = 4 * era + c := by omega
  have hera : y / 400 = era := by omega
  have hleap : t = 365 → isLeap (y + 1) = true := by
    intro hlast
    rw [isLeap_iff]
    omega
  rw [hfourth, hhundredth, hera] at hmarch
  by_cases hten : m < 10
  · have hday := hlt (by omega)
    have hlength := monthLength_march y hten
    have hbefore := daysBeforeMonth_march y hten
    refine ⟨⟨y, m + 3, t - beforeMarchMonth m + 1, by omega, by omega, by omega, by omega⟩,
      ?_, ?_, rfl, ?_⟩
    · unfold Date.number
      dsimp only
      rw [show m + 3 - 1 = m + 2 by omega, hbefore]
      omega
    · rw [if_pos hten]
    · rw [if_neg (by dsimp only; omega)]
      rfl
  · have hbefore := daysBeforeMonth_january (y + 1) (not_lt.mp hten) hm
    have hyear : daysBeforeYear (y + 1) = daysBeforeYear y + daysBeforeMonth y 2 + 306 := by
      rw [daysBeforeYear, yearLength_march, Nat.add_assoc]
    have hday : t - beforeMarchMonth m + 1 ≤ monthLength (y + 1) (m - 9) := by
      have hjanuary : beforeMarchMonth 10 = 306 := by decide
      have hfebruary : beforeMarchMonth 11 = 337 := by decide
      rcases show m = 10 ∨ m = 11 by omega with heq | heq
      · have hlast := hlt (by omega)
        rw [heq, hfebruary] at hlast
        rw [heq, hjanuary]
        change t - 306 + 1 ≤ 31
        omega
      · rw [heq, hfebruary]
        change t - 337 + 1 ≤ if isLeap (y + 1) then 29 else 28
        by_cases hlast : t = 365
        · rw [if_pos (hleap hlast), hlast]
        · split <;> omega
    refine ⟨⟨y + 1, m - 9, t - beforeMarchMonth m + 1, by omega, by omega, by omega, hday⟩,
      ?_, ?_, rfl, ?_⟩
    · unfold Date.number
      dsimp only
      rw [show m - 9 - 1 = m - 10 by omega, hyear]
      omega
    · rw [if_neg hten]
    · rw [if_pos (by dsimp only; omega)]

/-! ## The conversion -/

theorem bind_i64 {α : Type} {x : ℤ} {f : ℤ → Option α} (h : -2 ^ 63 ≤ x ∧ x < 2 ^ 63) :
    (i64 x >>= f) = f x := by
  rw [i64, if_pos h]
  rfl

theorem asU64_cast {n : ℕ} (h : n < 2 ^ 64) : asU64 n = n := by
  unfold asU64
  omega

theorem epoch_number : epoch.number = 719528 := by
  -- the year as a variable, or the years before it are counted one by one
  obtain ⟨y, hy, hnumber⟩ : ∃ y, y = epoch.year ∧ epoch.number = daysBeforeYear y :=
    ⟨_, rfl, Date.number_first rfl rfl⟩
  have hyears := daysBeforeYear_eq y
  rw [show epoch.year = 1970 from rfl] at hy
  omega

/-- The conversion of a day of a given place, step by step. -/
theorem dateTime_place {seconds days era doe yoe t m : ℕ} (hdays : seconds / 86400 = days)
    (hbound : days < 2 ^ 48) (hera : (days + 719468) / 146097 = era)
    (hdoe : (days + 719468) % 146097 = doe)
    (hyoe : ((doe : ℤ) - doe / 1460 + doe / 36524 - doe / 146096) / 365 = yoe)
    (hbefore : 365 * (yoe : ℤ) + yoe / 4 - yoe / 100 = doe - t)
    (hmonth : (5 * t + 2) / 153 = m) (hle : (153 * m + 2) / 5 ≤ t) (ht : t ≤ 365) (hm : m < 12)
    (hyear : yoe < 400) : dateTime seconds = some
      { year := 400 * era + yoe + (if m < 10 then 0 else 1 : ℕ)
        month := if m < 10 then m + 3 else m - 9
        day := t - (153 * m + 2) / 5 + 1
        hour := seconds % 86400 / 3600
        minute := seconds % 86400 % 3600 / 60
        second := seconds % 86400 % 60 } := by
  have hfit : asI64 days = days := if_pos (by omega)
  have hera' : ((days : ℤ) + 719468) / 146097 = era := by omega
  have hdoe' : ((days : ℤ) + 719468) % 146097 = doe := by omega
  have hmonth' : (5 * (t : ℤ) + 2) / 153 = m := by omega
  have hdoelt : doe < 146097 := by omega
  have heralt : era < 2 ^ 48 := by omega
  unfold dateTime
  dsimp only
  rw [hdays, hfit]
  refine (bind_i64 (by omega)).trans ?_
  rw [hera', hdoe']
  clear hdays hfit hera hdoe hera' hdoe' hbound hmonth
  refine (bind_i64 (by omega)).trans ?_
  refine (bind_i64 (by omega)).trans ?_
  refine (bind_i64 (by omega)).trans ?_
  rw [hyoe]
  refine (bind_i64 (by omega)).trans ?_
  refine (bind_i64 (by omega)).trans ?_
  refine (bind_i64 (by omega)).trans ?_
  rw [hbefore, sub_sub_cancel]
  clear hyoe hbefore
  refine (bind_i64 (by omega)).trans ?_
  refine (bind_i64 (by omega)).trans ?_
  refine (bind_i64 (by omega)).trans ?_
  rw [hmonth']
  refine (bind_i64 (by omega)).trans ?_
  refine (bind_i64 (by omega)).trans ?_
  refine (bind_i64 (by omega)).trans ?_
  refine (bind_i64 (by omega)).trans ?_
  have hday : (t : ℤ) - (153 * m + 2) / 5 + 1 = (t - (153 * m + 2) / 5 + 1 : ℕ) := by omega
  rw [hday, asU64_cast (by omega)]
  by_cases hten : m < 10
  · have hmarch : (m : ℤ) + 3 = (m + 3 : ℕ) := by omega
    have hyear : (yoe : ℤ) + era * 400 + 0 = 400 * era + yoe + (0 : ℕ) := by omega
    rw [if_pos (by omega), if_pos hten, if_pos hten]
    refine (bind_i64 (by omega)).trans ?_
    refine (bind_i64 (by omega)).trans ?_
    refine (bind_i64 (by omega)).trans ?_
    rw [hmarch, asU64_cast (by omega), if_neg (by omega)]
    refine (bind_i64 (by omega)).trans ?_
    rw [hyear]
    rfl
  · have hjanuary : (m : ℤ) - 9 = (m - 9 : ℕ) := by omega
    have hyear : (yoe : ℤ) + era * 400 + 1 = 400 * era + yoe + (1 : ℕ) := by omega
    rw [if_neg (by omega), if_neg hten, if_neg hten]
    refine (bind_i64 (by omega)).trans ?_
    refine (bind_i64 (by omega)).trans ?_
    refine (bind_i64 (by omega)).trans ?_
    rw [hjanuary, asU64_cast (by omega), if_pos (by omega)]
    refine (bind_i64 (by omega)).trans ?_
    rw [hyear]
    rfl

/-- No step overflows, and what comes out is a date and a time of day. -/
theorem dateTime_eq {seconds : ℕ} (h : seconds < 2 ^ 64) : ∃ d : Date,
    d.number = epoch.number + seconds / 86400 ∧
    dateTime seconds = some ⟨d.year, d.month, d.day, seconds % 86400 / 3600,
      seconds % 86400 % 3600 / 60, seconds % 86400 % 60⟩ := by
  have hlt : (seconds / 86400 + 719468) % 146097 < 146097 := Nat.mod_lt _ (by decide)
  obtain ⟨p, hp⟩ := Place.exists_of_lt hlt
  obtain ⟨d, hnumber, hmonth, hday, hyear⟩ := p.date ((seconds / 86400 + 719468) / 146097)
  have hday365 : p.day ≤ 365 := by
    have := p.day_le
    omega
  have hyear400 : p.yearOfEra < 400 := by
    have := p.century_lt
    have := p.cycle_lt
    have := p.year_lt
    unfold Place.yearOfEra
    omega
  obtain ⟨hm, hle, -⟩ := marchMonth_spec hday365
  have hepoch := epoch_number
  refine ⟨d, by omega, ?_⟩
  rw [dateTime_place rfl (by omega) rfl hp.symm p.yearOfEra_eq p.beforeYear_eq rfl hle hday365 hm
    hyear400]
  have hcivil : (d.year : ℤ) = 400 * ((seconds / 86400 + 719468) / 146097 : ℕ) + p.yearOfEra +
      (if marchMonth p.day < 10 then 0 else 1 : ℕ) := by
    rw [hyear]
    by_cases hten : marchMonth p.day < 10
    · rw [if_pos hten] at hmonth ⊢
      rw [if_neg (by omega)]
      push_cast
      rfl
    · rw [if_neg hten] at hmonth ⊢
      rw [if_pos (by omega)]
      push_cast
      rfl
  rw [hcivil, hmonth, hday]
  rfl

/-! ## The deadline as it is shown -/

def DateTime.fields (t : DateTime) : List ℤ := [t.year, t.month, t.day, t.hour, t.minute, t.second]

/-- A date of the calendar and a time of day, so many seconds after the first of January 1970. -/
structure Shows (seconds : ℕ) (t : DateTime) (d : Date) : Prop where
  year : t.year = d.year
  month : t.month = d.month
  day : t.day = d.day
  hour_lt : t.hour < 24
  minute_lt : t.minute < 60
  second_lt : t.second < 60
  days : d.number - epoch.number = seconds / 86400
  since : epoch.number ≤ d.number ∧ (d.number - epoch.number) * 86400 + t.hour * 3600 +
    t.minute * 60 + t.second = seconds

theorem dateTime_shows {seconds : ℕ} (h : seconds < 2 ^ 64) :
    ∃ t d, dateTime seconds = some t ∧ Shows seconds t d := by
  obtain ⟨d, hnumber, ht⟩ := dateTime_eq h
  refine ⟨_, d, ht, rfl, rfl, rfl, ?_, ?_, ?_, by omega, by omega, ?_⟩
  all_goals
    dsimp only
    omega

theorem Shows.fields_lt {seconds later : ℕ} {t t' : DateTime} {d d' : Date} (h : Shows seconds t d)
    (h' : Shows later t' d') (hlt : seconds < later) : t.fields < t'.fields := by
  have hdays := h.days
  have hdays' := h'.days
  have hsince := h.since
  have hsince' := h'.since
  have hbounds := And.intro h.minute_lt h.second_lt
  have hbounds' := And.intro h'.minute_lt h'.second_lt
  unfold DateTime.fields
  rw [h.year, h.month, h.day, h'.year, h'.month, h'.day]
  simp only [List.cons_lt_cons_iff, Nat.cast_lt, Nat.cast_inj]
  by_cases hsame : d.number = d'.number
  · have hnot : ¬d.Before d' ∧ ¬d'.Before d := by
      rw [Date.before_iff, Date.before_iff]
      omega
    unfold Date.Before at hnot
    omega
  · have hbefore : d.Before d' := Date.before_iff.mpr (by omega)
    unfold Date.Before at hbefore
    omega

/-- A deadline is shown as its date and time of day, and a later one as a later. -/
theorem renderUnixUtc_shows (seconds : ℕ) (hpos : 0 < seconds) (h : seconds < 2 ^ 64) :
    ∃ t d, dateTime seconds = some t ∧ renderUnixUtc seconds = some t.text ∧ Shows seconds t d ∧
      ∀ later, seconds < later → later < 2 ^ 64 →
        ∃ t', dateTime later = some t' ∧ t.fields < t'.fields := by
  obtain ⟨t, d, ht, hshows⟩ := dateTime_shows h
  refine ⟨t, d, ht, ?_, hshows, ?_⟩
  · rw [renderUnixUtc, if_neg (by omega), ht]
    rfl
  · intro later hlt hlater
    obtain ⟨t', d', ht', hshows'⟩ := dateTime_shows hlater
    exact ⟨t', ht', hshows.fields_lt hshows' hlt⟩

/-- The last day of February 2000. -/
theorem leap_day_shown : ∃ t d, renderUnixUtc 951825600 = some t ∧ d.month = 2 ∧ d.day = 29 ∧
    Shows 951825600 ⟨2000, 2, 29, 12, 0, 0⟩ d ∧ t = "2000-02-29T12:00:00Z" := by
  obtain ⟨t, d, ht, htext, hshows, -⟩ := renderUnixUtc_shows 951825600 (by decide) (by decide)
  have hvalue : dateTime 951825600 = some ⟨2000, 2, 29, 12, 0, 0⟩ := by decide
  obtain rfl := Option.some.inj (hvalue.symm.trans ht)
  exact ⟨_, d, htext, hshows.month.symm, hshows.day.symm, hshows, by decide +kernel⟩

end RenderUnixUtc
