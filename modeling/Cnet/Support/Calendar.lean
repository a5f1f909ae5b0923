import Mathlib.Data.Int.Basic
import Mathlib.Logic.Equiv.Defs
import Mathlib.Tactic.IntervalCases
import Mathlib.Tactic.SplitIfs

/-!
# The proleptic Gregorian calendar

Days are numbered by the integers, day `0` being the first of March of the year `0`; years
begin in March in what follows, so that the leap day comes last. `dayNumber` and
`ofDayNumber` are inverse to each other, on all dates and all integers, and the day after
a date has the next number.

All divisions here round down.
-/

namespace Cnet.Support.Calendar

def IsLeap (year : Int) : Prop := year % 4 = 0 ∧ (year % 100 ≠ 0 ∨ year % 400 = 0)

instance (year : Int) : Decidable (IsLeap year) := inferInstanceAs (Decidable (_ ∧ _))

def daysOfMonth (year month : Int) : Int :=
  if month = 2 then if IsLeap year then 29 else 28
  else if month = 4 ∨ month = 6 ∨ month = 9 ∨ month = 11 then 30 else 31

/-- A date of the calendar. -/
@[ext] structure Date where
  year : Int
  month : Int
  day : Int
  month_mem : 1 ≤ month ∧ month ≤ 12
  day_mem : 1 ≤ day ∧ day ≤ daysOfMonth year month
deriving DecidableEq

/-- The days of the years before `y`, counted from the year `0`. -/
def daysBeforeYear (y : Int) : Int := 365 * y + y / 4 - y / 100 + y / 400

/-- The days of the months before `m`, counted from March. -/
def daysBeforeMonth (m : Int) : Int := (153 * m + 2) / 5

/-- The year that began in the last March. -/
def marchYear (year month : Int) : Int := if month ≤ 2 then year - 1 else year

/-- The months since then. -/
def marchMonth (month : Int) : Int := if month ≤ 2 then month + 9 else month - 3

def dayNumber (year month day : Int) : Int :=
  daysBeforeYear (marchYear year month) + daysBeforeMonth (marchMonth month) + (day - 1)

/-- The century of a day, the year in the century, the month, and the day in the month. -/
def century (n : Int) : Int := (4 * n + 3) / 146097
def dayOfCentury (n : Int) : Int := n - (36524 * century n + century n / 4)
def yearOfCentury (n : Int) : Int := (4 * dayOfCentury n + 3) / 1461
def dayOfYear (n : Int) : Int := dayOfCentury n - (365 * yearOfCentury n + yearOfCentury n / 4)
def monthOfYear (n : Int) : Int := (5 * dayOfYear n + 2) / 153
def dayOfMonth (n : Int) : Int := dayOfYear n - daysBeforeMonth (monthOfYear n)

/-- A quotient by a positive number, as a pair of bounds. -/
theorem ediv_bounds (n : Int) {k : Int} (hk : 0 < k) : k * (n / k) ≤ n ∧ n < k * (n / k) + k := by
  constructor
  · exact Int.mul_ediv_self_le (by omega)
  · exact Int.lt_mul_ediv_self_add hk

/-- A century has 36524 days, every fourth one more. -/
theorem dayOfCentury_bounds (n : Int) :
    0 ≤ dayOfCentury n ∧ dayOfCentury n ≤ 36524 ∧
      (dayOfCentury n = 36524 → century n % 4 = 3) := by
  have h := ediv_bounds (4 * n + 3) (k := 146097) (by decide)
  rw [dayOfCentury]
  change 146097 * century n ≤ _ ∧ _ < 146097 * century n + _ at h
  omega

/-- A year has 365 days, every fourth one more but the last of a century. -/
theorem dayOfYear_bounds (n : Int) :
    0 ≤ yearOfCentury n ∧ yearOfCentury n ≤ 99 ∧ 0 ≤ dayOfYear n ∧ dayOfYear n ≤ 365 ∧
      (dayOfYear n = 365 → yearOfCentury n % 4 = 3 ∧
        (yearOfCentury n = 99 → century n % 4 = 3)) := by
  obtain ⟨hpos, hle, hlast⟩ := dayOfCentury_bounds n
  have h := ediv_bounds (4 * dayOfCentury n + 3) (k := 1461) (by decide)
  rw [dayOfYear]
  change 1461 * yearOfCentury n ≤ _ ∧ _ < 1461 * yearOfCentury n + _ at h
  omega

theorem monthOfYear_bounds (n : Int) :
    0 ≤ monthOfYear n ∧ monthOfYear n ≤ 11 ∧ 0 ≤ dayOfMonth n ∧
      (monthOfYear n ≤ 10 →
        dayOfMonth n < daysBeforeMonth (monthOfYear n + 1) - daysBeforeMonth (monthOfYear n)) := by
  obtain ⟨-, -, hpos, hle, -⟩ := dayOfYear_bounds n
  have h := ediv_bounds (5 * dayOfYear n + 2) (k := 153) (by decide)
  rw [dayOfMonth, daysBeforeMonth, daysBeforeMonth]
  change 153 * monthOfYear n ≤ _ ∧ _ < 153 * monthOfYear n + _ at h
  omega

/-- The days of the month that is `m` months after March, in the year that began then. -/
theorem daysOfMonth_eq {y m : Int} (h0 : 0 ≤ m) (h11 : m ≤ 11) :
    daysOfMonth (y + m / 10) (m + 3 - 12 * (m / 10)) =
      if m = 11 then if IsLeap (y + 1) then 29 else 28
      else daysBeforeMonth (m + 1) - daysBeforeMonth m := by
  interval_cases m <;> simp [daysOfMonth, daysBeforeMonth]

theorem isLeap_succ {b d : Int} (h0 : 0 ≤ d) (h99 : d ≤ 99) :
    IsLeap (100 * b + d + 1) ↔ d % 4 = 3 ∧ (d = 99 → b % 4 = 3) := by
  rw [IsLeap]
  omega

/-- The month of every day has that day. -/
theorem dayOfMonth_le (n : Int) :
    dayOfMonth n + 1 ≤ daysOfMonth (100 * century n + yearOfCentury n + monthOfYear n / 10)
      (monthOfYear n + 3 - 12 * (monthOfYear n / 10)) := by
  obtain ⟨hyear, hyear', -, hle, hlast⟩ := dayOfYear_bounds n
  obtain ⟨hmonth, hmonth', -, hlt⟩ := monthOfYear_bounds n
  rw [daysOfMonth_eq hmonth hmonth']
  have hleap := isLeap_succ (b := century n) hyear hyear'
  by_cases hfebruary : monthOfYear n = 11
  · rw [if_pos hfebruary, dayOfMonth, hfebruary, daysBeforeMonth]
    by_cases hyes : IsLeap (100 * century n + yearOfCentury n + 1)
    · rw [if_pos hyes]
      omega
    · rw [if_neg hyes]
      have hne : dayOfYear n ≠ 365 := fun h365 => hyes (hleap.mpr (hlast h365))
      omega
  · rw [if_neg hfebruary]
    have := hlt (by omega)
    omega

/-- The date of a day. -/
def ofDayNumber (n : Int) : Date where
  year := 100 * century n + yearOfCentury n + monthOfYear n / 10
  month := monthOfYear n + 3 - 12 * (monthOfYear n / 10)
  day := dayOfMonth n + 1
  month_mem := by
    obtain ⟨hmonth, hmonth', -⟩ := monthOfYear_bounds n
    omega
  day_mem := by
    obtain ⟨-, -, hday, -⟩ := monthOfYear_bounds n
    exact ⟨by omega, dayOfMonth_le n⟩

namespace Date

def number (d : Date) : Int := dayNumber d.year d.month d.day

end Date

theorem number_ofDayNumber (n : Int) : (ofDayNumber n).number = n := by
  obtain ⟨hmonth, hmonth', -⟩ := monthOfYear_bounds n
  obtain ⟨hyear, hyear', -⟩ := dayOfYear_bounds n
  have hm : marchMonth (ofDayNumber n).month = monthOfYear n := by
    simp only [ofDayNumber, marchMonth]
    split_ifs <;> omega
  have hy : marchYear (ofDayNumber n).year (ofDayNumber n).month =
      100 * century n + yearOfCentury n := by
    simp only [ofDayNumber, marchYear]
    split_ifs <;> omega
  have hday : (ofDayNumber n).day = dayOfMonth n + 1 := rfl
  have hyears : daysBeforeYear (100 * century n + yearOfCentury n) =
      36524 * century n + century n / 4 + (365 * yearOfCentury n + yearOfCentury n / 4) := by
    rw [daysBeforeYear]
    omega
  rw [Date.number, dayNumber, hm, hy, hday, hyears, dayOfMonth, dayOfYear, dayOfCentury]
  omega

/-- A quotient between the right bounds. -/
theorem ediv_eq {n k q : Int} (hk : 0 < k) (hle : k * q ≤ n) (hlt : n < k * q + k) : n / k = q := by
  rw [Int.ediv_eq_iff_of_pos hk]
  constructor
  · rw [Int.mul_comm]
    exact hle
  · rw [Int.mul_comm]
    exact hlt

section inverse

variable {b d e : Int} (h0 : 0 ≤ d) (h99 : d ≤ 99) (he0 : 0 ≤ e) (he : e ≤ 365)
  (hlast : e = 365 → d % 4 = 3 ∧ (d = 99 → b % 4 = 3))
include h0 h99 he0 he hlast

theorem century_eq : century (daysBeforeYear (100 * b + d) + e) = b := by
  refine ediv_eq (by decide) ?_ ?_
  · rw [daysBeforeYear]
    omega
  · rw [daysBeforeYear]
    omega

theorem dayOfCentury_eq :
    dayOfCentury (daysBeforeYear (100 * b + d) + e) = 365 * d + d / 4 + e := by
  rw [dayOfCentury, century_eq h0 h99 he0 he hlast, daysBeforeYear]
  omega

theorem yearOfCentury_eq : yearOfCentury (daysBeforeYear (100 * b + d) + e) = d := by
  rw [yearOfCentury, dayOfCentury_eq h0 h99 he0 he hlast]
  refine ediv_eq (by decide) ?_ ?_ <;> omega

theorem dayOfYear_eq : dayOfYear (daysBeforeYear (100 * b + d) + e) = e := by
  rw [dayOfYear, yearOfCentury_eq h0 h99 he0 he hlast, dayOfCentury_eq h0 h99 he0 he hlast]
  omega

end inverse

theorem monthOfYear_eq {n m t : Int} (hm0 : 0 ≤ m) (hm : m ≤ 11) (ht0 : 0 ≤ t)
    (hn : dayOfYear n = daysBeforeMonth m + t)
    (ht : m ≤ 10 → t < daysBeforeMonth (m + 1) - daysBeforeMonth m) (hn365 : dayOfYear n ≤ 365) :
    monthOfYear n = m := by
  rw [daysBeforeMonth] at hn
  rw [daysBeforeMonth, daysBeforeMonth] at ht
  refine ediv_eq (by decide) ?_ ?_
  · omega
  · by_cases h10 : m ≤ 10
    · have := ht h10
      omega
    · omega

namespace Date

variable (d : Date)

/-- The month and the year of a date, counted from March. -/
theorem marchMonth_bounds : 0 ≤ marchMonth d.month ∧ marchMonth d.month ≤ 11 ∧
    d.month = marchMonth d.month + 3 - 12 * (marchMonth d.month / 10) ∧
    d.year = marchYear d.year d.month + marchMonth d.month / 10 := by
  obtain ⟨hmonth, hmonth'⟩ := d.month_mem
  rw [marchMonth, marchYear]
  split_ifs <;> omega

theorem day_lt : d.day - 1 <
    if marchMonth d.month = 11 then if IsLeap (marchYear d.year d.month + 1) then 29 else 28
    else daysBeforeMonth (marchMonth d.month + 1) - daysBeforeMonth (marchMonth d.month) := by
  obtain ⟨hmonth, hmonth', heq, hyear⟩ := d.marchMonth_bounds
  have hday := d.day_mem.2
  have hdays := daysOfMonth_eq (y := marchYear d.year d.month) hmonth hmonth'
  rw [← heq, ← hyear] at hdays
  rw [← hdays]
  omega

end Date

theorem ofDayNumber_number (d : Date) : ofDayNumber d.number = d := by
  obtain ⟨hmonth, hmonth', hmonthEq, hyearEq⟩ := d.marchMonth_bounds
  have hday := d.day_mem.1
  have hlt := d.day_lt
  set y := marchYear d.year d.month with hy
  set m := marchMonth d.month with hm
  have hcentury : y = 100 * (y / 100) + y % 100 := (Int.mul_ediv_add_emod y 100).symm
  have hleap := isLeap_succ (b := y / 100) (d := y % 100) (by omega) (by omega)
  rw [← hcentury] at hleap
  -- the day of the year, counted from March
  set e := daysBeforeMonth m + (d.day - 1) with he
  have hle : 0 ≤ e ∧ e ≤ 365 ∧ (e = 365 → IsLeap (y + 1)) := by
    rw [he, daysBeforeMonth]
    by_cases h11 : m = 11
    · rw [if_pos h11] at hlt
      by_cases hyes : IsLeap (y + 1)
      · rw [if_pos hyes] at hlt
        exact ⟨by omega, by omega, fun _ => hyes⟩
      · rw [if_neg hyes] at hlt
        omega
    · rw [if_neg h11, daysBeforeMonth, daysBeforeMonth] at hlt
      omega
  obtain ⟨he0, he365, hlast⟩ := hle
  have hlast' := fun h => hleap.mp (hlast h)
  have hnumber : d.number = daysBeforeYear (100 * (y / 100) + y % 100) + e := by
    rw [← hcentury, he, Date.number, dayNumber, ← hy, ← hm]
    omega
  have hcentury' := century_eq (b := y / 100) (d := y % 100) (by omega) (by omega) he0 he365 hlast'
  have hyear' :=
    yearOfCentury_eq (b := y / 100) (d := y % 100) (by omega) (by omega) he0 he365 hlast'
  have hday' := dayOfYear_eq (b := y / 100) (d := y % 100) (by omega) (by omega) he0 he365 hlast'
  rw [← hnumber] at hcentury' hyear' hday'
  have hmonth'' : monthOfYear d.number = m := by
    refine monthOfYear_eq hmonth hmonth' (by omega) (hday'.trans he) (fun h10 => ?_) (by omega)
    rw [if_neg (by omega)] at hlt
    exact hlt
  ext
  · show 100 * century d.number + yearOfCentury d.number + monthOfYear d.number / 10 = _
    rw [hcentury', hyear', hmonth'', ← hcentury, hyearEq]
  · show monthOfYear d.number + 3 - 12 * (monthOfYear d.number / 10) = _
    rw [hmonth'', hmonthEq]
  · show dayOfYear d.number - daysBeforeMonth (monthOfYear d.number) + 1 = _
    rw [hday', hmonth'', he]
    omega

/-- Dates are numbered by the integers. -/
def dateEquiv : Date ≃ Int where
  toFun := Date.number
  invFun := ofDayNumber
  left_inv := ofDayNumber_number
  right_inv := number_ofDayNumber

theorem daysOfMonth_pos (year month : Int) : 1 ≤ daysOfMonth year month := by
  rw [daysOfMonth]
  split_ifs <;> decide

/-- The day after a date. -/
def Date.next (d : Date) : Date :=
  if hday : d.day < daysOfMonth d.year d.month then
    { d with day := d.day + 1, day_mem := ⟨by have := d.day_mem; omega, hday⟩ }
  else if hmonth : d.month < 12 then
    ⟨d.year, d.month + 1, 1, ⟨by have := d.month_mem; omega, hmonth⟩, le_refl _,
      daysOfMonth_pos _ _⟩
  else ⟨d.year + 1, 1, 1, ⟨le_refl _, by decide⟩, le_refl _, daysOfMonth_pos _ _⟩

theorem Date.year_next (d : Date) : d.year ≤ d.next.year ∧ d.next.year ≤ d.year + 1 := by
  rw [Date.next]
  split_ifs
  · exact ⟨le_refl _, Int.le_add_one (le_refl _)⟩
  · exact ⟨le_refl _, Int.le_add_one (le_refl _)⟩
  · exact ⟨Int.le_add_one (le_refl _), le_refl _⟩

theorem daysBeforeYear_succ (year : Int) :
    daysBeforeYear year = daysBeforeYear (year - 1) + if IsLeap year then 366 else 365 := by
  rw [daysBeforeYear, daysBeforeYear]
  by_cases hleap : IsLeap year
  · rw [if_pos hleap]
    rw [IsLeap] at hleap
    omega
  · rw [if_neg hleap]
    rw [IsLeap] at hleap
    omega

/-- The month after another begins where that one ends. -/
theorem dayNumber_succ_month {year month : Int} (h1 : 1 ≤ month) (h12 : month < 12) :
    dayNumber year (month + 1) 1 = dayNumber year month (daysOfMonth year month) + 1 := by
  by_cases h2 : month = 2
  · subst h2
    rw [dayNumber, dayNumber]
    simp only [marchYear, marchMonth, daysBeforeMonth, daysOfMonth]
    have := daysBeforeYear_succ year
    split_ifs at * <;> omega
  · rw [dayNumber, dayNumber]
    simp only [marchYear, marchMonth, daysBeforeMonth, daysOfMonth, if_neg h2]
    interval_cases month <;> simp at h2 ⊢ <;> omega

theorem dayNumber_succ_year (year : Int) :
    dayNumber (year + 1) 1 1 = dayNumber year 12 (daysOfMonth year 12) + 1 := by
  simp [dayNumber, marchYear, marchMonth, daysBeforeMonth, daysOfMonth]
  omega

theorem Date.number_next (d : Date) : d.next.number = d.number + 1 := by
  have hday := d.day_mem.2
  rw [Date.next]
  split_ifs with hlt hmonth
  · show dayNumber d.year d.month (d.day + 1) = dayNumber d.year d.month d.day + 1
    rw [dayNumber, dayNumber]
    omega
  · have hlast : d.day = daysOfMonth d.year d.month := by omega
    show dayNumber d.year (d.month + 1) 1 = dayNumber d.year d.month d.day + 1
    rw [hlast]
    exact dayNumber_succ_month d.month_mem.1 hmonth
  · have hlast : d.day = daysOfMonth d.year d.month := by omega
    have hdecember : d.month = 12 := by
      have := d.month_mem.2
      omega
    show dayNumber (d.year + 1) 1 1 = dayNumber d.year d.month d.day + 1
    rw [hlast, hdecember]
    exact dayNumber_succ_year d.year

end Cnet.Support.Calendar
