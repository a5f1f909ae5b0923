import Cnet.Support.CInt
import Cnet.Support.Calendar

/-!
# Dates

`Date` keeps a Julian day number. The two conversions are chains of truncating divisions of
`int`s; where no intermediate value overflows they number the dates of the proleptic
Gregorian calendar, and its day `0` is Julian day 1721120.
-/

namespace Cnet.Base

open Cnet.Support
open CInt

structure YearMonthDay where
  year : CInt
  month : CInt
  day : CInt
deriving DecidableEq

def getJulianDayNumber (year month day : CInt) : CInt :=
  let a := (14 - month) / 12
  let y := year + 4800 - a
  let m := month + 12 * a - 3
  day + (153 * m + 2) / 5 + y * 365 + y / 4 - y / 100 + y / 400 - 32045

def getYearMonthDay (julianDayNumber : CInt) : YearMonthDay :=
  let a := julianDayNumber + 32044
  let b := (4 * a + 3) / 146097
  let c := a - b * 146097 / 4
  let d := (4 * c + 3) / 1461
  let e := c - 1461 * d / 4
  let m := (5 * e + 2) / 153
  { day := e - (153 * m + 2) / 5 + 1
    month := m + 3 - 12 * (m / 10)
    year := b * 100 + d - 4800 + m / 10 }

structure Date where
  julianDayNumber_ : CInt
deriving DecidableEq

namespace Date

def kDaysPerWeek : CInt := 7
def kJulianDayOf1970_01_01 : CInt := getJulianDayNumber 1970 1 1

/-- `Date(int, int, int)` -/
def ofYearMonthDay (year month day : CInt) : Date := ⟨getJulianDayNumber year month day⟩

def julianDayNumber (d : Date) : CInt := d.julianDayNumber_

def yearMonthDay (d : Date) : YearMonthDay := getYearMonthDay d.julianDayNumber_

/-- `0` is Sunday. -/
def weekDay (d : Date) : CInt := (d.julianDayNumber_ + 1) % kDaysPerWeek

end Date

/-- The Julian day number of day `0` of the calendar. -/
def julianDayZero : Int := 1721120

variable {year month day : Int}

theorem marchYear_bounds (month : Int) (hy : -4799 ≤ year) (hy' : year ≤ 1000001) :
    -4800 ≤ Calendar.marchYear year month ∧ Calendar.marchYear year month ≤ 1000001 := by
  rw [Calendar.marchYear]
  split_ifs <;> omega

/-- In the years for which nothing overflows, dates are numbered as in the calendar. -/
theorem getJulianDayNumber_spec (hy : -4799 ≤ year) (hy' : year ≤ 1000001) (hm : 1 ≤ month)
    (hm' : month ≤ 12) (hd : 1 ≤ day) (hd' : day ≤ 31) :
    getJulianDayNumber year month day =
      ofInt (Calendar.dayNumber year month day + julianDayZero) := by
  have ha : (14 - (month : CInt)) / 12 = ofInt ((14 - month) / 12) := by
    simp (disch := omega) only [ofNat_eq, sub_ofInt, div_ofInt]
  have hyear : (year : CInt) + 4800 - ofInt ((14 - month) / 12) =
      ofInt (Calendar.marchYear year month + 4800) := by
    simp (disch := omega) only [ofNat_eq, add_ofInt, sub_ofInt]
    rw [Calendar.marchYear]
    congr 1
    split_ifs <;> omega
  have hmonth : (month : CInt) + 12 * ofInt ((14 - month) / 12) - 3 =
      ofInt (Calendar.marchMonth month) := by
    simp (disch := omega) only [ofNat_eq, add_ofInt, sub_ofInt, mul_ofInt]
    rw [Calendar.marchMonth]
    congr 1
    split_ifs <;> omega
  have hbounds := marchYear_bounds month hy hy'
  have hbounds' : 0 ≤ Calendar.marchMonth month ∧ Calendar.marchMonth month ≤ 11 := by
    rw [Calendar.marchMonth]
    split_ifs <;> omega
  rw [getJulianDayNumber, ha, hyear, hmonth, Calendar.dayNumber, julianDayZero]
  generalize Calendar.marchYear year month = y at hbounds
  generalize Calendar.marchMonth month = m at hbounds'
  simp (disch := omega) only [ofNat_eq, add_ofInt, sub_ofInt, mul_ofInt, div_ofInt]
  rw [Calendar.daysBeforeYear, Calendar.daysBeforeMonth]
  congr 1
  omega

/-- A date with its fields as `int`s. -/
def yearMonthDayOf (d : Calendar.Date) : YearMonthDay := ⟨d.year, d.month, d.day⟩

/-- From the first of March of -4800 on, as long as nothing overflows, the date of a Julian
day is that of the calendar. -/
theorem getYearMonthDay_spec {j : Int} (h0 : 0 ≤ j + 32044) (hmax : 4 * (j + 32044) + 3 ≤ intMax) :
    getYearMonthDay j = yearMonthDayOf (Calendar.ofDayNumber (j - julianDayZero)) := by
  rw [intMax] at hmax
  set n := j - julianDayZero with hn
  have hj : j = n + 1721120 := by rw [hn, julianDayZero]; omega
  obtain ⟨hc0, hc, -⟩ := Calendar.dayOfCentury_bounds n
  obtain ⟨hd0, hd, he0, he, -⟩ := Calendar.dayOfYear_bounds n
  obtain ⟨hm0, hm, ht0, -⟩ := Calendar.monthOfYear_bounds n
  have ha : (j : CInt) + 32044 = ofInt (n + 1753164) := by
    simp (disch := omega) only [ofNat_eq, add_ofInt]
    congr 1
    omega
  have hcentury : -48 ≤ Calendar.century n ∧ Calendar.century n ≤ 14651 := by
    rw [Calendar.century]
    omega
  have hb : (4 * ofInt (n + 1753164) + 3) / 146097 = ofInt (Calendar.century n + 48) := by
    simp (disch := omega) only [ofNat_eq, add_ofInt, mul_ofInt, div_ofInt]
    rw [Calendar.century]
    congr 1
    omega
  have hc' : ofInt (n + 1753164) - ofInt (Calendar.century n + 48) * 146097 / 4 =
      ofInt (Calendar.dayOfCentury n) := by
    simp (disch := omega) only [ofNat_eq, sub_ofInt, mul_ofInt, div_ofInt]
    rw [Calendar.dayOfCentury]
    congr 1
    omega
  have hd' : (4 * ofInt (Calendar.dayOfCentury n) + 3) / 1461 =
      ofInt (Calendar.yearOfCentury n) := by
    simp (disch := omega) only [ofNat_eq, add_ofInt, mul_ofInt, div_ofInt]
    rfl
  have he' : ofInt (Calendar.dayOfCentury n) - 1461 * ofInt (Calendar.yearOfCentury n) / 4 =
      ofInt (Calendar.dayOfYear n) := by
    simp (disch := omega) only [ofNat_eq, sub_ofInt, mul_ofInt, div_ofInt]
    rw [Calendar.dayOfYear]
    congr 1
    omega
  have hm' : (5 * ofInt (Calendar.dayOfYear n) + 2) / 153 = ofInt (Calendar.monthOfYear n) := by
    simp (disch := omega) only [ofNat_eq, add_ofInt, mul_ofInt, div_ofInt]
    rfl
  rw [getYearMonthDay, ha, hb, hc', hd', he', hm', yearMonthDayOf, Calendar.ofDayNumber]
  dsimp only
  rw [Calendar.dayOfMonth, Calendar.daysBeforeMonth]
  congr 1
  · simp (disch := omega) only [ofNat_eq, add_ofInt, sub_ofInt, mul_ofInt, div_ofInt]
    congr 1
    omega
  · simp (disch := omega) only [ofNat_eq, add_ofInt, sub_ofInt, mul_ofInt, div_ofInt]
  · simp (disch := omega) only [ofNat_eq, one_eq, add_ofInt, sub_ofInt, mul_ofInt, div_ofInt]

/-- The fields are defined, and those of the date. -/
structure YearMonthDay.Is (ymd : YearMonthDay) (d : Calendar.Date) : Prop where
  year : ymd.year.toInt? = some d.year
  month : ymd.month.toInt? = some d.month
  day : ymd.day.toInt? = some d.day

/-- The Julian day number of a date, as the constructor computes it. -/
def julianDayNumberOf (d : Calendar.Date) : CInt :=
  (Date.ofYearMonthDay d.year d.month d.day).julianDayNumber

/-- A date of the years in which nothing overflows. -/
def InRange (d : Calendar.Date) : Prop := -4799 ≤ d.year ∧ d.year ≤ 1000000

/-- `Date` numbers the dates of the calendar. No `int` overflows: the results are defined.
Days of the week are told apart up to day `last`. -/
structure CalendarBijection (last : Int) : Prop where
  date : ∀ d : Calendar.Date, InRange d →
    (Date.ofYearMonthDay d.year d.month d.day).yearMonthDay.Is d
  day : ∀ first ∈ (Date.ofYearMonthDay (ofInt (-4799)) 1 1).julianDayNumber.toInt?,
    ∀ final ∈ (Date.ofYearMonthDay 1000000 12 31).julianDayNumber.toInt?,
    ∀ j : Int, first ≤ j → j ≤ final →
      ∃ d : Calendar.Date, (Date.mk j).yearMonthDay.Is d ∧ (julianDayNumberOf d).toInt? = some j
  next : ∀ d : Calendar.Date, InRange d →
    ∃ j, (julianDayNumberOf d).toInt? = some j ∧ (julianDayNumberOf d.next).toInt? = some (j + 1)
  weekDay : ∀ j : Int, 0 ≤ j → j ≤ last →
    ∃ k, (Date.mk j).weekDay.toInt? = some k ∧ 0 ≤ k ∧ k ≤ 6 ∧
      (j + 1 ≤ last → (Date.mk (ofInt (j + 1))).weekDay.toInt? = some ((k + 1) % 7))
  thursday : (Date.ofYearMonthDay 1970 1 1).weekDay.toInt? = some 4

theorem day_le_31 (d : Calendar.Date) : d.day ≤ 31 := by
  have hday := d.day_mem.2
  rw [Calendar.daysOfMonth] at hday
  split_ifs at hday <;> omega

theorem daysBeforeYear_mono {y y' : Int} (h : y ≤ y') :
    Calendar.daysBeforeYear y ≤ Calendar.daysBeforeYear y' := by
  rw [Calendar.daysBeforeYear, Calendar.daysBeforeYear]
  omega

/-- The days of the dates in the range. -/
theorem number_bounds (d : Calendar.Date) (hy : -4799 ≤ d.year) (hy' : d.year ≤ 1000001) :
    -1753164 ≤ d.number ∧ d.number ≤ 365243500 := by
  obtain ⟨hlo, hhi⟩ := marchYear_bounds d.month hy hy'
  obtain ⟨hm0, hm, -⟩ := d.marchMonth_bounds
  have hday := d.day_mem.1
  have hday' := day_le_31 d
  have hlo' := daysBeforeYear_mono hlo
  have hhi' := daysBeforeYear_mono hhi
  have hfirst : Calendar.daysBeforeYear (-4800) = -1753164 := by decide
  have hfinal : Calendar.daysBeforeYear 1000001 = 365242865 := by decide
  rw [Calendar.Date.number, Calendar.dayNumber, Calendar.daysBeforeMonth]
  omega

theorem julianDayNumberOf_eq (d : Calendar.Date) (hy : -4799 ≤ d.year) (hy' : d.year ≤ 1000001) :
    julianDayNumberOf d = ofInt (d.number + julianDayZero) :=
  getJulianDayNumber_spec hy hy' d.month_mem.1 d.month_mem.2 d.day_mem.1 (day_le_31 d)

theorem toInt?_julianDayNumberOf (d : Calendar.Date) (hy : -4799 ≤ d.year)
    (hy' : d.year ≤ 1000001) :
    (julianDayNumberOf d).toInt? = some (d.number + julianDayZero) := by
  have hbounds := number_bounds d hy hy'
  rw [julianDayNumberOf_eq d hy hy', toInt?_ofInt (by rw [julianDayZero]; omega)]

theorem yearMonthDayOf_is (d : Calendar.Date) (h : InRange d) : (yearMonthDayOf d).Is d := by
  obtain ⟨hy, hy'⟩ := h
  obtain ⟨hm, hm'⟩ := d.month_mem
  have hday := d.day_mem.1
  have hday' := day_le_31 d
  exact ⟨toInt?_ofInt (by omega), toInt?_ofInt (by omega), toInt?_ofInt (by omega)⟩

/-- The year of a day between the first and the last date of the range. -/
theorem inRange_of_number {d : Calendar.Date} (hfirst : -31738 ≤ d.number + julianDayZero)
    (hlast : d.number + julianDayZero ≤ 366963925) : InRange d := by
  obtain ⟨hm0, hm, -, hyear⟩ := d.marchMonth_bounds
  have hday := d.day_mem.1
  have hday' := day_le_31 d
  have hnumber : d.number = Calendar.daysBeforeYear (Calendar.marchYear d.year d.month) +
      Calendar.daysBeforeMonth (Calendar.marchMonth d.month) + (d.day - 1) := rfl
  rw [Calendar.daysBeforeMonth] at hnumber
  rw [julianDayZero] at hfirst hlast
  refine ⟨?_, ?_⟩
  · by_contra hlt
    have hmono : Calendar.marchYear d.year d.month ≤ -4801 →
        Calendar.daysBeforeYear (Calendar.marchYear d.year d.month) ≤ -1753530 :=
      fun h => daysBeforeYear_mono h
    have hmono' : Calendar.marchYear d.year d.month ≤ -4800 →
        Calendar.daysBeforeYear (Calendar.marchYear d.year d.month) ≤ -1753164 :=
      fun h => daysBeforeYear_mono h
    omega
  · by_contra hlt
    have hmono : 1000001 ≤ Calendar.marchYear d.year d.month →
        365242865 ≤ Calendar.daysBeforeYear (Calendar.marchYear d.year d.month) :=
      fun h => daysBeforeYear_mono h
    have hmono' : 1000000 ≤ Calendar.marchYear d.year d.month →
        365242500 ≤ Calendar.daysBeforeYear (Calendar.marchYear d.year d.month) :=
      fun h => daysBeforeYear_mono h
    omega

theorem yearMonthDay_eq {j : Int} (hfirst : -31738 ≤ j) (hlast : j ≤ 366963925) :
    (Date.mk j).yearMonthDay = yearMonthDayOf (Calendar.ofDayNumber (j - julianDayZero)) :=
  getYearMonthDay_spec (by omega) (by rw [intMax]; omega)

theorem weekDay_eq {j : Int} (h0 : 0 ≤ j) (hlast : j ≤ intMax - 1) :
    (Date.mk j).weekDay.toInt? = some ((j + 1) % 7) := by
  rw [intMax] at hlast
  rw [Date.weekDay, Date.kDaysPerWeek]
  simp (disch := omega) only [ofNat_eq, one_eq, add_ofInt, mod_ofInt, toInt?_ofInt]

theorem first_eq :
    (Date.ofYearMonthDay (ofInt (-4799)) 1 1).julianDayNumber.toInt? = some (-31738) := by decide

theorem final_eq :
    (Date.ofYearMonthDay 1000000 12 31).julianDayNumber.toInt? = some 366963925 := by decide

/-- `Date` numbers the dates of the calendar, and tells the days of the week up to the last
day but one that is an `int`. -/
theorem calendarBijection : CalendarBijection (intMax - 1) where
  date := by
    intro d h
    obtain ⟨hlo, hhi⟩ := number_bounds d h.1 (by have := h.2; omega)
    have heq : (Date.ofYearMonthDay d.year d.month d.day).yearMonthDay =
        getYearMonthDay (ofInt (d.number + julianDayZero)) :=
      congrArg getYearMonthDay (julianDayNumberOf_eq d h.1 (by have := h.2; omega))
    rw [heq, getYearMonthDay_spec (by rw [julianDayZero]; omega)
      (by rw [julianDayZero, intMax]; omega), Int.add_sub_cancel, Calendar.ofDayNumber_number]
    exact yearMonthDayOf_is d h
  day := by
    intro first hfirst final hfinal j hlo hhi
    obtain rfl := Option.some.inj (first_eq.symm.trans hfirst)
    obtain rfl := Option.some.inj (final_eq.symm.trans hfinal)
    have hnumber := Calendar.number_ofDayNumber (j - julianDayZero)
    have hrange : InRange (Calendar.ofDayNumber (j - julianDayZero)) :=
      inRange_of_number (by omega) (by omega)
    refine ⟨Calendar.ofDayNumber (j - julianDayZero), ?_, ?_⟩
    · rw [yearMonthDay_eq hlo hhi]
      exact yearMonthDayOf_is _ hrange
    · rw [toInt?_julianDayNumberOf _ hrange.1 (by have := hrange.2; omega), hnumber,
        Int.sub_add_cancel]
  next := by
    intro d h
    obtain ⟨hy, hy'⟩ := h
    refine ⟨_, toInt?_julianDayNumberOf d hy (by omega), ?_⟩
    obtain ⟨hle, hle'⟩ := d.year_next
    rw [toInt?_julianDayNumberOf d.next (by omega) (by omega), Calendar.Date.number_next]
    congr 1
    omega
  weekDay := by
    intro j h0 hlast
    refine ⟨(j + 1) % 7, weekDay_eq h0 hlast, by omega, by omega, fun hnext => ?_⟩
    rw [weekDay_eq (by omega) hnext]
    congr 1
    omega
  thursday := by decide

/-- On the last `int` of all, `weekDay` overflows. -/
theorem calendarBijection_fails_lastInt : ¬ CalendarBijection intMax := by
  intro h
  obtain ⟨k, hk, -⟩ := h.weekDay intMax (by decide) (le_refl _)
  have hundefined : (Date.mk (ofInt intMax)).weekDay.toInt? = none := by decide
  exact Option.some_ne_none k (hk.symm.trans hundefined)

end Cnet.Base
