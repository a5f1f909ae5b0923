import Cnet.Base.Casts
import Cnet.Base.Date
import Cnet.Base.Gmtime

/-!
# To UTC and back

`toUtcTime` splits a time by truncating division and takes a day back where the remainder
is negative; `fromUtcTime` puts the fields together again. Both go through `Date`, so they
are inverse to each other on the days whose Julian day numbers are neither negative nor too
large.

`Date::kJulianDayOf1970_01_01` has its value.
-/

namespace Cnet.Base

open Cnet.Support
open CInt

/-- A `struct tm` of `int`s; as it stands, what `bzero` leaves. -/
structure UtcTm where
  tm_sec : CInt := 0
  tm_min : CInt := 0
  tm_hour : CInt := 0
  tm_mday : CInt := 0
  tm_mon : CInt := 0
  tm_year : CInt := 0
  tm_wday : CInt := 0
  tm_yday : CInt := 0
  tm_isdst : CInt := 0
  tm_gmtoff : Int := 0
  tm_zone : Option String := none
deriving DecidableEq

def fillHMS (seconds : Nat) (utc : UtcTm) : UtcTm :=
  let minutes := seconds / 60
  { utc with
    tm_sec := ofInt (seconds % 60 : Nat)
    tm_min := ofInt (minutes % 60 : Nat)
    tm_hour := ofInt (minutes / 60 : Nat) }

namespace TimeZone

def toUtcTime (secondsSinceEpoch : Int) (yday : Bool) : UtcTm :=
  let seconds := castInt (secondsSinceEpoch.tmod kSecondsPerDay)
  let days := castInt (secondsSinceEpoch.tdiv kSecondsPerDay)
  let (seconds, days) :=
    if seconds < 0 then (seconds + kSecondsPerDay, ofInt days - 1) else (seconds, ofInt days)
  let utc := fillHMS (toUnsigned seconds) { tm_zone := some "GMT" }
  let date : Date := ⟨days + Date.kJulianDayOf1970_01_01⟩
  let ymd := date.yearMonthDay
  let utc := { utc with
    tm_year := ymd.year - 1900
    tm_mon := ymd.month - 1
    tm_mday := ymd.day
    tm_wday := date.weekDay }
  if yday then
    let startOfYear := Date.ofYearMonthDay ymd.year 1 1
    { utc with tm_yday := date.julianDayNumber - startOfYear.julianDayNumber }
  else utc

/-- `fromUtcTime` of six `int`s. -/
def fromUtcTimeFields (year month day hour minute seconds : CInt) : Option Int := do
  let date := Date.ofYearMonthDay year month day
  let secondsInDay ← (hour * 3600 + minute * 60 + seconds).toInt?
  let days ← (date.julianDayNumber - Date.kJulianDayOf1970_01_01).toInt?
  some (days * kSecondsPerDay + secondsInDay)

def fromUtcTime (utc : UtcTm) : Option Int :=
  fromUtcTimeFields (utc.tm_year + 1900) (utc.tm_mon + 1) utc.tm_mday utc.tm_hour utc.tm_min
    utc.tm_sec

end TimeZone

/-- The date that a time falls on. -/
def dateOf (t : Int) : Calendar.Date := Calendar.ofDayNumber (t / kSecondsPerDay + epochDay)

/-- Days are counted in sevens from the epoch, a Thursday; `0` is Sunday. -/
def weekdayOf (d : Calendar.Date) : Int := (d.number - epochDay + 4) % 7

/-- The days since the first of January. -/
def dayOfYearOf (d : Calendar.Date) : Int := d.number - Calendar.dayNumber d.year 1 1

/-- A date of the years in question. -/
def InYears (d : Calendar.Date) : Prop := -4700 ≤ d.year ∧ d.year ≤ 1000000

/-- A time of day. -/
@[ext] structure TimeOfDay where
  hour : Int
  minute : Int
  second : Int
  hour_mem : 0 ≤ hour ∧ hour ≤ 23
  minute_mem : 0 ≤ minute ∧ minute ≤ 59
  second_mem : 0 ≤ second ∧ second ≤ 59

/-- The first six fields are defined, and those of the date and the time of day. -/
structure UtcTm.Is (utc : UtcTm) (d : Calendar.Date) (c : TimeOfDay) : Prop where
  year : utc.tm_year.toInt? = some (d.year - 1900)
  month : utc.tm_mon.toInt? = some (d.month - 1)
  day : utc.tm_mday.toInt? = some d.day
  hour : utc.tm_hour.toInt? = some c.hour
  minute : utc.tm_min.toInt? = some c.minute
  second : utc.tm_sec.toInt? = some c.second

/-- The time of day of a time. -/
def TimeOfDay.of (t : Int) : TimeOfDay where
  hour := t % kSecondsPerDay / 3600
  minute := t % kSecondsPerDay / 60 % 60
  second := t % kSecondsPerDay % 60
  hour_mem := by
    unfold kSecondsPerDay
    omega
  minute_mem := by omega
  second_mem := by omega

namespace TimeOfDay

/-- The seconds since midnight. -/
def seconds (c : TimeOfDay) : Int := c.hour * 3600 + c.minute * 60 + c.second

theorem seconds_of (t : Int) : (of t).seconds = t % kSecondsPerDay := by
  show t % 86400 / 3600 * 3600 + t % 86400 / 60 % 60 * 60 + t % 86400 % 60 = t % 86400
  omega

theorem seconds_bounds (c : TimeOfDay) : 0 ≤ c.seconds ∧ c.seconds < kSecondsPerDay := by
  obtain ⟨hour, minute, second, hhour, hminute, hsecond⟩ := c
  rw [seconds, kSecondsPerDay]
  dsimp only
  omega

/-- The seconds since midnight tell the time of day. -/
theorem of_eq {t : Int} (c : TimeOfDay) (h : t % kSecondsPerDay = c.seconds) : of t = c := by
  obtain ⟨hour, minute, second, hhour, hminute, hsecond⟩ := c
  rw [kSecondsPerDay, seconds] at h
  dsimp only at h
  apply TimeOfDay.ext
  · show t % 86400 / 3600 = hour
    omega
  · show t % 86400 / 60 % 60 = minute
    omega
  · show t % 86400 % 60 = second
    omega

end TimeOfDay

/-- With the day taken back, truncating division comes to division that rounds down. -/
theorem corrected_eq {t : Int} (hlo : -1000000000 ≤ t / kSecondsPerDay)
    (hhi : t / kSecondsPerDay ≤ 1000000000) :
    (if castInt (t.tmod kSecondsPerDay) < 0 then
        (castInt (t.tmod kSecondsPerDay) + kSecondsPerDay,
          ofInt (castInt (t.tdiv kSecondsPerDay)) - 1)
      else (castInt (t.tmod kSecondsPerDay), ofInt (castInt (t.tdiv kSecondsPerDay)))) =
      (t % kSecondsPerDay, ofInt (t / kSecondsPerDay)) := by
  rw [kSecondsPerDay] at *
  by_cases ht : 0 ≤ t
  · rw [Int.tmod_eq_emod_of_nonneg ht, Int.tdiv_eq_ediv_of_nonneg ht, castInt_eq (by omega),
      castInt_eq (by omega), if_neg (by omega)]
  · -- the remainder has the sign of the time
    have hneg : t.tdiv 86400 = -(-t / 86400) := by
      rw [← Int.tdiv_eq_ediv_of_nonneg (by omega), Int.neg_tdiv, Int.neg_neg]
    have hneg' : t.tmod 86400 = -(-t % 86400) := by
      rw [← Int.tmod_eq_emod_of_nonneg (by omega), Int.neg_tmod, Int.neg_neg]
    rw [hneg, hneg', castInt_eq (by omega), castInt_eq (by omega)]
    by_cases hzero : -t % 86400 = 0
    · rw [if_neg (by omega), Prod.mk.injEq]
      refine ⟨by omega, congrArg ofInt ?_⟩
      omega
    · rw [if_pos (by omega), one_eq, sub_ofInt (by omega) (by omega), Prod.mk.injEq]
      refine ⟨by omega, congrArg ofInt ?_⟩
      omega

/-- The Julian day numbers of the years in question are not negative. -/
theorem number_nonneg {d : Calendar.Date} (hy : -4700 ≤ d.year) :
    0 ≤ d.number + julianDayZero := by
  obtain ⟨hm0, hm, -, hyear⟩ := d.marchMonth_bounds
  have hday := d.day_mem.1
  have hmarch : -4701 ≤ Calendar.marchYear d.year d.month := by
    rw [Calendar.marchYear]
    split_ifs <;> omega
  have hmono := daysBeforeYear_mono hmarch
  have hfirst : Calendar.daysBeforeYear (-4701) = -1717005 := by decide
  rw [Calendar.Date.number, Calendar.dayNumber, Calendar.daysBeforeMonth, julianDayZero]
  omega

theorem number_dateOf (t : Int) : (dateOf t).number = t / kSecondsPerDay + epochDay :=
  Calendar.number_ofDayNumber _

theorem epochDay_eq : epochDay = 719468 := by decide

theorem kJulianDay_eq : Date.kJulianDayOf1970_01_01 = ofInt 2440588 := by decide

theorem fillHMS_eq (t : Int) (utc : UtcTm) :
    fillHMS (toUnsigned (t % kSecondsPerDay)) utc =
      { utc with
        tm_sec := ofInt (TimeOfDay.of t).second
        tm_min := ofInt (TimeOfDay.of t).minute
        tm_hour := ofInt (TimeOfDay.of t).hour } := by
  have hvalue : ((toUnsigned (t % 86400) : Nat) : Int) = t % 86400 := by
    rw [toUnsigned]
    omega
  show fillHMS (toUnsigned (t % 86400)) utc = { utc with
    tm_sec := ofInt (t % 86400 % 60)
    tm_min := ofInt (t % 86400 / 60 % 60)
    tm_hour := ofInt (t % 86400 / 3600) }
  rw [fillHMS]
  generalize toUnsigned (t % 86400) = seconds at hvalue
  rw [← hvalue]
  congr 2
  omega

theorem january_mem : (1 : Int) ≤ 1 ∧ (1 : Int) ≤ 12 := ⟨Int.le_refl 1, by decide⟩

theorem first_mem (year : Int) : (1 : Int) ≤ 1 ∧ (1 : Int) ≤ Calendar.daysOfMonth year 1 :=
  ⟨Int.le_refl 1, Calendar.daysOfMonth_pos year 1⟩

/-- The first of January of a date's year. -/
def startOfYear (d : Calendar.Date) : Calendar.Date where
  year := d.year
  month := 1
  day := 1
  month_mem := january_mem
  day_mem := first_mem d.year

theorem startOfYear_eq {d : Calendar.Date} (h : InYears d) :
    (Date.ofYearMonthDay (ofInt d.year) 1 1).julianDayNumber =
      ofInt ((startOfYear d).number + julianDayZero) :=
  julianDayNumberOf_eq (startOfYear d) (by have := h.1; show -4799 ≤ d.year; omega)
    (by have := h.2; show d.year ≤ 1000001; omega)

theorem yearMonthDay_of_number {d : Calendar.Date} (hlo : -1753164 ≤ d.number)
    (hhi : d.number ≤ 365243500) :
    (Date.mk (ofInt (d.number + julianDayZero))).yearMonthDay = yearMonthDayOf d := by
  have hspec := getYearMonthDay_spec (j := d.number + julianDayZero)
    (by rw [julianDayZero]; omega) (by rw [julianDayZero, intMax]; omega)
  rw [Int.add_sub_cancel, Calendar.ofDayNumber_number] at hspec
  exact hspec

theorem weekDay_of_number {d : Calendar.Date} (hlo : 0 ≤ d.number + julianDayZero)
    (hhi : d.number ≤ 365243500) :
    (Date.mk (ofInt (d.number + julianDayZero))).weekDay = ofInt (weekdayOf d) := by
  rw [weekdayOf, epochDay_eq]
  rw [julianDayZero] at *
  rw [Date.weekDay, Date.kDaysPerWeek]
  simp (disch := omega) only [ofNat_eq, one_eq, add_ofInt, mod_ofInt]
  congr 1
  omega

/-- What `toUtcTime` computes, in the years in question. -/
theorem toUtcTime_eq {t : Int} (h : InYears (dateOf t)) :
    TimeZone.toUtcTime t true =
      { tm_sec := ofInt (TimeOfDay.of t).second
        tm_min := ofInt (TimeOfDay.of t).minute
        tm_hour := ofInt (TimeOfDay.of t).hour
        tm_mday := ofInt (dateOf t).day
        tm_mon := ofInt ((dateOf t).month - 1)
        tm_year := ofInt ((dateOf t).year - 1900)
        tm_wday := ofInt (weekdayOf (dateOf t))
        tm_yday := ofInt (dayOfYearOf (dateOf t))
        tm_zone := some "GMT" } := by
  obtain ⟨hy, hy'⟩ := h
  obtain ⟨hlo, hhi⟩ := number_bounds (dateOf t) (by omega) (by omega)
  obtain ⟨hlo', hhi'⟩ := number_bounds (startOfYear (dateOf t))
    (by show -4799 ≤ (dateOf t).year; omega) (by show (dateOf t).year ≤ 1000001; omega)
  obtain ⟨hmonth, hmonth'⟩ := (dateOf t).month_mem
  have hnonneg := number_nonneg hy
  have hnumber := number_dateOf t
  have hzero : julianDayZero = 1721120 := rfl
  rw [epochDay_eq] at hnumber
  have hday : ofInt (t / kSecondsPerDay) + Date.kJulianDayOf1970_01_01 =
      ofInt ((dateOf t).number + julianDayZero) := by
    rw [kJulianDay_eq, add_ofInt (by omega) (by omega)]
    congr 1
    omega
  have hyday : ofInt ((dateOf t).number + julianDayZero) -
      ofInt ((startOfYear (dateOf t)).number + julianDayZero) =
        ofInt (dayOfYearOf (dateOf t)) := by
    rw [sub_ofInt (by omega) (by omega)]
    congr 1
    rw [dayOfYearOf]
    show _ = (dateOf t).number - (startOfYear (dateOf t)).number
    omega
  have hyear : ofInt (dateOf t).year - 1900 = ofInt ((dateOf t).year - 1900) := by
    rw [ofNat_eq, sub_ofInt (by omega) (by decide)]
  have hmon : ofInt (dateOf t).month - 1 = ofInt ((dateOf t).month - 1) := by
    rw [one_eq, sub_ofInt (by omega) (by decide)]
  rw [TimeZone.toUtcTime, corrected_eq (by omega) (by omega)]
  dsimp only
  rw [fillHMS_eq, hday, yearMonthDay_of_number hlo hhi, weekDay_of_number hnonneg hhi, if_pos rfl,
    yearMonthDayOf]
  dsimp only
  rw [startOfYear_eq ⟨hy, hy'⟩, hyear, hmon, Date.julianDayNumber, hyday]

theorem toUtcTime_false (t : Int) :
    TimeZone.toUtcTime t false = { TimeZone.toUtcTime t true with tm_yday := 0 } := rfl

/-- The first six fields do not depend on `yday`. -/
theorem toUtcTime_is {t : Int} (h : InYears (dateOf t)) (yday : Bool) :
    (TimeZone.toUtcTime t yday).Is (dateOf t) (TimeOfDay.of t) := by
  obtain ⟨hmonth, hmonth'⟩ := (dateOf t).month_mem
  have hday := (dateOf t).day_mem.1
  have hday' := day_le_31 (dateOf t)
  obtain ⟨hour, hour'⟩ := (TimeOfDay.of t).hour_mem
  obtain ⟨hminute, hminute'⟩ := (TimeOfDay.of t).minute_mem
  obtain ⟨hsecond, hsecond'⟩ := (TimeOfDay.of t).second_mem
  obtain ⟨hy, hy'⟩ := h
  have his : (TimeZone.toUtcTime t true).Is (dateOf t) (TimeOfDay.of t) := by
    rw [toUtcTime_eq ⟨hy, hy'⟩]
    exact
      { year := toInt?_ofInt (by omega)
        month := toInt?_ofInt (by omega)
        day := toInt?_ofInt (by omega)
        hour := toInt?_ofInt (by omega)
        minute := toInt?_ofInt (by omega)
        second := toInt?_ofInt (by omega) }
  cases yday with
  | true => exact his
  | false =>
    rw [toUtcTime_false]
    exact ⟨his.year, his.month, his.day, his.hour, his.minute, his.second⟩

/-- The time of a date and a time of day. -/
def timeOf (d : Calendar.Date) (c : TimeOfDay) : Int :=
  (d.number - epochDay) * kSecondsPerDay + c.seconds

theorem timeOf_dateOf (t : Int) : timeOf (dateOf t) (TimeOfDay.of t) = t := by
  rw [timeOf, number_dateOf, Int.add_sub_cancel, TimeOfDay.seconds_of]
  exact Int.ediv_mul_add_emod t kSecondsPerDay

theorem dateOf_timeOf (d : Calendar.Date) (c : TimeOfDay) : dateOf (timeOf d c) = d := by
  obtain ⟨hlo, hhi⟩ := c.seconds_bounds
  have hdays : timeOf d c / kSecondsPerDay = d.number - epochDay := by
    rw [timeOf, kSecondsPerDay] at *
    omega
  rw [dateOf, hdays, Int.sub_add_cancel, Calendar.ofDayNumber_number]

theorem timeOfDay_timeOf (d : Calendar.Date) (c : TimeOfDay) : TimeOfDay.of (timeOf d c) = c := by
  obtain ⟨hlo, hhi⟩ := c.seconds_bounds
  apply TimeOfDay.of_eq
  rw [timeOf, kSecondsPerDay] at *
  omega

/-- No `int` overflows in `fromUtcTime` either. -/
theorem fromUtcTimeFields_eq {d : Calendar.Date} (h : InYears d) (c : TimeOfDay) :
    TimeZone.fromUtcTimeFields d.year d.month d.day c.hour c.minute c.second =
      some (timeOf d c) := by
  obtain ⟨hy, hy'⟩ := h
  obtain ⟨hlo, hhi⟩ := number_bounds d (by omega) (by omega)
  have hzero : julianDayZero = 1721120 := rfl
  have hepoch := epochDay_eq
  have hdate : (Date.ofYearMonthDay d.year d.month d.day).julianDayNumber =
      ofInt (d.number + julianDayZero) := julianDayNumberOf_eq d (by omega) (by omega)
  have hdays : (ofInt (d.number + julianDayZero) - Date.kJulianDayOf1970_01_01).toInt? =
      some (d.number - epochDay) := by
    rw [kJulianDay_eq, sub_ofInt (by omega) (by omega), toInt?_ofInt (by omega)]
    congr 1
    omega
  have hseconds : (ofInt c.hour * 3600 + ofInt c.minute * 60 + ofInt c.second).toInt? =
      some c.seconds := by
    obtain ⟨hour, minute, second, hhour, hminute, hsecond⟩ := c
    simp (disch := omega) only [ofNat_eq, add_ofInt, mul_ofInt, toInt?_ofInt]
    rfl
  rw [TimeZone.fromUtcTimeFields, hdate, hdays, hseconds]
  rfl

theorem eq_ofInt {x : CInt} {a : Int} (h : x.toInt? = some a) (ha : FitsInt a) : x = ofInt a := by
  obtain ⟨value⟩ := x
  rw [ofInt, if_pos ha, ← h]

theorem fromUtcTime_eq {utc : UtcTm} {d : Calendar.Date} {c : TimeOfDay} (h : InYears d)
    (his : utc.Is d c) : TimeZone.fromUtcTime utc = some (timeOf d c) := by
  obtain ⟨hy, hy'⟩ := h
  obtain ⟨hmonth, hmonth'⟩ := d.month_mem
  have hday := d.day_mem.1
  have hday' := day_le_31 d
  obtain ⟨hour, hour'⟩ := c.hour_mem
  obtain ⟨hminute, hminute'⟩ := c.minute_mem
  obtain ⟨hsecond, hsecond'⟩ := c.second_mem
  rw [TimeZone.fromUtcTime, eq_ofInt his.year (by omega), eq_ofInt his.month (by omega),
    eq_ofInt his.day (by omega), eq_ofInt his.hour (by omega), eq_ofInt his.minute (by omega),
    eq_ofInt his.second (by omega), ofNat_eq, one_eq, add_ofInt (by omega) (by omega),
    add_ofInt (by omega) (by omega), Int.sub_add_cancel, Int.sub_add_cancel]
  exact fromUtcTimeFields_eq ⟨hy, hy'⟩ c

/-- The two conversions are inverse to each other. No `int` overflows. -/
structure UtcRoundTrip : Prop where
  fields : ∀ t : Int, InYears (dateOf t) →
    ∃ c : TimeOfDay, (TimeZone.toUtcTime t true).Is (dateOf t) c
  yday : ∀ t : Int, InYears (dateOf t) →
    (TimeZone.toUtcTime t true).tm_yday.toInt? = some (dayOfYearOf (dateOf t))
  wday : ∀ t : Int, InYears (dateOf t) →
    (TimeZone.toUtcTime t true).tm_wday.toInt? = some (weekdayOf (dateOf t)) ∧
      0 ≤ weekdayOf (dateOf t) ∧ weekdayOf (dateOf t) ≤ 6
  time : ∀ t : Int, InYears (dateOf t) →
    TimeZone.fromUtcTime (TimeZone.toUtcTime t true) = some t
  back : ∀ (d : Calendar.Date) (c : TimeOfDay), InYears d →
    ∃ t, TimeZone.fromUtcTimeFields d.year d.month d.day c.hour c.minute c.second = some t ∧
      (∀ utc : UtcTm, utc.Is d c → TimeZone.fromUtcTime utc = some t) ∧
      ∀ yday, (TimeZone.toUtcTime t yday).Is d c

theorem dayOfYear_bounds {d : Calendar.Date} (h : InYears d) :
    FitsInt (dayOfYearOf d) := by
  obtain ⟨hy, hy'⟩ := h
  obtain ⟨hlo, hhi⟩ := number_bounds d (by omega) (by omega)
  obtain ⟨hlo', hhi'⟩ := number_bounds (startOfYear d) (by show -4799 ≤ d.year; omega)
    (by show d.year ≤ 1000001; omega)
  show FitsInt (d.number - (startOfYear d).number)
  omega

theorem utcRoundTrip : UtcRoundTrip where
  fields t h := ⟨TimeOfDay.of t, toUtcTime_is h true⟩
  yday t h := by
    rw [toUtcTime_eq h]
    exact toInt?_ofInt (dayOfYear_bounds h)
  wday t h := by
    have hbounds : 0 ≤ weekdayOf (dateOf t) ∧ weekdayOf (dateOf t) ≤ 6 := by
      rw [weekdayOf]
      omega
    rw [toUtcTime_eq h]
    exact ⟨toInt?_ofInt (by omega), hbounds⟩
  time t h := by
    rw [fromUtcTime_eq h (toUtcTime_is h true), timeOf_dateOf]
  back d c h := by
    refine ⟨timeOf d c, fromUtcTimeFields_eq h c, fun utc his => fromUtcTime_eq h his, ?_⟩
    intro yday
    have his := toUtcTime_is (t := timeOf d c) (by rw [dateOf_timeOf]; exact h) yday
    rw [dateOf_timeOf, timeOfDay_timeOf] at his
    exact his

example : TimeZone.fromUtcTime (TimeZone.toUtcTime (-1) true) = some (-1) := by decide

end Cnet.Base
