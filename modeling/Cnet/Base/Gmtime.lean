import Cnet.Support.Calendar

/-!
# Broken-down time

`gmtime_r` and `timegm` of the C library, on the proleptic Gregorian calendar and without
leap seconds. The fields are integers: that they fit their types is not looked at. The C
library gives up on a year that is no `int`, for which the clock would have to tell more than
2^55 seconds; where readings of the clock have no bound here, they are taken to be less.
-/

namespace Cnet.Base

open Cnet.Support

/-- `struct tm`. `tm_zone` is an offset into the abbreviations of a time zone. -/
structure Tm where
  tm_sec : Int
  tm_min : Int
  tm_hour : Int
  tm_mday : Int
  tm_mon : Int
  tm_year : Int
  tm_wday : Int
  tm_yday : Int
  tm_isdst : Int := 0
  tm_gmtoff : Int := 0
  tm_zone : Nat := 0
deriving DecidableEq, Repr

def kSecondsPerDay : Int := 86400

/-- The day of the calendar that time `0` falls on. -/
def epochDay : Int := Calendar.dayNumber 1970 1 1

def gmtime_r (t : Int) : Tm :=
  let date := Calendar.ofDayNumber (t / kSecondsPerDay + epochDay)
  let seconds := t % kSecondsPerDay
  { tm_sec := seconds % 60
    tm_min := seconds / 60 % 60
    tm_hour := seconds / 3600
    tm_mday := date.day
    tm_mon := date.month - 1
    tm_year := date.year - 1900
    -- time 0 falls on a Thursday
    tm_wday := (t / kSecondsPerDay + 4) % 7
    tm_yday := date.number - Calendar.dayNumber date.year 1 1 }

/-- `timegm` looks at the first six fields; months out of range count as years. -/
def timegm (tm : Tm) : Int :=
  let year := tm.tm_year + 1900 + tm.tm_mon / 12
  let month := tm.tm_mon % 12 + 1
  (Calendar.dayNumber year month tm.tm_mday - epochDay) * kSecondsPerDay +
    tm.tm_hour * 3600 + tm.tm_min * 60 + tm.tm_sec

theorem timegm_gmtime_r (t : Int) : timegm (gmtime_r t) = t := by
  set date := Calendar.ofDayNumber (t / kSecondsPerDay + epochDay) with hdate
  have hnumber : Calendar.dayNumber date.year date.month date.day =
      t / kSecondsPerDay + epochDay := Calendar.number_ofDayNumber _
  obtain ⟨hmonth, hmonth'⟩ := date.month_mem
  rw [timegm, gmtime_r]
  dsimp only
  rw [← hdate, Int.ediv_eq_zero_of_lt (by omega) (by omega),
    Int.emod_eq_of_lt (by omega) (by omega), Int.sub_add_cancel, Int.sub_add_cancel,
    Int.add_zero, hnumber, kSecondsPerDay]
  omega

end Cnet.Base
