import Cnet.Support.LowerBound
import Cnet.Support.Memory
import Cnet.Base.Gmtime

/-!
# Time zones

`Data` is a table of transitions and local time types. The conversions index it without
checks; here an index out of range, an assert that fails and a null pointer have no result.

A transition carries the time at which it happens, also as the local time that it begins.
-/

namespace Cnet.Base

open Cnet.Support

structure Transition where
  gmttime : Int
  localtime : Int
  localtimeIdx : Nat
deriving DecidableEq, Repr

structure Comp where
  compareGmt : Bool
deriving DecidableEq, Repr

namespace Comp

def less (comp : Comp) (lhs rhs : Transition) : Bool :=
  if comp.compareGmt then lhs.gmttime < rhs.gmttime else lhs.localtime < rhs.localtime

def equal (comp : Comp) (lhs rhs : Transition) : Bool :=
  if comp.compareGmt then lhs.gmttime = rhs.gmttime else lhs.localtime = rhs.localtime

end Comp

structure Localtime where
  gmtOffset : Int
  isDst : Bool
  arrbIdx : Nat
deriving DecidableEq, Repr

/-- `TimeZone::Data`, its unused `names` excepted. -/
structure Data where
  transitiions : List Transition := []
  localtimes : List Localtime := []
  abbreviation : List UInt8 := []
deriving DecidableEq, Repr

namespace Data

def findLocaltime (data : Data) (sentry : Transition) (comp : Comp) : Option Localtime :=
  match data.transitiions with
  | [] => data.localtimes.head?
  | front :: _ =>
    if comp.less sentry front then data.localtimes.head?
    else do
      let transI ← lowerBound data.transitiions fun x => comp.less x sentry
      match data.transitiions[transI]? with
      | some x =>
        if comp.equal sentry x then data.localtimes[x.localtimeIdx]?
        else do
          assert (transI ≠ 0)
          let x ← data.transitiions[transI - 1]?
          data.localtimes[x.localtimeIdx]?
      | none => do
        let x ← data.transitiions.getLast?
        data.localtimes[x.localtimeIdx]?

/-- `toLocalTime`. The place at the end of `abbreviation` may be pointed to. -/
def toLocalTime (data : Data) (secondsSinceEpoch : Int) : Option Tm := do
  let localtime ← data.findLocaltime ⟨secondsSinceEpoch, 0, 0⟩ ⟨true⟩
  assert (localtime.arrbIdx ≤ data.abbreviation.length)
  some { gmtime_r (secondsSinceEpoch + localtime.gmtOffset) with
    tm_isdst := if localtime.isDst then 1 else 0
    tm_gmtoff := localtime.gmtOffset
    tm_zone := localtime.arrbIdx }

def fromLocalTime (data : Data) (localTm : Tm) : Option Int := do
  let seconds := timegm localTm
  let localtime ← data.findLocaltime ⟨0, seconds, 0⟩ ⟨false⟩
  if localTm.tm_isdst ≠ 0 then
    let tryTm ← data.toLocalTime (seconds - localtime.gmtOffset)
    if tryTm.tm_isdst = 0 ∧ tryTm.tm_hour = localTm.tm_hour ∧ tryTm.tm_min = localTm.tm_min then
      some (seconds - 3600 - localtime.gmtOffset)
    else some (seconds - localtime.gmtOffset)
  else some (seconds - localtime.gmtOffset)

end Data

/-- A time zone; `none` is a null `data_`. -/
structure TimeZone where
  data_ : Option Data
deriving DecidableEq

namespace TimeZone

def valid (tz : TimeZone) : Bool := tz.data_.isSome

def toLocalTime (tz : TimeZone) (secondsSinceEpoch : Int) : Option Tm :=
  tz.data_.bind fun data => data.toLocalTime secondsSinceEpoch

def fromLocalTime (tz : TimeZone) (localTm : Tm) : Option Int :=
  tz.data_.bind fun data => data.fromLocalTime localTm

/-- `TimeZone(int, const char*)`: one type, at all times. -/
def fixed (eastOfUtc : Int) (name : List UInt8) : TimeZone :=
  ⟨some { localtimes := [⟨eastOfUtc, false, 0⟩], abbreviation := name }⟩

end TimeZone

end Cnet.Base
