import Cnet.Support.Runs
import Cnet.Base.LogRecord

/-!
# The time of a record

The text of a second is kept from one record of a thread to the next, and formatted again
when the second is another one. The time zone may change in between; the text is not
formatted again for that.
-/

namespace Cnet.Base

open Cnet.Support
open Logger

/-- A time of a record, from the epoch up to the end of year 9999. -/
structure RecordTime where
  microSecondsSinceEpoch : Int
  nonneg : 0 ≤ microSecondsSinceEpoch
  upTo9999 : microSecondsSinceEpoch < 253402300800 * kMicroSecondsPerSecond
deriving DecidableEq

namespace RecordTime

def seconds (time_ : RecordTime) : Int :=
  time_.microSecondsSinceEpoch.tdiv kMicroSecondsPerSecond

def microseconds (time_ : RecordTime) : Int :=
  time_.microSecondsSinceEpoch.tmod kMicroSecondsPerSecond

end RecordTime

/-- One thread that logs. `shown` is the zone that was in force when `t_time` was written. -/
structure LogClock where
  g_logTimeZone : TimeZone
  thread : LogThread
  shown : Option TimeZone

/-- A record, whose stream has an array with anything in it, or `Logger::setTimeZone`. -/
inductive ClockStep where
  | record (time_ : RecordTime) (data_ : SmallArray)
  | setTimeZone (tz : TimeZone)

/-- The text of a second in a time zone, which is UTC where the zone is not valid. -/
def localText (zone : TimeZone) (seconds : Int) : Option (List UInt8) :=
  (if zone.valid then zone.toLocalTime seconds else some (gmtime_r seconds)).map timeText

namespace LogClock

def format (s : LogClock) (time_ : RecordTime) (data_ : SmallArray) :
    Option (LogThread × LogStream) :=
  formatTime s.g_logTimeZone time_.microSecondsSinceEpoch s.thread (.new data_)

def step (s : LogClock) : ClockStep → Option LogClock
  | .record time_ data_ => (s.format time_ data_).map fun (t, _) =>
      { s with
        thread := t
        shown := if time_.seconds ≠ s.thread.t_lastSecond then some s.g_logTimeZone else s.shown }
  | .setTimeZone tz => some { s with g_logTimeZone := tz }

/-- The record begins with the text of its own time in the zone in force. -/
def Agrees (s : LogClock) : ClockStep → Prop
  | .record time_ data_ => ∃ text r, localText s.g_logTimeZone time_.seconds = some text ∧
      s.format time_ data_ = some r ∧
        r.2.content = text ++ microsecondsText s.g_logTimeZone time_.microseconds
  | .setTimeZone _ => True

/-- The year has four digits in the zone in force; and either the second is not that of the
text kept, or the zone that the text was written in shows this second in the same way. -/
def Current (s : LogClock) : ClockStep → Prop
  | .record time_ _ =>
    (∃ text, localText s.g_logTimeZone time_.seconds = some text ∧ text.length = 17) ∧
      (time_.seconds ≠ s.thread.t_lastSecond ∨ ∃ zone, s.shown = some zone ∧
        localText zone time_.seconds = localText s.g_logTimeZone time_.seconds)
  | .setTimeZone _ => True

/-- `t_time` is the text of `t_lastSecond`, or nothing has been written there. -/
def Kept (s : LogClock) : Prop :=
  match s.shown with
  | none => s.thread.t_time = []
  | some zone => localText zone s.thread.t_lastSecond = some s.thread.t_time

/-- The state of a thread that has not logged yet. -/
def start (tz : TimeZone) (tid : Int32) : LogClock where
  g_logTimeZone := tz
  thread := ⟨[], 0, tid⟩
  shown := none

end LogClock

/-! ## The text of a record -/

section Text

variable {zone : TimeZone} {seconds : Int} {t t' : LogThread}

theorem updateTime_same (h : seconds = t.t_lastSecond) : updateTime zone seconds t = some t := by
  rw [updateTime, if_neg (not_not.mpr h)]

theorem updateTime_new (h : seconds ≠ t.t_lastSecond) :
    updateTime zone seconds t = some t' ↔ ∃ text, localText zone seconds = some text ∧
      text.length = 17 ∧ t' = { t with t_time := text, t_lastSecond := seconds } := by
  have hupdate : updateTime zone seconds t = (localText zone seconds).bind fun text =>
      (assert (text.length = 17)).bind fun _ =>
        some { t with t_time := text, t_lastSecond := seconds } := by
    rw [updateTime, if_pos h, localText, Option.bind_map]
    cases zone.valid <;> rfl
  rw [hupdate]
  constructor
  · intro hsome
    obtain ⟨text, htext, hsome⟩ := Option.bind_eq_some_iff.mp hsome
    obtain ⟨hlen, hsome⟩ := bind_assert.mp hsome
    exact ⟨text, htext, hlen, (Option.some.inj hsome).symm⟩
  · rintro ⟨text, htext, hlen, rfl⟩
    exact Option.bind_eq_some_iff.mpr ⟨text, htext, bind_assert.mpr ⟨hlen, rfl⟩⟩

theorem length_microsecondsText (zone : TimeZone) {microseconds : Int} (h0 : 0 ≤ microseconds)
    (h : microseconds < 1000000) :
    (microsecondsText zone microseconds).length = if zone.valid then 8 else 9 := by
  have hlen : (zeroPadded 6 microseconds).length = 6 := length_zeroPadded (by decide) h0 h
  have hdot : (chars ".").length = 1 := rfl
  rw [microsecondsText, List.length_append, List.length_append, hlen, hdot]
  cases zone.valid <;> rfl

theorem insertT_room {s : LogStream} (h : s.Inside) (str : List UInt8)
    (hroom : str.length < kSmallBuffer - s.buffer_.cur_) :
    ∃ s', insertT s str str.length = some s' ∧ s'.Inside ∧ s'.content = s.content ++ str := by
  obtain ⟨s', happend, hinside, hcontent, -⟩ := LogStream.append_puts h str
  exact ⟨s', bind_assert.mpr ⟨rfl, happend⟩, hinside, hcontent hroom⟩

end Text

namespace LogClock

variable {s : LogClock} {time_ : RecordTime} {data_ : SmallArray} {t : LogThread}

theorem microseconds_mem (time_ : RecordTime) :
    0 ≤ time_.microseconds ∧ time_.microseconds < 1000000 :=
  ⟨Int.tmod_nonneg _ time_.nonneg, Int.tmod_lt_of_pos _ (by decide)⟩

/-- A record begins with what is kept of its second, where that is as long as it should be. -/
theorem format_of_updateTime (data_ : SmallArray)
    (hupdate : updateTime s.g_logTimeZone time_.seconds s.thread = some t)
    (hlen : t.t_time.length = 17) :
    ∃ s', s.format time_ data_ = some (t, s') ∧
      s'.content = t.t_time ++ microsecondsText s.g_logTimeZone time_.microseconds := by
  have hnew : (LogStream.new data_).Inside := show 0 < kSmallBuffer by decide
  have hempty : (LogStream.new data_).content = [] := rfl
  obtain ⟨h0, h1⟩ := microseconds_mem time_
  have hmicro := length_microsecondsText s.g_logTimeZone h0 h1
  obtain ⟨s₁, hs₁, hinside, hcontent⟩ := insertT_room hnew t.t_time
    (by rw [hlen]; show 17 < kSmallBuffer - 0; decide)
  have hcur : s₁.buffer_.cur_ = 17 := by
    rw [← LogStream.length_content hinside, hcontent, hempty, List.nil_append, hlen]
  obtain ⟨s₂, hs₂, -, hcontent₂⟩ := insertT_room hinside
    (microsecondsText s.g_logTimeZone time_.microseconds) (by
      rw [hcur, hmicro, kSmallBuffer]
      split <;> omega)
  rw [hlen] at hs₁
  rw [hmicro] at hs₂
  refine ⟨s₂, ?_, ?_⟩
  · exact Option.bind_eq_some_iff.mpr ⟨t, hupdate, Option.bind_eq_some_iff.mpr ⟨s₁, hs₁,
      Option.bind_eq_some_iff.mpr ⟨s₂, hs₂, rfl⟩⟩⟩
  · rw [hcontent₂, hcontent, hempty, List.nil_append]

theorem updateTime_of_format {s' : LogStream} (h : s.format time_ data_ = some (t, s')) :
    updateTime s.g_logTimeZone time_.seconds s.thread = some t ∧ t.t_time.length = 17 := by
  obtain ⟨t', hupdate, h⟩ := Option.bind_eq_some_iff.mp h
  obtain ⟨s₁, hs₁, h⟩ := Option.bind_eq_some_iff.mp h
  obtain ⟨s₂, -, h⟩ := Option.bind_eq_some_iff.mp h
  obtain ⟨rfl, -⟩ := Prod.mk.inj (Option.some.inj h)
  exact ⟨hupdate, (bind_assert.mp hs₁).1⟩

theorem kept_start (tz : TimeZone) (tid : Int32) : (start tz tid).Kept := rfl

/-- Every step keeps the text in step with its second. -/
theorem kept_step {a : ClockStep} {s' : LogClock} (h : s.Kept) (hs : s.step a = some s') :
    s'.Kept := by
  cases a with
  | setTimeZone tz =>
    obtain rfl := Option.some.inj hs
    exact h
  | record time_ data_ =>
    obtain ⟨⟨t, stream_⟩, hformat, rfl⟩ := Option.map_eq_some_iff.mp hs
    obtain ⟨hupdate, -⟩ := updateTime_of_format hformat
    by_cases hsame : time_.seconds = s.thread.t_lastSecond
    · rw [updateTime_same hsame] at hupdate
      obtain rfl := Option.some.inj hupdate
      rw [Kept]
      dsimp only
      rw [if_neg (not_not.mpr hsame)]
      exact h
    · obtain ⟨text, htext, -, rfl⟩ := (updateTime_new hsame).mp hupdate
      rw [Kept]
      dsimp only
      rw [if_pos hsame]
      exact htext

/-- Of a second that is kept, the text is that of the zone it was written in. -/
theorem kept_text (h : s.Kept) {zone : TimeZone} (hshown : s.shown = some zone) :
    localText zone s.thread.t_lastSecond = some s.thread.t_time := by
  rwa [Kept, hshown] at h

theorem agrees_iff (h : s.Kept) (a : ClockStep) : s.Agrees a ↔ s.Current a := by
  cases a with
  | setTimeZone tz => exact Iff.rfl
  | record time_ data_ =>
    constructor
    · rintro ⟨text, ⟨t, stream_⟩, htext, hformat, hcontent⟩
      obtain ⟨hupdate, hlen⟩ := updateTime_of_format hformat
      obtain ⟨s', hformat', hcontent'⟩ := format_of_updateTime data_ hupdate hlen
      obtain ⟨-, rfl⟩ := Prod.mk.inj (Option.some.inj (hformat'.symm.trans hformat))
      have hkept : t.t_time = text := List.append_cancel_right (hcontent'.symm.trans hcontent)
      refine ⟨⟨text, htext, hkept ▸ hlen⟩, ?_⟩
      by_cases hsame : time_.seconds = s.thread.t_lastSecond
      · rw [updateTime_same hsame] at hupdate
        obtain rfl := Option.some.inj hupdate
        cases hshown : s.shown with
        | none =>
          rw [Kept, hshown] at h
          rw [h] at hlen
          exact absurd hlen (by decide)
        | some zone =>
          refine .inr ⟨zone, rfl, ?_⟩
          rw [htext, hsame, kept_text h hshown, hkept]
      · exact .inl hsame
    · rintro ⟨⟨text, htext, hlen⟩, hcurrent⟩
      by_cases hsame : time_.seconds = s.thread.t_lastSecond
      · obtain ⟨zone, hshown, hzone⟩ := hcurrent.resolve_left (not_not.mpr hsame)
        have hkept : s.thread.t_time = text := by
          rw [htext, hsame, kept_text h hshown] at hzone
          exact Option.some.inj hzone
        obtain ⟨s', hformat, hcontent⟩ := format_of_updateTime data_
          (updateTime_same hsame) (hkept ▸ hlen)
        exact ⟨text, _, htext, hformat, hkept ▸ hcontent⟩
      · obtain ⟨s', hformat, hcontent⟩ := format_of_updateTime data_
          ((updateTime_new hsame).mpr ⟨text, htext, hlen, rfl⟩) hlen
        exact ⟨text, _, htext, hformat, hcontent⟩

/-- In a run of a thread that starts to log, every record has its own time exactly if each
is made when what is kept is current. -/
theorem time_agrees_iff (tz : TimeZone) (tid : Int32) (steps : List ClockStep) :
    StepsMeet step Agrees (start tz tid) steps ↔ StepsMeet step Current (start tz tid) steps :=
  stepsMeet_iff step (fun _ a hs => agrees_iff hs a) (fun _ _ _ hs hstep => kept_step hs hstep)
    (kept_start tz tid) steps

/-- One second after the epoch, and a microsecond later. -/
def oneSecond : RecordTime := ⟨1000000, by decide, by decide⟩

def oneSecondLater : RecordTime := ⟨1000001, by decide, by decide⟩

/-- An array of zeros. -/
def blank : SmallArray := .zero kSmallBuffer

/-- A record that follows a change of the zone within its second shows the time of the zone
before it; and nothing is kept of the second 0 when a thread begins. -/
theorem time_agrees_fails :
    ¬ StepsMeet step Agrees (start ⟨none⟩ 1)
        [.record oneSecond blank, .setTimeZone (.fixed 3600 []), .record oneSecondLater blank] ∧
      ¬ StepsMeet step Agrees (start ⟨none⟩ 1)
        [.record ⟨0, by decide, by decide⟩ blank] := by
  have hstart := kept_start ⟨none⟩ 1
  constructor
  · rintro ⟨⟨-, ⟨t, stream_⟩, -, hformat, -⟩, hrest⟩
    have hnew : oneSecond.seconds ≠ (start ⟨none⟩ 1).thread.t_lastSecond := by decide
    obtain ⟨hupdate, -⟩ := updateTime_of_format hformat
    obtain ⟨text, -, -, rfl⟩ := (updateTime_new hnew).mp hupdate
    have hfirst : (start ⟨none⟩ 1).step (.record oneSecond blank) =
        some ⟨⟨none⟩, ⟨text, 1, 1⟩, some ⟨none⟩⟩ := by
      rw [step, hformat]
      rfl
    have hagrees := ((hrest _ hfirst).2 _ rfl).1
    have hsame : oneSecondLater.seconds = 1 := by decide
    have hshifted : localText ⟨none⟩ oneSecondLater.seconds ≠
        localText (.fixed 3600 []) oneSecondLater.seconds := by decide
    obtain ⟨-, hother | ⟨zone, hshown, hzone⟩⟩ :=
      (agrees_iff (kept_step (a := .setTimeZone (.fixed 3600 [])) (kept_step hstart hfirst) rfl)
        _).mp hagrees
    · exact hother hsame
    · obtain rfl := Option.some.inj hshown
      exact hshifted hzone
  · rintro ⟨hagrees, -⟩
    obtain ⟨-, hother | ⟨zone, hshown, -⟩⟩ := (agrees_iff hstart _).mp hagrees
    · exact hother (by decide)
    · exact absurd hshown.symm (Option.some_ne_none zone)

end LogClock

end Cnet.Base
