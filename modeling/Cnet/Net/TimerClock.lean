import Cnet.Net.TimerExpiry

/-!
# The timer queue and its timerfd

`Clocked` is a timer queue with the timerfd it arms: when this is to expire, or has expired
without having been read since, and what `timerfd_settime` was called with. The kernel's
clock and that of `Timestamp::now()` are one, and read positive times. The functions that
arm the timerfd are written out with the time they read; a difference of times that does
not fit has no result.
-/

namespace Cnet.Net.Timers

open Cnet.Support

def kMicroSecondsPerSecond : Int := 1000 * 1000

abbrev FitsInt64 (n : Int) : Prop := -0x8000000000000000 ≤ n ∧ n < 0x8000000000000000

structure Timespec where
  tv_sec : Int
  tv_nsec : Int
deriving DecidableEq, Repr

/-- What `timerfd_settime` takes for a time to come. -/
def Timespec.Positive (ts : Timespec) : Prop :=
  0 ≤ ts.tv_sec ∧ 0 ≤ ts.tv_nsec ∧ ts.tv_nsec < 1000000000 ∧ 0 < ts.tv_sec + ts.tv_nsec

def Timespec.microseconds (ts : Timespec) : Int :=
  ts.tv_sec * kMicroSecondsPerSecond + ts.tv_nsec / 1000

/-- `howMuchTimeFromNow`, at a time that `Timestamp::now()` returns. -/
def howMuchTimeFromNow (when_ now : Timestamp) : Option Timespec := do
  let microseconds := when_ - now
  assert (FitsInt64 microseconds)
  let microseconds := if microseconds < 100 then 100 else microseconds
  some {
    tv_sec := microseconds.tdiv kMicroSecondsPerSecond
    tv_nsec := microseconds.tmod kMicroSecondsPerSecond * 1000 }

/-- A timerfd that is set: when it expires, and when it was armed. -/
structure Armed where
  deadline : Timestamp
  since : Timestamp
deriving DecidableEq, Repr

structure Clocked where
  queue : World
  armed : Option Armed
  settimes : List Timespec

/-- A step of the queue, with the time that is read in `howMuchTimeFromNow`, or the one at
which `handleRead` reads the timerfd. -/
structure ClockedStep where
  step : Step
  clock : Timestamp

/-- Microseconds are what `addTime` makes of a `double`, and clocks are positive. -/
def ClockedStep.Possible (s : ClockedStep) : Prop :=
  match s.step with
  | .addTiemr _ _ _ interval => interval.positive = true → 0 ≤ interval.delta
  | .handleRead now => 0 < now ∧ now ≤ s.clock
  | _ => True

instance (s : ClockedStep) : Decidable s.Possible := by
  unfold ClockedStep.Possible
  split <;> infer_instance

namespace Clocked

def new : Clocked where
  queue := .new
  armed := none
  settimes := []

/-- A timerfd that has expired is disarmed by the read; else there is nothing to read. -/
def readTimerfd (clock : Timestamp) (c : Clocked) : Clocked :=
  if c.armed.any fun a => a.deadline ≤ clock then { c with armed := none } else c

def resetTimerfd (expiration clock : Timestamp) (c : Clocked) : Option Clocked := do
  let newValue ← howMuchTimeFromNow expiration clock
  some { c with
    queue := c.queue.resetTimerfd expiration
    armed := some { deadline := clock + newValue.microseconds, since := clock }
    settimes := c.settimes ++ [newValue] }

def addTimerInLoop (timer : Pointer) (clock : Timestamp) (c : Clocked) : Option Clocked := do
  let (w, earliestChanged) ← c.queue.insert timer
  if earliestChanged then
    let t ← w.deref timer
    resetTimerfd t.expiration_ clock { c with queue := w }
  else some { c with queue := w }

def reset (expired : List Entry) (now clock : Timestamp) (c : Clocked) : Option Clocked := do
  let w ← expired.foldlM (World.resetTimer now) c.queue
  let nextExpire ← w.nextExpire
  if nextExpire.valid then resetTimerfd nextExpire clock { c with queue := w }
  else some { c with queue := w }

/-- A step that does not arm the timerfd. -/
def lift (s : Step) (c : Clocked) : Option Clocked :=
  (c.queue.exec s).map fun w => { c with queue := w }

def exec (c : Clocked) (s : ClockedStep) : Option Clocked :=
  match s.step with
  | .addTiemr .loop addr when_ interval => do
      let (timer, w) := c.queue.newTimer addr when_ interval
      let c ← addTimerInLoop timer s.clock { c with queue := w }
      some { c with queue := c.queue.record (.returned (timerId timer)) }
  | .functor =>
      match c.queue.pendingFunctors_ with
      | .addTimerInLoop timer :: fs =>
          addTimerInLoop timer s.clock { c with queue := { c.queue with pendingFunctors_ := fs } }
      | _ => c.lift .functor
  | .handleRead now => (c.readTimerfd s.clock).lift (.handleRead now)
  | .handleReadEnd =>
      match c.queue.batch with
      | some b =>
          reset b.expired b.now s.clock { c with
            queue := { c.queue with callingExpiredTimers_ := false, batch := none } }
      | none => some c
  | step => c.lift step

def step (c : Clocked) (s : ClockedStep) : Option Clocked :=
  if c.queue.enabled s.step ∧ s.Possible then c.exec s else none

/-! ## The queue's part -/

variable {c c' : Clocked}

theorem queue_resetTimerfd {expiration clock : Timestamp}
    (h : c.resetTimerfd expiration clock = some c') :
    c'.queue = c.queue.resetTimerfd expiration := by
  rw [resetTimerfd, Option.bind_eq_bind, Option.bind_eq_some_iff] at h
  obtain ⟨newValue, -, h⟩ := h
  rw [← Option.some.inj h]

theorem queue_addTimerInLoop {timer : Pointer} {clock : Timestamp}
    (h : c.addTimerInLoop timer clock = some c') :
    c.queue.addTimerInLoop timer = some c'.queue := by
  rw [addTimerInLoop, Option.bind_eq_bind, Option.bind_eq_some_iff] at h
  obtain ⟨⟨w, earliest⟩, hinsert, h⟩ := h
  rw [World.addTimerInLoop, hinsert]
  cases earliest with
  | true =>
    simp only [if_true, Option.bind_eq_bind, Option.bind_eq_some_iff] at h
    obtain ⟨t, ht, h⟩ := h
    simp only [Option.bind_eq_bind, Option.bind_some, if_true, ht]
    rw [queue_resetTimerfd h]
  | false =>
    simp only [Bool.false_eq_true, if_false, Option.some.injEq] at h
    rw [← h]
    rfl

theorem queue_reset {expired : List Entry} {now clock : Timestamp}
    (h : c.reset expired now clock = some c') :
    c.queue.reset expired now = some c'.queue := by
  simp only [reset, Option.bind_eq_bind, Option.bind_eq_some_iff] at h
  obtain ⟨w, hloop, nextExpire, hnext, h⟩ := h
  rw [World.reset, hloop]
  simp only [Option.bind_eq_bind, Option.bind_some, hnext]
  split at h
  · case isTrue hvalid => rw [if_pos hvalid, queue_resetTimerfd h]
  · case isFalse hvalid =>
    rw [if_neg hvalid, ← Option.some.inj h]

theorem queue_lift {s : Step} (h : c.lift s = some c') : c.queue.exec s = some c'.queue := by
  obtain ⟨w, hw, rfl⟩ := Option.map_eq_some_iff.mp h
  exact hw

theorem queue_readTimerfd (clock : Timestamp) : (c.readTimerfd clock).queue = c.queue := by
  rw [readTimerfd]
  split <;> rfl

/-- What the queue does is what it does without a timerfd. -/
theorem queue_step {s : ClockedStep} (h : c.step s = some c') :
    c.queue.step s.step = some c'.queue := by
  obtain ⟨⟨henabled, -⟩, h⟩ := Option.ite_none_right_eq_some.mp h
  rw [World.step, if_pos henabled]
  obtain ⟨s, clock⟩ := s
  cases s with
  | addTiemr t addr when_ interval =>
    cases t with
    | loop =>
      simp only [exec, Option.bind_eq_bind, Option.bind_eq_some_iff, Option.some.injEq] at h
      obtain ⟨c₁, hadd, rfl⟩ := h
      have hqueue := queue_addTimerInLoop hadd
      simp only [World.exec, Option.bind_eq_bind, hqueue, Option.bind_some]
    | other => exact queue_lift h
  | queueAdd timer => exact queue_lift h
  | cancel t id => exact queue_lift h
  | functor =>
    simp only [exec] at h
    split at h
    · case h_1 timer fs hf =>
      rw [World.exec, hf]
      exact queue_addTimerInLoop h
    · exact queue_lift h
  | handleRead now =>
    have hread := queue_lift h
    rw [queue_readTimerfd] at hread
    exact hread
  | runTimer => exact queue_lift h
  | handleReadEnd =>
    simp only [exec] at h
    cases hb : c.queue.batch with
    | none =>
      rw [hb] at h
      obtain rfl := Option.some.inj h
      rw [World.exec, hb]
    | some b =>
      rw [hb] at h
      rw [World.exec, hb]
      exact queue_reset h

/-- A run of the clocked queue is a run of the queue. -/
theorem queue_run {steps : List ClockedStep} (h : run step c steps = some c') :
    run World.step c.queue (steps.map ClockedStep.step) = some c'.queue := by
  induction steps generalizing c with
  | nil =>
    obtain rfl := Option.some.inj h
    rfl
  | cons s steps ih =>
    obtain ⟨c₁, hstep, hrest⟩ := (run_cons_some step).mp h
    exact (run_cons_some World.step).mpr ⟨c₁.queue, queue_step hstep, ih hrest⟩

end Clocked

end Cnet.Net.Timers
