import Cnet.Support.Heap
import Cnet.Support.Memory
import Cnet.Support.OrderedSet

/-!
# The timer queue and its share of the event loop

`World` is a `TimerQueue`, the heap its `Timer` objects are allocated in, what the
`EventLoop` and the threads that add timers hold on its behalf, and the history of
the objects. The member functions keep the source's names; one that fails an assert
or uses a freed object has no result.

`handleRead` is cut where user code runs: it takes out the expired timers, runs them
one by one, and puts back or frees them. Between two of these steps the callbacks add
and cancel timers.

`addTiemr` makes the timer and its `TimerId` before it hands the timer to the loop. The source
reads `timer->sequence()` for the `TimerId` afterwards, when in another thread the loop may
have run the timer and freed it already; that read has no step here.
-/

namespace Cnet.Net.Timers

open Cnet.Support

/-- `microSecondsSinceEpoch` -/
abbrev Timestamp := Int

def Timestamp.invalid : Timestamp := 0
def Timestamp.valid (t : Timestamp) : Bool := 0 < t

/-- A `double` of seconds: whether it is positive, and `addTime`'s microseconds for it. -/
structure Interval where
  positive : Bool
  delta : Int
deriving DecidableEq, Repr

def addTime (timestamp : Timestamp) (seconds : Interval) : Timestamp := timestamp + seconds.delta

structure Timer where
  expiration_ : Timestamp
  interval_ : Interval
  repeat_ : Bool
  sequence_ : Nat
deriving DecidableEq, Repr

/-- The constructor, with the next value of `s_numCreated_`. -/
def Timer.new (when_ : Timestamp) (interval : Interval) (sequence : Nat) : Timer where
  expiration_ := when_
  interval_ := interval
  repeat_ := interval.positive
  sequence_ := sequence

def Timer.restart (now : Timestamp) (t : Timer) : Timer :=
  if t.repeat_ then { t with expiration_ := addTime now t.interval_ }
  else { t with expiration_ := Timestamp.invalid }

/-- `reinterpret_cast<Timer*>(UINTPTR_MAX)` -/
def uintptrMax : Nat := wordSize - 1

/-- An element of `timers_`, ordered by time and then by address. -/
structure Entry where
  first : Timestamp
  second : Pointer
deriving DecidableEq, Repr

def Entry.key (e : Entry) : Int ×ₗ Nat := toLex (e.first, e.second.addr)

/-- An element of `activeTimers_`, ordered by address and then by sequence. -/
structure ActiveTimer where
  first : Pointer
  second : Nat
deriving DecidableEq, Repr

def ActiveTimer.key (a : ActiveTimer) : Nat ×ₗ Nat := toLex (a.first.addr, a.second)

structure TimerId where
  timer_ : Pointer
  sequence_ : Nat
deriving DecidableEq, Repr

/-- The id that `addTiemr` returns for a timer. -/
def timerId (timer : Pointer) : TimerId := ⟨timer, timer.object⟩

/-- The id compares equal to that of the timer. -/
def TimerId.names (id : TimerId) (timer : Pointer) : Prop :=
  id.timer_.addr = timer.addr ∧ id.sequence_ = timer.object

instance (id : TimerId) (timer : Pointer) : Decidable (id.names timer) :=
  inferInstanceAs (Decidable (_ ∧ _))

inductive Functor
  | addTimerInLoop (timer : Pointer)
  | cancelInLoop (timerId : TimerId)
deriving DecidableEq, Repr

/-- The pointer that `runInLoop(addTimerInLoop, timer)` holds while it is queued. -/
def Functor.adds : Functor → Option Pointer
  | .addTimerInLoop timer => some timer
  | .cancelInLoop _ => none

/-- What `handleRead` has at hand while callbacks run: the time it read, the expired
timers and those of them not run yet, and the ids cancelled since it began. -/
structure Batch where
  now : Timestamp
  expired : List Entry
  rest : List Entry
  cancels : List TimerId
deriving DecidableEq, Repr

/-- What happened, in order. -/
inductive Event
  /-- `addTiemr` returned this id. -/
  | returned (id : TimerId)
  /-- `cancelInLoop` returned. -/
  | cancelled (id : TimerId)
  /-- The callback of this timer was started. -/
  | started (timer : Pointer)
deriving DecidableEq, Repr

structure World where
  -- TimerQueue, and the time its timerfd was last armed for
  timers_ : List Entry
  activeTimers_ : List ActiveTimer
  callingExpiredTimers_ : Bool
  cancelingTimers_ : List ActiveTimer
  timerfd_ : Option Timestamp
  -- the Timer objects
  heap : Heap Timer
  numCreated : Nat
  -- timers made by other threads and not queued yet, the loop's functors, a running handleRead
  creating : List Pointer
  pendingFunctors_ : List Functor
  batch : Option Batch
  -- history
  created : List Pointer
  freed : List Pointer
  trace : List Event

namespace World

def new : World where
  timers_ := []
  activeTimers_ := []
  callingExpiredTimers_ := false
  cancelingTimers_ := []
  timerfd_ := none
  heap := fun _ => none
  numCreated := 0
  creating := []
  pendingFunctors_ := []
  batch := none
  created := []
  freed := []
  trace := []

def record (e : Event) (w : World) : World := { w with trace := w.trace ++ [e] }

/-- The timer behind a pointer. -/
def deref (timer : Pointer) (w : World) : Option Timer := w.heap.deref Timer.sequence_ timer

/-- `delete timer` -/
def delete (timer : Pointer) (w : World) : Option World := do
  let _ ← w.deref timer
  some { w with heap := w.heap.free timer, freed := timer :: w.freed }

/-- `new Timer(cb, when, interval)`, at an address the allocator picked. -/
def newTimer (addr : Nat) (when_ : Timestamp) (interval : Interval) (w : World) :
    Pointer × World :=
  let timer : Pointer := ⟨addr, w.numCreated + 1⟩
  (timer, { w with
    heap := w.heap.store timer (Timer.new when_ interval (w.numCreated + 1))
    numCreated := w.numCreated + 1
    created := timer :: w.created })

/-- `EventLoop::queueInLoop` -/
def queueInLoop (f : Functor) (w : World) : World :=
  { w with pendingFunctors_ := w.pendingFunctors_ ++ [f] }

def resetTimerfd (expiration : Timestamp) (w : World) : World :=
  { w with timerfd_ := some expiration }

/-- `earliestChanged` in `insert`. -/
def earliestChanged (when_ : Timestamp) (timers : List Entry) : Bool :=
  match timers with
  | [] => true
  | it :: _ => when_ < it.first

/-- `insert`: the queue, and whether the earliest expiration changed. -/
def insert (timer : Pointer) (w : World) : Option (World × Bool) := do
  assert (w.timers_.length = w.activeTimers_.length)
  let t ← w.deref timer
  let when_ := t.expiration_
  let timers := OrderedSet.insert Entry.key ⟨when_, timer⟩ w.timers_
  assert (timers.2 = true)
  let active := OrderedSet.insert ActiveTimer.key ⟨timer, t.sequence_⟩ w.activeTimers_
  assert (active.2 = true)
  assert (timers.1.length = active.1.length)
  some ({ w with timers_ := timers.1, activeTimers_ := active.1 },
    earliestChanged when_ w.timers_)

def addTimerInLoop (timer : Pointer) (w : World) : Option World := do
  let (w, earliestChanged) ← w.insert timer
  if earliestChanged then
    let t ← w.deref timer
    some (w.resetTimerfd t.expiration_)
  else some w

def cancelInLoop (timerId : TimerId) (w : World) : Option World := do
  assert (w.timers_.length = w.activeTimers_.length)
  let timer : ActiveTimer := ⟨timerId.timer_, timerId.sequence_⟩
  let w ←
    match OrderedSet.find ActiveTimer.key timer.key w.activeTimers_ with
    | some it => do
      let t ← w.deref it.first
      let timers := OrderedSet.erase Entry.key (Entry.key ⟨t.expiration_, it.first⟩) w.timers_
      assert (timers.2 = 1)
      let w ← delete it.first { w with timers_ := timers.1 }
      some { w with
        activeTimers_ := (OrderedSet.erase ActiveTimer.key it.key w.activeTimers_).1 }
    | none =>
      if w.callingExpiredTimers_ then
        some { w with
          cancelingTimers_ := (OrderedSet.insert ActiveTimer.key timer w.cancelingTimers_).1 }
      else some w
  assert (w.timers_.length = w.activeTimers_.length)
  some w

/-- The loop of `getExpired` over the expired timers. -/
def eraseActive : List Entry → World → Option World
  | [], w => some w
  | it :: expired, w => do
    let t ← w.deref it.second
    let active := OrderedSet.erase ActiveTimer.key
      (ActiveTimer.key ⟨it.second, t.sequence_⟩) w.activeTimers_
    assert (active.2 = 1)
    eraseActive expired { w with activeTimers_ := active.1 }

/-- `getExpired`: the expired timers, and the queue without them. -/
def getExpired (now : Timestamp) (w : World) : Option (List Entry × World) := do
  assert (w.timers_.length = w.activeTimers_.length)
  let sentry : Entry := ⟨now, ⟨uintptrMax, 0⟩⟩
  let expired := OrderedSet.below Entry.key sentry.key w.timers_
  let rest := OrderedSet.from_ Entry.key sentry.key w.timers_
  assert (∀ e ∈ rest.head?, now < e.first)
  let w ← eraseActive expired { w with timers_ := rest }
  assert (w.timers_.length = w.activeTimers_.length)
  some (expired, w)

/-- One turn of the loop of `reset`. -/
def resetTimer (now : Timestamp) (w : World) (it : Entry) : Option World := do
  let t ← w.deref it.second
  let timer : ActiveTimer := ⟨it.second, t.sequence_⟩
  if t.repeat_ && (OrderedSet.find ActiveTimer.key timer.key w.cancelingTimers_).isNone then
    let w := { w with heap := w.heap.store it.second (t.restart now) }
    let (w, _) ← w.insert it.second
    some w
  else w.delete it.second

/-- `nextExpire` in `reset`: the expiration of the first timer, if there is one. -/
def nextExpire (w : World) : Option Timestamp :=
  match w.timers_ with
  | [] => some Timestamp.invalid
  | it :: _ => (w.deref it.second).map Timer.expiration_

def reset (expired : List Entry) (now : Timestamp) (w : World) : Option World := do
  let w ← expired.foldlM (resetTimer now) w
  let nextExpire ← w.nextExpire
  some (if nextExpire.valid then w.resetTimerfd nextExpire else w)

end World

/-- Where a call comes from: the loop's thread, or another one. -/
inductive Caller
  | loop
  | other
deriving DecidableEq, Repr

inductive Step
  /-- `addTiemr` allocates its timer; in the loop's thread it also runs `addTimerInLoop`. -/
  | addTiemr (t : Caller) (addr : Nat) (when_ : Timestamp) (interval : Interval)
  /-- Another thread queues `addTimerInLoop` for the timer it made, and returns. -/
  | queueAdd (timer : Pointer)
  | cancel (t : Caller) (timerId : TimerId)
  /-- `doPendingFunctors` runs the next functor. -/
  | functor
  /-- `handleRead` begins, and reads this time. -/
  | handleRead (now : Timestamp)
  /-- The next expired timer's callback begins. -/
  | runTimer
  /-- The last callback has returned, and `handleRead` ends. -/
  | handleReadEnd
deriving DecidableEq, Repr

namespace World

/-- User code can run in the loop's thread: nothing of `handleRead` precedes its first callback. -/
def userRuns (w : World) : Bool := w.batch.all fun b => b.rest.length < b.expired.length

/-- The step can be taken in this state. -/
def enabled (w : World) : Step → Prop
  | .addTiemr t addr _ _ =>
      (t = .loop → w.userRuns) ∧ w.heap addr = none ∧ addr < uintptrMax
  | .queueAdd timer => timer ∈ w.creating
  | .cancel t _ => t = .loop → w.userRuns
  | .functor => w.batch = none ∧ w.pendingFunctors_ ≠ []
  | .handleRead _ => w.batch = none
  | .runTimer => ∃ b ∈ w.batch, b.rest ≠ []
  | .handleReadEnd => ∃ b ∈ w.batch, b.rest = []

instance (w : World) (s : Step) : Decidable (w.enabled s) := by
  cases s <;> unfold enabled <;> infer_instance

/-- Put down in the history that `cancelInLoop` has returned. -/
def noteCancelled (id : TimerId) (w : World) : World :=
  record (.cancelled id) { w with
    batch := w.batch.map fun b => { b with cancels := id :: b.cancels } }

def cancelled (id : TimerId) (w : World) : Option World :=
  (w.cancelInLoop id).map (noteCancelled id)

def runFunctor (f : Functor) (w : World) : Option World :=
  match f with
  | .addTimerInLoop timer => w.addTimerInLoop timer
  | .cancelInLoop id => w.cancelled id

/-- What the step does; nothing but a failed assert or a use of a freed timer stops it. -/
def exec (w : World) : Step → Option World
  | .addTiemr .loop addr when_ interval => do
      let (timer, w) := w.newTimer addr when_ interval
      let w ← w.addTimerInLoop timer
      some (w.record (.returned (timerId timer)))
  | .addTiemr .other addr when_ interval =>
      let (timer, w) := w.newTimer addr when_ interval
      some { w with creating := timer :: w.creating }
  | .queueAdd timer =>
      let w := { w with creating := w.creating.erase timer }
      some ((w.queueInLoop (.addTimerInLoop timer)).record (.returned (timerId timer)))
  | .cancel .loop id => w.cancelled id
  | .cancel .other id => some (w.queueInLoop (.cancelInLoop id))
  | .functor =>
      match w.pendingFunctors_ with
      | f :: fs => runFunctor f { w with pendingFunctors_ := fs }
      | [] => some w
  | .handleRead now => do
      let (expired, w) ← w.getExpired now
      some { w with
        callingExpiredTimers_ := true
        cancelingTimers_ := []
        batch := some { now, expired, rest := expired, cancels := [] } }
  | .runTimer =>
      match w.batch with
      | some b =>
        match b.rest with
        | it :: rest => do
          let _ ← w.deref it.second
          some (record (.started it.second) { w with batch := some { b with rest } })
        | [] => some w
      | none => some w
  | .handleReadEnd =>
      match w.batch with
      | some b =>
          reset b.expired b.now { w with callingExpiredTimers_ := false, batch := none }
      | none => some w

def step (w : World) (s : Step) : Option World := if w.enabled s then w.exec s else none

end World

end Cnet.Net.Timers
