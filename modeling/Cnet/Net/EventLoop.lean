import Cnet.Net.TcpConnection

/-!
# The event loop

`World` is an `EventLoop`: its flags, `pendingFunctors_` and the counter behind
`wakeupFd_`, where the loop thread is in `loop()`, the threads that are between a push
and their `wakeup()`, and the history of the functor queue. User code runs in the loop
thread before `loop()`, in the handlers, in the functors and after `loop()`; other
threads call at any time. What a functor is does not matter to the queue.

The constructor leaves `callingPendingFunctors_` as it finds it, so `new` takes it.
-/

namespace Cnet.Net.Loops

inductive LoopState
  | CREATED
  | RUNNING
  | QUITED
deriving DecidableEq, Repr

/-- An element of `activeChannels_`: `wakeupChannel_`, or one whose handler is user code. -/
inductive ActiveChannel
  | wakeupChannel
  | other
deriving DecidableEq, Repr

/-- Where the loop thread is. -/
inductive Position (φ : Type)
  /-- Before `loop()`, or after it. -/
  | outside
  /-- At the test of the `while`. -/
  | test
  /-- In `poller_->poll`. -/
  | poll
  /-- Between two handlers, with those still to run. -/
  | handlers (active : List ActiveChannel)
  | inHandler (active : List ActiveChannel)
  /-- In `doPendingFunctors`, before the swap. -/
  | swap
  /-- Between two functors of the batch, with those still to run. -/
  | functors (batch : List φ)
  | inFunctor (batch : List φ)
deriving DecidableEq, Repr

/-- What happened to the functor queue, in order. -/
inductive Event (φ : Type)
  /-- `pendingFunctors_.push_back(cb)` -/
  | entered (cb : φ)
  /-- `functors.swap(pendingFunctors_)` -/
  | swap
  /-- `functors[i]()` begins. -/
  | executed (cb : φ)
  /-- `doPendingFunctors` returns. -/
  | returned
deriving DecidableEq, Repr

structure World (φ : Type) where
  -- EventLoop
  looping_ : Bool
  quit_ : LoopState
  eventHanding_ : Bool
  callingPendingFunctors_ : Bool
  iteration_ : Nat
  pendingFunctors_ : List φ
  -- the counter of the eventfd
  wakeupFd_ : Nat
  position : Position φ
  /-- The threads that have pushed in `queueInLoop` and have `wakeup()` still to call. -/
  waking : List Thread
  /-- The threads that have set `quit_` and have `wakeup()` still to call. -/
  quitting : List Thread
  trace : List (Event φ)
deriving DecidableEq, Repr

/-- The greatest value an eventfd counter takes. -/
def eventfdMax : Nat := 0xfffffffffffffffe

namespace World

variable {φ : Type}

/-- A loop as constructed; its `callingPendingFunctors_` is not initialised. -/
def new (callingPendingFunctors : Bool) : World φ where
  looping_ := false
  quit_ := .CREATED
  eventHanding_ := false
  callingPendingFunctors_ := callingPendingFunctors
  iteration_ := 0
  pendingFunctors_ := []
  wakeupFd_ := 0
  position := .outside
  waking := []
  quitting := []
  trace := []

def record (e : Event φ) (w : World φ) : World φ := { w with trace := w.trace ++ [e] }

/-- The loop thread is not in `loop()`. -/
def isOutside (w : World φ) : Bool :=
  match w.position with
  | .outside => true
  | _ => false

/-- The loop thread is in `poll`. -/
def isPolling (w : World φ) : Bool :=
  match w.position with
  | .poll => true
  | _ => false

theorem isOutside_iff {w : World φ} : w.isOutside = true ↔ w.position = .outside := by
  rw [isOutside]
  split <;> simp_all

theorem isPolling_iff {w : World φ} : w.isPolling = true ↔ w.position = .poll := by
  rw [isPolling]
  split <;> simp_all

/-- The loop thread is in user code. -/
def inUserCode (w : World φ) : Bool :=
  match w.position with
  | .outside | .inHandler _ | .inFunctor _ => true
  | _ => false

/-- The thread is free to call a member function. -/
def mayCall (t : Thread) (w : World φ) : Bool :=
  t ∉ w.waking && t ∉ w.quitting && (!t.isInLoopThread || w.inUserCode)

/-- `wakeup`: the write fails when the counter is full. -/
def wakeup (w : World φ) : World φ :=
  { w with wakeupFd_ := if w.wakeupFd_ < eventfdMax then w.wakeupFd_ + 1 else w.wakeupFd_ }

/-- `handleRead`: reading an eventfd clears it. -/
def handleRead (w : World φ) : World φ := { w with wakeupFd_ := 0 }

/-- `queueInLoop`, as far as its `wakeup()`. -/
def queueInLoop (t : Thread) (cb : φ) (w : World φ) : World φ :=
  let w := record (.entered cb) { w with pendingFunctors_ := w.pendingFunctors_ ++ [cb] }
  if !t.isInLoopThread || w.callingPendingFunctors_ then { w with waking := t :: w.waking } else w

/-- `runInLoop`. In the loop thread `cb` runs at once, as user code like any other. -/
def runInLoop (t : Thread) (cb : φ) (w : World φ) : World φ :=
  if t.isInLoopThread then w else w.queueInLoop t cb

/-- `quit`, as far as its `wakeup()`. -/
def quit (t : Thread) (w : World φ) : World φ :=
  let w := { w with quit_ := .QUITED }
  if !t.isInLoopThread then { w with quitting := t :: w.quitting } else w

/-- `loop`, as far as the first test. -/
def loop (w : World φ) : World φ :=
  { w with
    looping_ := true
    quit_ := if w.quit_ = .CREATED then .RUNNING else w.quit_
    position := .test }

/-- The end of `poll`: it reports these channels. -/
def pollReturn (active : List ActiveChannel) (w : World φ) : World φ :=
  { w with iteration_ := w.iteration_ + 1, eventHanding_ := true, position := .handlers active }

/-- The next thing the loop thread does by itself. -/
def next (w : World φ) : Option (World φ) :=
  match w.position with
  | .outside | .poll => none
  | .test =>
      if w.quit_ = .RUNNING then some { w with position := .poll }
      else some { w with looping_ := false, position := .outside }
  | .handlers (.wakeupChannel :: active) => some { w.handleRead with position := .handlers active }
  | .handlers (.other :: active) => some { w with position := .inHandler active }
  | .handlers [] =>
      some { w with eventHanding_ := false, callingPendingFunctors_ := true, position := .swap }
  | .inHandler active => some { w with position := .handlers active }
  | .swap =>
      some (record .swap { w with
        position := .functors w.pendingFunctors_
        pendingFunctors_ := [] })
  | .functors (cb :: batch) => some (record (.executed cb) { w with position := .inFunctor batch })
  | .functors [] =>
      some (record .returned { w with callingPendingFunctors_ := false, position := .test })
  | .inFunctor batch => some { w with position := .functors batch }

end World

inductive Step (φ : Type)
  | queueInLoop (t : Thread) (cb : φ)
  | runInLoop (t : Thread) (cb : φ)
  | quit (t : Thread)
  /-- The `wakeup()` at the end of `queueInLoop`. -/
  | wakeup (t : Thread)
  /-- The `wakeup()` at the end of `quit`. -/
  | quitWakeup (t : Thread)
  /-- User code in the loop thread calls `loop()`. -/
  | loop
  | pollReturn (active : List ActiveChannel)
  /-- The loop thread goes on. -/
  | next
deriving DecidableEq, Repr

namespace World

variable {φ : Type}

/-- `poll` reports `wakeupChannel_` at most once, and only while its counter is positive. -/
def step (w : World φ) : Step φ → Option (World φ)
  | .queueInLoop t cb => if w.mayCall t then some (w.queueInLoop t cb) else none
  | .runInLoop t cb => if w.mayCall t then some (w.runInLoop t cb) else none
  | .quit t => if w.mayCall t then some (w.quit t) else none
  | .wakeup t => if t ∈ w.waking then some { w.wakeup with waking := w.waking.erase t } else none
  | .quitWakeup t =>
      if t ∈ w.quitting then some { w.wakeup with quitting := w.quitting.erase t } else none
  | .loop => if w.isOutside && w.mayCall .loop then some w.loop else none
  | .pollReturn active =>
      if w.isPolling && active.count .wakeupChannel ≤ 1 &&
          (.wakeupChannel ∉ active || 0 < w.wakeupFd_) then
        some (w.pollReturn active)
      else none
  | .next => if .loop ∉ w.waking then w.next else none

end World

end Cnet.Net.Loops
