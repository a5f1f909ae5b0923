import Cnet.Support.Monitor

/-!
# The thread pool

`World` is a `ThreadPool` that has been started, its workers and the threads that call
`run`. A step is what happens under one lock of the mutex, or one statement outside it; a
worker that runs a task may be anywhere in the user's code, and a task that itself calls
`run` counts as one more caller. An exception of another type than `Exception` ends the
program, and has no step.

`accepted` and `taken` list the tasks that went into `queue_` and came out, in order.
-/

namespace Cnet.Base

open Cnet.Support

variable {τ : Type}

/-- A `boost::function<void ()>`, which may be empty. -/
abbrev Task (τ : Type) := Option τ

/-- Where a worker is in `runInThread`. -/
inductive Worker
  /-- In `threadInitCallback_`, or in a task. -/
  | calling
  /-- At the test of the `while`. -/
  | testing
  /-- In `take`, about to take the lock. -/
  | taking
  /-- In `notEmpty_.wait()`. -/
  | waiting
  | left
deriving DecidableEq

namespace Worker

def wake : Worker → Worker
  | waiting => taking
  | t => t

/-- What a worker waits on. -/
def notEmpty_ : Condition Worker where
  waiting t := t == waiting
  ready t := t == taking
  wake := wake
  ready_wake t h := by
    obtain rfl := eq_of_beq h
    rfl
  waiting_wake t h := by
    obtain rfl := eq_of_beq h
    rfl
  not_ready t h := by
    obtain rfl := eq_of_beq h
    rfl

end Worker

namespace ThreadPool

/-- What a caller of `run` waits on. -/
abbrev notFull_ (τ : Type) : Condition (Phase (Task τ)) := Phase.condition (Task τ)

structure World (τ : Type) where
  maxQueueSize_ : Nat
  running_ : Bool
  queue_ : List (Task τ)
  threads_ : List Worker
  producers : List (Phase (Task τ))
  accepted : List (Task τ)
  taken : List (Task τ)
deriving DecidableEq

/-- After `start(numThreads)`. -/
def start (τ : Type) (maxSize : Nat) (threadInitCallback : Bool) (numThreads producers : Nat) :
    World τ where
  maxQueueSize_ := maxSize
  running_ := true
  queue_ := []
  threads_ := .replicate numThreads (if threadInitCallback then .calling else .testing)
  producers := .replicate producers .outside
  accepted := []
  taken := []

inductive Step (τ : Type)
  /-- Thread `p` calls `run(task)`. -/
  | call (p : Nat) (task : Task τ)
  /-- It has the lock; `wake` is the worker that it signals. -/
  | run (p : Nat) (wake : Option Nat)
  | test (k : Nat)
  | take (k : Nat) (wake : Option Nat)
  /-- The user's code returns, or throws an `Exception`. -/
  | returns (k : Nat)
  | throws (k : Nat)
  | stop
  /-- Wakeups without a signal. -/
  | wakeProducer (p : Nat)
  | wakeWorker (k : Nat)
deriving DecidableEq

namespace World

def isFull (w : World τ) : Bool :=
  decide (w.maxQueueSize_ > 0) && decide (w.queue_.length ≥ w.maxQueueSize_)

end World

/-- `run`, up to the lock. Without threads the task runs at once, in the caller. -/
def call (p : Nat) (task : Task τ) (w : World τ) : Option (World τ) :=
  (Phase.call p task w.producers).map fun producers =>
    if w.threads_.isEmpty then w else { w with producers := producers }

/-- `run`, from the lock on, or from the end of a wait. -/
def run (p : Nat) (wake : Option Nat) (w : World τ) : Option (World τ) :=
  match w.producers[p]? with
  | some (.ready task) =>
    if w.isFull then some { w with producers := w.producers.set p (.waiting task) }
    else
      (Worker.notEmpty_.notify wake w.threads_).map fun threads =>
        { w with
          queue_ := w.queue_ ++ [task]
          threads_ := threads
          producers := w.producers.set p .outside
          accepted := w.accepted ++ [task] }
  | _ => none

/-- The test of the `while` in `runInThread`, without the lock. -/
def test (k : Nat) (w : World τ) : Option (World τ) :=
  if w.threads_[k]? = some .testing then
    some { w with threads_ := w.threads_.set k (if w.running_ then .taking else .left) }
  else none

/-- Back from `take`, a worker calls the task, if there is one. -/
def afterTake : Task τ → Worker
  | some _ => .calling
  | none => .testing

def take (k : Nat) (wake : Option Nat) (w : World τ) : Option (World τ) :=
  if w.threads_[k]? = some .taking then
    match w.queue_ with
    | [] =>
      if w.running_ then some { w with threads_ := w.threads_.set k .waiting }
      else some { w with threads_ := w.threads_.set k (afterTake (none : Task τ)) }
    | task :: queue =>
      let w' := { w with
        queue_ := queue
        threads_ := w.threads_.set k (afterTake task)
        taken := w.taken ++ [task] }
      if w.maxQueueSize_ > 0 then
        ((notFull_ τ).notify wake w.producers).map fun producers =>
          { w' with producers := producers }
      else some w'
  else none

/-- The user's code ends. -/
def callEnds (k : Nat) (next : Worker) (w : World τ) : Option (World τ) :=
  if w.threads_[k]? = some .calling then some { w with threads_ := w.threads_.set k next }
  else none

/-- `stop`, under the lock; then it joins the threads. -/
def stop (w : World τ) : World τ :=
  { w with running_ := false, threads_ := Worker.notEmpty_.notifyAll w.threads_ }

def step (w : World τ) : Step τ → Option (World τ)
  | .call p task => call p task w
  | .run p wake => run p wake w
  | .test k => test k w
  | .take k wake => take k wake w
  | .returns k => callEnds k .testing w
  | .throws k => callEnds k .left w
  | .stop => some (stop w)
  | .wakeProducer p =>
    ((notFull_ τ).notify (some p) w.producers).map fun producers =>
      { w with producers := producers }
  | .wakeWorker k =>
    (Worker.notEmpty_.notify (some k) w.threads_).map fun threads => { w with threads_ := threads }

variable {w w' : World τ} {wake : Option Nat}

/-- What `run` does when it has the lock: it waits for room, or puts the task. -/
inductive Runs (p : Nat) (w : World τ) : World τ → Prop
  | waits {task : Task τ} (hp : w.producers[p]? = some (.ready task)) (hfull : w.isFull = true) :
      Runs p w { w with producers := w.producers.set p (.waiting task) }
  | puts {task : Task τ} {wake : Option Nat} {threads : List Worker}
      (hp : w.producers[p]? = some (.ready task)) (hroom : ¬ w.isFull = true)
      (hnotify : Worker.notEmpty_.notify wake w.threads_ = some threads) :
      Runs p w { w with
        queue_ := w.queue_ ++ [task]
        threads_ := threads
        producers := w.producers.set p .outside
        accepted := w.accepted ++ [task] }

theorem runs_of_run {p : Nat} (hs : run p wake w = some w') : Runs p w w' := by
  rw [run] at hs
  split at hs
  case h_1 task hp =>
    by_cases hfull : w.isFull = true
    · rw [if_pos hfull] at hs
      obtain rfl := Option.some.inj hs
      exact .waits hp hfull
    · rw [if_neg hfull] at hs
      obtain ⟨threads, hnotify, rfl⟩ := Option.map_eq_some_iff.mp hs
      exact .puts hp hfull hnotify
  case h_2 => exact absurd hs.symm (Option.some_ne_none _)

/-- What `take` does when a worker has the lock. Callers of `run` are signalled only where
the queue has a limit. -/
inductive Takes (k : Nat) (w : World τ) : World τ → Prop
  | waits (hk : w.threads_[k]? = some .taking) (hempty : w.queue_ = [])
      (hrunning : w.running_ = true) :
      Takes k w { w with threads_ := w.threads_.set k .waiting }
  | gone (hk : w.threads_[k]? = some .taking) (hempty : w.queue_ = [])
      (hstopped : ¬ w.running_ = true) :
      Takes k w { w with threads_ := w.threads_.set k (afterTake (none : Task τ)) }
  | takes {task : Task τ} {queue : List (Task τ)} {producers : List (Phase (Task τ))}
      (hk : w.threads_[k]? = some .taking) (hcons : w.queue_ = task :: queue)
      (hproducers : (0 < w.maxQueueSize_ ∧ ∃ wake, (notFull_ τ).notify wake w.producers =
        some producers) ∨ (w.maxQueueSize_ = 0 ∧ producers = w.producers)) :
      Takes k w { w with
        queue_ := queue
        threads_ := w.threads_.set k (afterTake task)
        producers := producers
        taken := w.taken ++ [task] }

theorem takes_of_take {k : Nat} (hs : take k wake w = some w') : Takes k w w' := by
  rw [take, Option.ite_none_right_eq_some] at hs
  obtain ⟨hk, hs⟩ := hs
  split at hs
  case h_1 hempty =>
    split at hs
    case isTrue hrunning =>
      obtain rfl := Option.some.inj hs
      exact .waits hk hempty hrunning
    case isFalse hstopped =>
      obtain rfl := Option.some.inj hs
      exact .gone hk hempty hstopped
  case h_2 task queue hcons =>
    by_cases hmax : w.maxQueueSize_ > 0
    · rw [if_pos hmax] at hs
      obtain ⟨producers, hnotify, rfl⟩ := Option.map_eq_some_iff.mp hs
      exact .takes hk hcons (.inl ⟨hmax, wake, hnotify⟩)
    · rw [if_neg hmax] at hs
      obtain rfl := Option.some.inj hs
      exact .takes hk hcons (.inr ⟨Nat.eq_zero_of_not_pos hmax, rfl⟩)

end ThreadPool

end Cnet.Base
