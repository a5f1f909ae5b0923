import Cnet.Support.Monitor

/-!
# Blocking queues

`BlockingQueue` and `BoundedBlockingQueue`, with any number of threads that put and take. A
step is what happens under one lock of the mutex; a wait gives the lock back, and a signal
or a spurious wakeup only makes a thread try again.

`put` and `taken` list the elements that went in and came out, in order.
-/

namespace Cnet.Base

open Cnet.Support

variable {τ : Type}

/-- A `boost::circular_buffer`. -/
structure CircularBuffer (τ : Type) where
  capacity : Nat
  elements : List τ
deriving DecidableEq

namespace CircularBuffer

def full (b : CircularBuffer τ) : Bool := b.elements.length == b.capacity

/-- A full one loses its first element, or takes nothing at all if its capacity is zero. -/
def push_back (x : τ) (b : CircularBuffer τ) : CircularBuffer τ :=
  if b.full then
    if b.elements.isEmpty then b else { b with elements := b.elements.tail ++ [x] }
  else { b with elements := b.elements ++ [x] }

end CircularBuffer

/-- A thread that calls `put` waits on `notFull_`. -/
abbrev notFull_ (τ : Type) : Condition (Phase τ) := Phase.condition τ

/-- A thread that calls `take` waits on `notEmpty_`. -/
abbrev notEmpty_ : Condition (Phase Unit) := Phase.condition Unit

inductive QueueStep (τ : Type)
  | callPut (p : Nat) (x : τ)
  | put (p : Nat) (wake : Option Nat)
  | callTake (k : Nat)
  | take (k : Nat) (wake : Option Nat)
  /-- Wakeups without a signal. -/
  | wakePut (p : Nat)
  | wakeTake (k : Nat)
deriving DecidableEq

namespace BoundedBlockingQueue

structure World (τ : Type) where
  queue_ : CircularBuffer τ
  producers : List (Phase τ)
  consumers : List (Phase Unit)
  put : List τ
  taken : List τ
deriving DecidableEq

def start (τ : Type) (maxSize producers consumers : Nat) : World τ where
  queue_ := ⟨maxSize, []⟩
  producers := .replicate producers .outside
  consumers := .replicate consumers .outside
  put := []
  taken := []

/-- `put`, from the lock on, or from the end of a wait. -/
def put (p : Nat) (wake : Option Nat) (w : World τ) : Option (World τ) :=
  match w.producers[p]? with
  | some (.ready x) =>
    if w.queue_.full then some { w with producers := w.producers.set p (.waiting x) }
    else
      (notEmpty_.notify wake w.consumers).map fun consumers =>
        { w with
          queue_ := w.queue_.push_back x
          producers := w.producers.set p .outside
          consumers := consumers
          put := w.put ++ [x] }
  | _ => none

def take (k : Nat) (wake : Option Nat) (w : World τ) : Option (World τ) :=
  match w.consumers[k]? with
  | some (.ready ()) =>
    match w.queue_.elements with
    | [] => some { w with consumers := w.consumers.set k (.waiting ()) }
    | front :: rest =>
      ((notFull_ τ).notify wake w.producers).map fun producers =>
        { w with
          queue_ := { w.queue_ with elements := rest }
          producers := producers
          consumers := w.consumers.set k .outside
          taken := w.taken ++ [front] }
  | _ => none

def step (w : World τ) : QueueStep τ → Option (World τ)
  | .callPut p x =>
    (Phase.call p x w.producers).map fun producers => { w with producers := producers }
  | .put p wake => put p wake w
  | .callTake k =>
    (Phase.call k () w.consumers).map fun consumers => { w with consumers := consumers }
  | .take k wake => take k wake w
  | .wakePut p =>
    ((notFull_ τ).notify (some p) w.producers).map fun producers =>
      { w with producers := producers }
  | .wakeTake k =>
    (notEmpty_.notify (some k) w.consumers).map fun consumers => { w with consumers := consumers }

/-- What holds between two locks. -/
structure Inv (w : World τ) : Prop where
  order : w.put = w.taken ++ w.queue_.elements
  bounded : w.queue_.elements.length ≤ w.queue_.capacity
  notEmpty : notEmpty_.Served w.queue_.elements.length w.consumers
  notFull : (notFull_ τ).Served (w.queue_.capacity - w.queue_.elements.length) w.producers

variable {w w' : World τ}

theorem inv_start (maxSize producers consumers : Nat) :
    Inv (start τ maxSize producers consumers) where
  order := rfl
  bounded := Nat.zero_le _
  notEmpty := Condition.served_zero _ _
  notFull hwaits := absurd hwaits (Phase.not_someWaits_replicate producers)

theorem push_back_of_lt {b : CircularBuffer τ} (x : τ) (h : b.elements.length < b.capacity) :
    b.push_back x = { b with elements := b.elements ++ [x] } := by
  have hfull : b.full = false := beq_eq_false_iff_ne.mpr (Nat.ne_of_lt h)
  rw [CircularBuffer.push_back, hfull, if_neg Bool.false_ne_true]

theorem Inv.put {p : Nat} {wake : Option Nat} (h : Inv w) (hs : put p wake w = some w') :
    Inv w' := by
  rw [BoundedBlockingQueue.put] at hs
  split at hs
  case h_2 => exact absurd hs.symm (Option.some_ne_none _)
  case h_1 x hp =>
    by_cases hfull : w.queue_.full = true
    · rw [if_pos hfull] at hs
      obtain rfl := Option.some.inj hs
      have hroom : w.queue_.capacity - w.queue_.elements.length = 0 := by
        rw [eq_of_beq hfull, Nat.sub_self]
      refine ⟨h.order, h.bounded, h.notEmpty, ?_⟩
      rw [hroom]
      exact Condition.served_zero _ _
    · rw [if_neg hfull, Option.map_eq_some_iff] at hs
      obtain ⟨consumers, hnotify, rfl⟩ := hs
      have hlt : w.queue_.elements.length < w.queue_.capacity :=
        Nat.lt_of_le_of_ne h.bounded fun heq => hfull (beq_of_eq heq)
      have hnotEmpty := h.notEmpty.notify hnotify
      have hnotFull : (notFull_ τ).Served
          (w.queue_.capacity - (w.queue_.elements.length + 1) + 1) w.producers := by
        have hroom : w.queue_.capacity - (w.queue_.elements.length + 1) + 1 =
            w.queue_.capacity - w.queue_.elements.length := by omega
        rw [hroom]
        exact h.notFull
      rw [push_back_of_lt x hlt]
      refine ⟨?_, ?_, ?_, ?_⟩
      · show w.put ++ [x] = w.taken ++ (w.queue_.elements ++ [x])
        rw [h.order, List.append_assoc]
      · show (w.queue_.elements ++ [x]).length ≤ w.queue_.capacity
        rw [List.length_append, List.length_singleton]
        exact hlt
      · show notEmpty_.Served (w.queue_.elements ++ [x]).length consumers
        rw [List.length_append, List.length_singleton]
        exact hnotEmpty
      · show (notFull_ τ).Served (w.queue_.capacity - (w.queue_.elements ++ [x]).length)
          (w.producers.set p .outside)
        rw [List.length_append, List.length_singleton]
        exact Phase.served_leave hnotFull hp

theorem Inv.take {k : Nat} {wake : Option Nat} (h : Inv w) (hs : take k wake w = some w') :
    Inv w' := by
  rw [BoundedBlockingQueue.take] at hs
  split at hs
  case h_2 => exact absurd hs.symm (Option.some_ne_none _)
  case h_1 hk =>
    split at hs
    case h_1 hempty =>
      obtain rfl := Option.some.inj hs
      refine ⟨h.order, h.bounded, ?_, h.notFull⟩
      show notEmpty_.Served w.queue_.elements.length (w.consumers.set k (.waiting ()))
      rw [hempty]
      exact Condition.served_zero _ _
    case h_2 front rest hcons =>
      rw [Option.map_eq_some_iff] at hs
      obtain ⟨producers, hnotify, rfl⟩ := hs
      have hlength : w.queue_.elements.length = rest.length + 1 := by
        rw [hcons, List.length_cons]
      have hnotEmpty := h.notEmpty
      have hnotFull := h.notFull.notify hnotify
      have hbounded := h.bounded
      rw [hlength] at hnotEmpty hnotFull hbounded
      refine ⟨?_, Nat.le_of_succ_le hbounded, Phase.served_leave hnotEmpty hk, ?_⟩
      · show w.put = w.taken ++ [front] ++ rest
        rw [h.order, hcons, List.append_assoc, List.singleton_append]
      · have hroom : w.queue_.capacity - rest.length =
            w.queue_.capacity - (rest.length + 1) + 1 := by omega
        show (notFull_ τ).Served (w.queue_.capacity - rest.length) producers
        rw [hroom]
        exact hnotFull

theorem Inv.step {a : QueueStep τ} (h : Inv w) (hs : BoundedBlockingQueue.step w a = some w') :
    Inv w' := by
  cases a with
  | callPut p x =>
    obtain ⟨producers, hcall, rfl⟩ := Option.map_eq_some_iff.mp hs
    exact ⟨h.order, h.bounded, h.notEmpty, Phase.served_call h.notFull hcall⟩
  | put p wake => exact h.put hs
  | callTake k =>
    obtain ⟨consumers, hcall, rfl⟩ := Option.map_eq_some_iff.mp hs
    exact ⟨h.order, h.bounded, Phase.served_call h.notEmpty hcall, h.notFull⟩
  | take k wake => exact h.take hs
  | wakePut p =>
    obtain ⟨producers, hnotify, rfl⟩ := Option.map_eq_some_iff.mp hs
    exact ⟨h.order, h.bounded, h.notEmpty, (h.notFull.notify hnotify).mono (Nat.le_succ _)⟩
  | wakeTake k =>
    obtain ⟨consumers, hnotify, rfl⟩ := Option.map_eq_some_iff.mp hs
    exact ⟨h.order, h.bounded, (h.notEmpty.notify hnotify).mono (Nat.le_succ _), h.notFull⟩

/-- What a blocking queue is for. -/
structure Correct (w : World τ) : Prop where
  inOrder : w.taken <+: w.put
  kept : w.put = w.taken ++ w.queue_.elements
  bounded : w.queue_.elements.length ≤ w.queue_.capacity
  takers : ¬ notEmpty_.Stuck w.queue_.elements.length w.consumers
  putters : ¬ (notFull_ τ).Stuck (w.queue_.capacity - w.queue_.elements.length) w.producers

theorem Inv.correct (h : Inv w) : Correct w where
  inOrder := ⟨w.queue_.elements, h.order.symm⟩
  kept := h.order
  bounded := h.bounded
  takers := h.notEmpty.not_stuck
  putters := h.notFull.not_stuck

end BoundedBlockingQueue

namespace BlockingQueue

/-- The threads that put never wait; `producers` are the elements they come with. -/
structure World (τ : Type) where
  queue_ : List τ
  producers : List (Phase τ)
  consumers : List (Phase Unit)
  put : List τ
  taken : List τ
deriving DecidableEq

def start (τ : Type) (producers consumers : Nat) : World τ where
  queue_ := []
  producers := .replicate producers .outside
  consumers := .replicate consumers .outside
  put := []
  taken := []

def put (p : Nat) (wake : Option Nat) (w : World τ) : Option (World τ) :=
  match w.producers[p]? with
  | some (.ready x) =>
    (notEmpty_.notify wake w.consumers).map fun consumers =>
      { w with
        queue_ := w.queue_ ++ [x]
        producers := w.producers.set p .outside
        consumers := consumers
        put := w.put ++ [x] }
  | _ => none

def take (k : Nat) (w : World τ) : Option (World τ) :=
  match w.consumers[k]? with
  | some (.ready ()) =>
    match w.queue_ with
    | [] => some { w with consumers := w.consumers.set k (.waiting ()) }
    | front :: rest => some { w with
        queue_ := rest
        consumers := w.consumers.set k .outside
        taken := w.taken ++ [front] }
  | _ => none

/-- Nothing signals the end of a wait in `put`, as there is none. -/
def step (w : World τ) : QueueStep τ → Option (World τ)
  | .callPut p x =>
    (Phase.call p x w.producers).map fun producers => { w with producers := producers }
  | .put p wake => put p wake w
  | .callTake k =>
    (Phase.call k () w.consumers).map fun consumers => { w with consumers := consumers }
  | .take k _ => take k w
  | .wakePut _ => none
  | .wakeTake k =>
    (notEmpty_.notify (some k) w.consumers).map fun consumers => { w with consumers := consumers }

structure Inv (w : World τ) : Prop where
  order : w.put = w.taken ++ w.queue_
  notEmpty : notEmpty_.Served w.queue_.length w.consumers
  neverFull : ¬ (notFull_ τ).SomeWaits w.producers

variable {w w' : World τ}

theorem Inv.put {p : Nat} {wake : Option Nat} (h : Inv w) (hs : put p wake w = some w') :
    Inv w' := by
  rw [BlockingQueue.put] at hs
  split at hs
  case h_2 => exact absurd hs.symm (Option.some_ne_none _)
  case h_1 x hp =>
    obtain ⟨consumers, hnotify, rfl⟩ := Option.map_eq_some_iff.mp hs
    have hnotEmpty := h.notEmpty.notify hnotify
    refine ⟨?_, ?_, fun hwaits => h.neverFull (Condition.someWaits_of_set _ rfl hwaits)⟩
    · show w.put ++ [x] = w.taken ++ (w.queue_ ++ [x])
      rw [h.order, List.append_assoc]
    · show notEmpty_.Served (w.queue_ ++ [x]).length consumers
      rw [List.length_append, List.length_singleton]
      exact hnotEmpty

theorem Inv.take {k : Nat} (h : Inv w) (hs : take k w = some w') : Inv w' := by
  rw [BlockingQueue.take] at hs
  split at hs
  case h_2 => exact absurd hs.symm (Option.some_ne_none _)
  case h_1 hk =>
    split at hs
    case h_1 hempty =>
      obtain rfl := Option.some.inj hs
      refine ⟨h.order, ?_, h.neverFull⟩
      show notEmpty_.Served w.queue_.length (w.consumers.set k (.waiting ()))
      rw [hempty]
      exact Condition.served_zero _ _
    case h_2 front rest hcons =>
      obtain rfl := Option.some.inj hs
      have hnotEmpty := h.notEmpty
      rw [hcons, List.length_cons] at hnotEmpty
      refine ⟨?_, Phase.served_leave hnotEmpty hk, h.neverFull⟩
      show w.put = w.taken ++ [front] ++ rest
      rw [h.order, hcons, List.append_assoc, List.singleton_append]

theorem Inv.step {a : QueueStep τ} (h : Inv w) (hs : BlockingQueue.step w a = some w') :
    Inv w' := by
  cases a with
  | callPut p x =>
    obtain ⟨producers, hcall, rfl⟩ := Option.map_eq_some_iff.mp hs
    obtain ⟨-, rfl⟩ := Phase.call_eq hcall
    exact ⟨h.order, h.notEmpty, fun hwaits => h.neverFull (Condition.someWaits_of_set _ rfl hwaits)⟩
  | put p wake => exact h.put hs
  | callTake k =>
    obtain ⟨consumers, hcall, rfl⟩ := Option.map_eq_some_iff.mp hs
    exact ⟨h.order, Phase.served_call h.notEmpty hcall, h.neverFull⟩
  | take k _ => exact h.take hs
  | wakePut p => exact absurd hs.symm (Option.some_ne_none _)
  | wakeTake k =>
    obtain ⟨consumers, hnotify, rfl⟩ := Option.map_eq_some_iff.mp hs
    exact ⟨h.order, (h.notEmpty.notify hnotify).mono (Nat.le_succ _), h.neverFull⟩

/-- There is always room. -/
structure Correct (w : World τ) : Prop where
  inOrder : w.taken <+: w.put
  kept : w.put = w.taken ++ w.queue_
  takers : ¬ notEmpty_.Stuck w.queue_.length w.consumers
  putters : ∀ n, ¬ (notFull_ τ).Stuck n w.producers

theorem Inv.correct (h : Inv w) : Correct w where
  inOrder := ⟨w.queue_, h.order.symm⟩
  kept := h.order
  takers := h.notEmpty.not_stuck
  putters := by
    rintro n ⟨-, ⟨t, ht, hinside⟩, hall⟩
    exact h.neverFull ⟨t, ht, hall t ht hinside⟩

end BlockingQueue

/-- Both queues are correct monitors, for any number of threads and in every order of
their steps. -/
theorem blockingQueues_correct (τ : Type) (maxSize producers consumers : Nat) :
    (∀ w, Reaches BoundedBlockingQueue.step
      (BoundedBlockingQueue.start τ maxSize producers consumers) w →
        BoundedBlockingQueue.Correct w) ∧
    ∀ w, Reaches BlockingQueue.step (BlockingQueue.start τ producers consumers) w →
      BlockingQueue.Correct w := by
  constructor
  · intro w hr
    have hstep : ∀ w a w', BoundedBlockingQueue.Inv w → BoundedBlockingQueue.step w a = some w' →
        BoundedBlockingQueue.Inv (τ := τ) w' := fun _ _ _ h hs => h.step hs
    have hinv := reaches_invariant _ hstep (BoundedBlockingQueue.inv_start _ _ _) hr
    exact hinv.correct
  · intro w hr
    have hstep : ∀ w a w', BlockingQueue.Inv w → BlockingQueue.step w a = some w' →
        BlockingQueue.Inv (τ := τ) w' := fun _ _ _ h hs => h.step hs
    have hstart : BlockingQueue.Inv (BlockingQueue.start τ producers consumers) :=
      ⟨rfl, Condition.served_zero _ _, Phase.not_someWaits_replicate producers⟩
    have hinv := reaches_invariant _ hstep hstart hr
    exact hinv.correct

/-- A consumer comes first, waits, and gets the element. -/
theorem blockingQueues_correct_one :
    BoundedBlockingQueue.Correct (τ := Nat)
      ⟨⟨1, []⟩, [.outside], [.outside], [7], [7]⟩ ∧
    BlockingQueue.Correct (τ := Nat) ⟨[], [.outside], [.outside], [7], [7]⟩ :=
  ⟨(blockingQueues_correct Nat 1 1 1).1 _
      ⟨[.callTake 0, .take 0 none, .callPut 0 7, .put 0 (some 0), .take 0 none], rfl⟩,
    (blockingQueues_correct Nat 1 1 1).2 _
      ⟨[.callTake 0, .take 0 none, .callPut 0 7, .put 0 (some 0), .take 0 none], rfl⟩⟩

end Cnet.Base
