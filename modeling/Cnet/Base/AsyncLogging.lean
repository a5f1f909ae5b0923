import Cnet.Support.Memory

/-!
# The asynchronous log

`World` is an `AsyncLogging`: the four buffer slots, `buffers_` and `buffersToWrite`, the
position of `threadFunc`, and what went into `append` and out to `LogFile::append`. A
step is what happens under one lock of the mutex, or one statement of the thread outside
it; `append` may be called from any thread at any time. An assert that fails and a null
pointer that is used have no result.

A line carries the number of its `append` call, which tells equal lines apart.
-/

namespace Cnet.Base

open Cnet.Support

def kLargeBuffer : Nat := 4000 * 1000

/-- One `append`: its number, and the bytes of `logline`. -/
structure Line where
  seq : Nat
  data : List UInt8
deriving DecidableEq, Repr

def Line.length (l : Line) : Nat := l.data.length

/-- The number of bytes of the lines. -/
def bytes : List Line → Nat
  | [] => 0
  | l :: lines => l.length + bytes lines

theorem bytes_append (a b : List Line) : bytes (a ++ b) = bytes a + bytes b := by
  induction a with
  | nil => exact (Nat.zero_add _).symm
  | cons l a ih =>
    rw [List.cons_append, bytes, bytes, ih]
    omega

/-- A `FixedBuffer<kLargeBuffer>`, as the lines in it; `cur_` stays inside `data_`. -/
structure FixedBuffer where
  lines : List Line
  inside : bytes lines ≤ kLargeBuffer
deriving DecidableEq

namespace FixedBuffer

def empty : FixedBuffer := ⟨[], Nat.zero_le _⟩

def length (b : FixedBuffer) : Nat := bytes b.lines

def avail (b : FixedBuffer) : Nat := kLargeBuffer - b.length

theorem inside_append {b : FixedBuffer} {l : Line} (h : l.length < b.avail) :
    bytes (b.lines ++ [l]) ≤ kLargeBuffer := by
  rw [bytes_append]
  rw [avail, length] at h
  show bytes b.lines + (l.length + 0) ≤ kLargeBuffer
  omega

/-- A line that does not fit is dropped. -/
def append (b : FixedBuffer) (l : Line) : FixedBuffer :=
  if h : l.length < b.avail then ⟨b.lines ++ [l], inside_append h⟩ else b

def reset (_ : FixedBuffer) : FixedBuffer := empty

end FixedBuffer

/-- The lines in a batch of buffers. -/
def linesOf (buffers : List FixedBuffer) : List Line := buffers.flatMap FixedBuffer.lines

/-- Where `threadFunc` is. -/
inductive Position
  /-- Before `start()`. -/
  | unstarted
  | entry
  /-- At the test of the `while`. -/
  | test
  /-- At the top of an iteration, before the lock. -/
  | lock
  /-- In `waitForSeconds`. -/
  | waiting
  /-- After the swap, at the test of the size. -/
  | swapped
  /-- In the loop over the batch. -/
  | write (i : Nat)
  /-- After the loop. -/
  | refill
  | exited
deriving DecidableEq, Repr

/-- A call of `LogFile::append`. -/
inductive Output
  | buffer (b : FixedBuffer)
  | notice (text : String)
deriving DecidableEq

structure World where
  -- AsyncLogging
  running_ : Bool
  currentBuffer_ : Option FixedBuffer
  nextBuffer_ : Option FixedBuffer
  buffers_ : List FixedBuffer
  -- threadFunc
  position : Position
  newBuffer1 : Option FixedBuffer
  newBuffer2 : Option FixedBuffer
  buffersToWrite : List FixedBuffer
  output : List Output
  -- the lines appended, the sizes of the batches, and what was erased from them
  appended : List Line
  swaps : List Nat
  erased : List FixedBuffer
deriving DecidableEq

namespace World

def new : World where
  running_ := false
  currentBuffer_ := some .empty
  nextBuffer_ := some .empty
  buffers_ := []
  position := .unstarted
  newBuffer1 := none
  newBuffer2 := none
  buffersToWrite := []
  output := []
  appended := []
  swaps := []
  erased := []

/-- `append`, under the lock. -/
def append (logline : List UInt8) (w : World) : Option World :=
  let l : Line := ⟨w.appended.length, logline⟩
  let w := { w with appended := w.appended ++ [l] }
  w.currentBuffer_.map fun current =>
    if l.length < current.avail then { w with currentBuffer_ := some (current.append l) }
    else
      { w with
        buffers_ := w.buffers_ ++ [current]
        currentBuffer_ := some ((w.nextBuffer_.getD .empty).append l)
        nextBuffer_ := none }

/-- The rest of the locked block of `threadFunc`, after the wait. -/
def swapBuffers (w : World) : Option World :=
  w.currentBuffer_.map fun current =>
    { w with
      currentBuffer_ := w.newBuffer1
      newBuffer1 := none
      buffersToWrite := w.buffers_ ++ [current]
      buffers_ := w.buffersToWrite
      nextBuffer_ := if w.nextBuffer_.isNone then w.newBuffer2 else w.nextBuffer_
      newBuffer2 := if w.nextBuffer_.isNone then none else w.newBuffer2
      swaps := w.swaps ++ [(w.buffers_ ++ [current]).length]
      position := .swapped }

def dropNotice (now : String) (size : Nat) : String :=
  "Dropped log mesages at " ++ now ++ ", " ++ toString (size - 2) ++ " larger buffers\n"

/-- A batch of more than 25 buffers is cut to two. -/
def cut (now : String) (w : World) : World :=
  if 25 < w.buffersToWrite.length then
    { w with
      output := w.output ++ [.notice (dropNotice now w.buffersToWrite.length)]
      erased := w.erased ++ w.buffersToWrite.drop 2
      buffersToWrite := w.buffersToWrite.take 2 }
  else w

/-- A spare buffer that is missing is taken from the end of the batch. -/
def refillSpare (spare : Option FixedBuffer) (batch : List FixedBuffer) :
    Option (Option FixedBuffer × List FixedBuffer) :=
  match spare with
  | some b => some (some b, batch)
  | none => batch.getLast?.map fun b => (some b.reset, batch.dropLast)

/-- The end of an iteration. -/
def refill (w : World) : Option World := do
  let (newBuffer1, batch) ← refillSpare w.newBuffer1 (w.buffersToWrite.take 2)
  let (newBuffer2, _) ← refillSpare w.newBuffer2 batch
  some { w with
    newBuffer1 := newBuffer1
    newBuffer2 := newBuffer2
    buffersToWrite := []
    position := .test }

/-- The buffer is there, and empty. -/
def isSpare (b : Option FixedBuffer) : Bool := b.any fun b => b.length = 0

/-- What `threadFunc` does next; `now` is the time that a notice would say. -/
def next (now : String) (w : World) : Option World :=
  match w.position with
  | .unstarted | .exited => none
  | .entry => do
      assert (w.running_ = true)
      some { w with newBuffer1 := some .empty, newBuffer2 := some .empty, position := .test }
  | .test =>
      if w.running_ then do
        assert (isSpare w.newBuffer1)
        assert (isSpare w.newBuffer2)
        assert (w.buffersToWrite = [])
        some { w with position := .lock }
      else some { w with position := .exited }
  | .lock => if w.buffers_.isEmpty then some { w with position := .waiting } else w.swapBuffers
  | .waiting => w.swapBuffers
  | .swapped => do
      assert (w.buffersToWrite ≠ [])
      some { w.cut now with position := .write 0 }
  | .write i =>
      match w.buffersToWrite[i]? with
      | some b => some { w with output := w.output ++ [.buffer b], position := .write (i + 1) }
      | none => some { w with position := .refill }
  | .refill => w.refill

end World

inductive Step
  | append (logline : List UInt8)
  | start
  /-- `stop()`, as far as its `join()`; it returns when the thread has exited. -/
  | stop
  | next (now : String)
deriving DecidableEq, Repr

namespace World

/-- `start()` returns, and `stop()` may be called, when the thread has counted the latch
down. -/
def step (w : World) : Step → Option World
  | .append logline => w.append logline
  | .start =>
      if w.position = .unstarted then some { w with running_ := true, position := .entry } else none
  | .stop =>
      if w.position ≠ .unstarted ∧ w.position ≠ .entry ∧ w.running_ = true then
        some { w with running_ := false }
      else none
  | .next now => w.next now

end World

end Cnet.Base
