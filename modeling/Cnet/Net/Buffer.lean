import Cnet.Support.Memory

/-!
# The network buffer, index by index

`Buffer` is a vector and two indices into it. Every operation below follows the
member function of the same name: sizes are `size_t`, asserts are checked, and
every access to the vector is bounds-checked, so `none` is a failed assert or an
access outside `buffer_`. Pointers into the vector are offsets from `begin()`.
-/

namespace Cnet.Net

open Cnet.Support

abbrev Byte := UInt8
abbrev Bytes := List UInt8

structure Buffer where
  buffer_ : List Byte
  readerIndex_ : Nat
  writerIndex_ : Nat
deriving DecidableEq, Repr

namespace Buffer

def kCheapPrepend : Nat := 8
def kInitialSize : Nat := 1024

/-- `sizeof extrabuf` in `readFd`. -/
def extrabufSize : Nat := 65536

def readableBytes (b : Buffer) : Nat := subWord b.writerIndex_ b.readerIndex_
def writableBytes (b : Buffer) : Nat := subWord b.buffer_.length b.writerIndex_
def prependableBytes (b : Buffer) : Nat := b.readerIndex_
def peek (b : Buffer) : Nat := b.readerIndex_
def beginWrite (b : Buffer) : Nat := b.writerIndex_

/-- The constructor, with the three asserts of its body. -/
def new (initialSize : Nat) : Option Buffer := do
  let b : Buffer := {
    buffer_ := List.replicate (addWord kCheapPrepend initialSize) 0
    readerIndex_ := kCheapPrepend
    writerIndex_ := kCheapPrepend }
  assert (b.readableBytes = 0)
  assert (b.writableBytes = initialSize)
  assert (b.prependableBytes = kCheapPrepend)
  return b

def retrieveAll (b : Buffer) : Buffer :=
  { b with readerIndex_ := kCheapPrepend, writerIndex_ := kCheapPrepend }

def retrieve (b : Buffer) (len : Nat) : Option Buffer := do
  assert (len ≤ b.readableBytes)
  if len < b.readableBytes then
    return { b with readerIndex_ := addWord b.readerIndex_ len }
  else
    return b.retrieveAll

def retrieveUntil (b : Buffer) (stop : Nat) : Option Buffer := do
  assert (b.peek ≤ stop)
  assert (stop ≤ b.beginWrite)
  b.retrieve (subWord stop b.peek)

def retrieveAsString (b : Buffer) (len : Nat) : Option (Bytes × Buffer) := do
  assert (len ≤ b.readableBytes)
  let result ← load b.buffer_ b.peek len
  let b ← b.retrieve len
  return (result, b)

def retrieveAllAsString (b : Buffer) : Option (Bytes × Buffer) :=
  b.retrieveAsString b.readableBytes

/-- Grow the vector, or move the readable bytes down to `kCheapPrepend`. -/
def makeSpace (b : Buffer) (len : Nat) : Option Buffer := do
  if addWord b.writableBytes b.prependableBytes < addWord len kCheapPrepend then
    -- vector::resize, here always to a larger size: the new cells are zero
    let size := addWord b.writerIndex_ len
    return { b with buffer_ := b.buffer_.take size ++ List.replicate (size - b.buffer_.length) 0 }
  else
    assert (kCheapPrepend < b.readerIndex_)
    let readable := b.readableBytes
    let content ← load b.buffer_ b.readerIndex_ readable
    let cells ← store b.buffer_ kCheapPrepend content
    let b : Buffer := {
      buffer_ := cells
      readerIndex_ := kCheapPrepend
      writerIndex_ := addWord kCheapPrepend readable }
    assert (readable = b.readableBytes)
    return b

def enuserWritableBytes (b : Buffer) (len : Nat) : Option Buffer := do
  let b ← if b.writableBytes < len then b.makeSpace len else some b
  assert (len ≤ b.writableBytes)
  return b

def hasWritten (b : Buffer) (len : Nat) : Option Buffer := do
  assert (len ≤ b.writableBytes)
  return { b with writerIndex_ := addWord b.writerIndex_ len }

def unwrite (b : Buffer) (len : Nat) : Option Buffer := do
  assert (len ≤ b.readableBytes)
  return { b with writerIndex_ := subWord b.writerIndex_ len }

def append (b : Buffer) (data : Bytes) : Option Buffer := do
  let b ← b.enuserWritableBytes data.length
  let cells ← store b.buffer_ b.beginWrite data
  hasWritten { b with buffer_ := cells } data.length

def prepend (b : Buffer) (data : Bytes) : Option Buffer := do
  assert (data.length ≤ b.prependableBytes)
  let reader := subWord b.readerIndex_ data.length
  let cells ← store b.buffer_ reader data
  return { b with buffer_ := cells, readerIndex_ := reader }

/-- User code that fills `data` in at `beginWrite()` and then reports `len` bytes. -/
def writeThenHasWritten (b : Buffer) (data : Bytes) (len : Nat) : Option Buffer := do
  let cells ← store b.buffer_ b.beginWrite data
  hasWritten { b with buffer_ := cells } len

/-- What `readv(2)` gives back: the bytes it scattered, or an error. -/
inductive ReadvResult
  | bytes (data : Bytes)
  | error
deriving DecidableEq, Repr

/-- The room `readFd` offers to `readv(2)`: `extrabuf` joins in when the buffer is short. -/
def readvRoom (b : Buffer) : Nat :=
  if b.writableBytes < extrabufSize then b.writableBytes + extrabufSize else b.writableBytes

/-- `readFd`. The kernel fills the writable cells first and `extrabuf` after them. -/
def readFd (b : Buffer) (r : ReadvResult) : Option Buffer := do
  let writable := b.writableBytes
  match r with
  | .error => return b
  | .bytes data =>
    let cells ← store b.buffer_ b.writerIndex_ (data.take writable)
    let b := { b with buffer_ := cells }
    if data.length ≤ writable then
      return { b with writerIndex_ := addWord b.writerIndex_ data.length }
    else
      append { b with writerIndex_ := b.buffer_.length } (data.drop writable)

/-- The bytes between the two indices. -/
def readable (b : Buffer) : Bytes := slice b.buffer_ b.readerIndex_ b.writerIndex_

end Buffer

end Cnet.Net
