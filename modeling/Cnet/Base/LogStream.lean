import Cnet.Support.CharArray
import Cnet.Base.Format

/-!
# The log stream

`LogStream` puts pieces of text into a buffer of fixed size. Pieces are written in place,
byte by byte where the code does so; a write outside `data_` has no result.
-/

namespace Cnet.Base

open Cnet.Support

def kSmallBuffer : Nat := 4000

abbrev SmallArray := CharArray kSmallBuffer

/-- `LogStream::Buffer`, a `FixedBuffer<kSmallBuffer>`. `cur_` is an offset from `data_`. -/
structure LogStream.Buffer where
  data_ : SmallArray
  cur_ : Nat
deriving DecidableEq

namespace LogStream.Buffer

def avail (b : Buffer) : Int := kSmallBuffer - b.cur_

def length (b : Buffer) : Nat := b.cur_

/-- `implicit_cast<size_t>(avail())`. -/
def availSize (b : Buffer) : Nat := (b.avail % wordSize).toNat

def append (b : Buffer) (buf : List UInt8) : Option Buffer :=
  if b.availSize > buf.length then do
    let data_ ← b.data_.write b.cur_ buf
    some ⟨data_, b.cur_ + buf.length⟩
  else some b

def add (b : Buffer) (len : Nat) : Buffer := { b with cur_ := b.cur_ + len }

def reset (b : Buffer) : Buffer := { b with cur_ := 0 }

end LogStream.Buffer

def digits : List UInt8 := chars "9876543210123456789"

/-- `zero[lsd]`, where `zero` is `digits + 9`. -/
def zero (lsd : Int) : Option UInt8 := if 0 ≤ 9 + lsd then digits[(9 + lsd).toNat]? else none

def digitsHex : List UInt8 := chars "0123456789ABCDEF"

def hex (lsd : Int) : Option UInt8 := if 0 ≤ lsd then digitsHex[lsd.toNat]? else none

/-- The loop of `convert` and `converHex`: the digits of `i` in base `base`, the last one
first. Every iteration brings `i` nearer to zero. -/
def putDigits (base : Int) (digit : Int → Option UInt8) :
    Nat → SmallArray → Nat → Int → Option (SmallArray × Nat)
  | 0, _, _, _ => none
  | fuel + 1, buf, p, i => do
    let c ← digit (i.tmod base)
    let buf ← buf.write p [c]
    if i.tdiv base ≠ 0 then putDigits base digit fuel buf (p + 1) (i.tdiv base)
    else some (buf, p + 1)

/-- `if (value < 0) *p++ = '-'`. -/
def putSign (value : Int) (a : SmallArray) (p : Nat) : Option (SmallArray × Nat) :=
  if value < 0 then (a.write p (chars "-")).map fun a => (a, p + 1) else some (a, p)

/-- The end of `convert` and of `converHex`: a terminator, and the digits put in order. -/
def reverseDigits (a : SmallArray) (buf p : Nat) : Option (SmallArray × Nat) := do
  let a ← a.write p [0]
  let a ← a.reverse buf p
  some (a, p - buf)

/-- `convert`, on the array that `buf` points into, with the length returned. -/
def convert (a : SmallArray) (buf : Nat) (value : Int) : Option (SmallArray × Nat) := do
  let (a, p) ← putDigits 10 zero (value.natAbs + 1) a buf value
  let (a, p) ← putSign value a p
  reverseDigits a buf p

def converHex (a : SmallArray) (buf : Nat) (value : UInt64) : Option (SmallArray × Nat) := do
  let (a, p) ← putDigits 16 hex (value.toNat + 1) a buf value.toNat
  reverseDigits a buf p

/-- A `Fmt`: its constructor asserts the length. -/
structure Fmt where
  text : List UInt8
  length_lt : text.length < 32
deriving DecidableEq

/-- What is inserted, one constructor for an overload of `<<`. A `const unsigned char*` is
a `cString`, and a `Buffer` the `stringPiece` of what is in it. -/
inductive Piece where
  | bool (v : Bool)
  | short (v : Int16)
  | unsignedShort (v : UInt16)
  | int (v : Int32)
  | unsignedInt (v : UInt32)
  | long (v : Int64)
  | unsignedLong (v : UInt64)
  | longLong (v : Int64)
  | unsignedLongLong (v : UInt64)
  | pointer (p : UInt64)
  | float (v : Float32)
  | double (v : Float)
  | char (v : UInt8)
  /-- A null pointer, or one to characters that a zero ends. -/
  | cString (str : Option (List UInt8))
  | string (v : List UInt8)
  | stringPiece (v : List UInt8)
  | fmt (v : Fmt)

structure LogStream where
  buffer_ : LogStream.Buffer
deriving DecidableEq

namespace LogStream

def kMaxNumericSize : Nat := 32

/-- `append(data, len)`. -/
def append (s : LogStream) (data : List UInt8) : Option LogStream := do
  let buffer_ ← s.buffer_.append data
  some ⟨buffer_⟩

def formatInteger (s : LogStream) (v : Int) : Option LogStream :=
  if s.buffer_.avail ≥ kMaxNumericSize then do
    let (data_, len) ← convert s.buffer_.data_ s.buffer_.cur_ v
    some ⟨{ s.buffer_ with data_ := data_ }.add len⟩
  else some s

def insertPointer (s : LogStream) (v : UInt64) : Option LogStream :=
  if s.buffer_.avail ≥ kMaxNumericSize then do
    let buf := s.buffer_.cur_
    let data_ ← s.buffer_.data_.write buf (chars "0x")
    let (data_, len) ← converHex data_ (buf + 2) v
    some ⟨{ s.buffer_ with data_ := data_ }.add (len + 2)⟩
  else some s

/-- `snprintf(current(), kMaxNumericSize, …)`: it writes what fits and a zero, and returns
the length of the whole text. -/
def insertDouble (format : Float → List UInt8) (s : LogStream) (v : Float) : Option LogStream :=
  if s.buffer_.avail > kMaxNumericSize then do
    let data_ ← s.buffer_.data_.write s.buffer_.cur_
      ((format v).take (kMaxNumericSize - 1) ++ [0])
    some ⟨{ s.buffer_ with data_ := data_ }.add (format v).length⟩
  else some s

/-- `operator<<`. `format` is the text of a number under `"%.12g"`. -/
def insert (format : Float → List UInt8) (s : LogStream) : Piece → Option LogStream
  | .bool v => s.append (if v then chars "1" else chars "0")
  | .short v => s.formatInteger v.toInt
  | .unsignedShort v => s.formatInteger v.toNat
  | .int v => s.formatInteger v.toInt
  | .unsignedInt v => s.formatInteger v.toNat
  | .long v => s.formatInteger v.toInt
  | .unsignedLong v => s.formatInteger v.toNat
  | .longLong v => s.formatInteger v.toInt
  | .unsignedLongLong v => s.formatInteger v.toNat
  | .pointer p => s.insertPointer p
  | .float v => s.insertDouble format v.toFloat
  | .double v => s.insertDouble format v
  | .char v => s.append [v]
  | .cString (some str) => s.append str
  | .cString none => s.append (chars "(null)")
  | .string v => s.append v
  | .stringPiece v => s.append v
  | .fmt v => s.append v.text

def insertAll (format : Float → List UInt8) (s : LogStream) : List Piece → Option LogStream
  | [] => some s
  | p :: pieces => (s.insert format p).bind fun s => s.insertAll format pieces

/-- What is in the buffer. -/
def content (s : LogStream) : List UInt8 := s.buffer_.data_.cells.take s.buffer_.cur_

/-- A new stream; the array starts with anything in it. -/
def new (data_ : SmallArray) : LogStream := ⟨⟨data_, 0⟩⟩

end LogStream

end Cnet.Base
