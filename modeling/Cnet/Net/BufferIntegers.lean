import Mathlib.Algebra.Ring.Nat
import Cnet.Net.BufferRefinement
import Cnet.Net.Endian

/-!
# Integers in a buffer

Integers are put into a buffer, and taken out of it, in network byte order. The members for
the four widths do the same at their own width, but for those of 8 bits, which convert
nothing.
-/

namespace Cnet.Net

open Cnet.Support
open sockets

/-- The two's complement of `v` in `size` bytes. -/
def twosComplement (size : Nat) (v : Int) : Nat := (v % (256 ^ size : Nat)).toNat

theorem twosComplement_toInt {size w : Nat} (hw : 2 ^ w = 256 ^ size) (v : BitVec w) :
    twosComplement size v.toInt = v.toNat := by
  rw [twosComplement, ← hw, ← BitVec.toNat_ofInt, BitVec.ofInt_toInt]

/-- A signed type: its size, the number in memory after `hostToNetwork`, and the value from
the number in memory before `networkToHost`. -/
structure IntType (α : Type) where
  size : Nat
  toInt : α → Int
  toNetwork : Endian → α → Nat
  ofNetwork : Endian → Nat → α
  network : ∀ host x, toNetwork host x = host.convert size (twosComplement size (toInt x))
  host : ∀ host x, ofNetwork host (host.value (bigBytes size (twosComplement size (toInt x)))) = x

/-- The bytes of an integer in network byte order. -/
def IntType.encode {α : Type} (T : IntType α) (x : α) : Bytes :=
  bigBytes T.size (twosComplement T.size (T.toInt x))

/-! ## The four widths -/

def toNetwork64 (host : Endian) (x : Int64) : Nat :=
  (hostToNetwork64 host x.toUInt64).toInt64.toUInt64.toNat

def ofNetwork64 (host : Endian) (be64 : Nat) : Int64 :=
  (networkToHost64 host (UInt64.ofNat be64).toInt64.toUInt64).toInt64

def toNetwork32 (host : Endian) (x : Int32) : Nat :=
  (hostToNetwork32 host x.toUInt32).toInt32.toUInt32.toNat

def ofNetwork32 (host : Endian) (be32 : Nat) : Int32 :=
  (networkToHost32 host (UInt32.ofNat be32).toInt32.toUInt32).toInt32

def toNetwork16 (host : Endian) (x : Int16) : Nat :=
  (hostToNetwork16 host x.toUInt16).toInt16.toUInt16.toNat

def ofNetwork16 (host : Endian) (be16 : Nat) : Int16 :=
  (networkToHost16 host (UInt16.ofNat be16).toInt16.toUInt16).toInt16

def toNetwork8 (_ : Endian) (x : Int8) : Nat := x.toUInt8.toNat

def ofNetwork8 (_ : Endian) (x : Nat) : Int8 := (UInt8.ofNat x).toInt8

theorem network64 (host : Endian) (x : Int64) :
    toNetwork64 host x = host.convert 8 (twosComplement 8 x.toInt) := by
  have hx : twosComplement 8 x.toInt = x.toUInt64.toNat := twosComplement_toInt rfl x.toBitVec
  rw [toNetwork64, UInt64.toUInt64_toInt64, toNat_hostToNetwork64, hx]

theorem network32 (host : Endian) (x : Int32) :
    toNetwork32 host x = host.convert 4 (twosComplement 4 x.toInt) := by
  have hx : twosComplement 4 x.toInt = x.toUInt32.toNat := twosComplement_toInt rfl x.toBitVec
  rw [toNetwork32, UInt32.toUInt32_toInt32, toNat_hostToNetwork32, hx]

theorem network16 (host : Endian) (x : Int16) :
    toNetwork16 host x = host.convert 2 (twosComplement 2 x.toInt) := by
  have hx : twosComplement 2 x.toInt = x.toUInt16.toNat := twosComplement_toInt rfl x.toBitVec
  rw [toNetwork16, UInt16.toUInt16_toInt16, toNat_hostToNetwork16, hx]

theorem network8 (host : Endian) (x : Int8) :
    toNetwork8 host x = host.convert 1 (twosComplement 1 x.toInt) := by
  have hx : twosComplement 1 x.toInt = x.toUInt8.toNat := twosComplement_toInt rfl x.toBitVec
  rw [toNetwork8, hx, Endian.convert_one host x.toUInt8.toNat_lt]

theorem host64 (host : Endian) (x : Int64) :
    ofNetwork64 host (host.value (bigBytes 8 (twosComplement 8 x.toInt))) = x := by
  have hx : twosComplement 8 x.toInt = x.toUInt64.toNat := twosComplement_toInt rfl x.toBitVec
  rw [ofNetwork64, UInt64.toUInt64_toInt64, hx, networkToHost64_value, Int64.toInt64_toUInt64]

theorem host32 (host : Endian) (x : Int32) :
    ofNetwork32 host (host.value (bigBytes 4 (twosComplement 4 x.toInt))) = x := by
  have hx : twosComplement 4 x.toInt = x.toUInt32.toNat := twosComplement_toInt rfl x.toBitVec
  rw [ofNetwork32, UInt32.toUInt32_toInt32, hx, networkToHost32_value, Int32.toInt32_toUInt32]

theorem host16 (host : Endian) (x : Int16) :
    ofNetwork16 host (host.value (bigBytes 2 (twosComplement 2 x.toInt))) = x := by
  have hx : twosComplement 2 x.toInt = x.toUInt16.toNat := twosComplement_toInt rfl x.toBitVec
  rw [ofNetwork16, UInt16.toUInt16_toInt16, hx, networkToHost16_value, Int16.toInt16_toUInt16]

theorem host8 (host : Endian) (x : Int8) :
    ofNetwork8 host (host.value (bigBytes 1 (twosComplement 1 x.toInt))) = x := by
  have hx : twosComplement 1 x.toInt = x.toUInt8.toNat := twosComplement_toInt rfl x.toBitVec
  have hvalue := host.convert_value 1 x.toUInt8.toNat x.toUInt8.toNat_lt
  rw [Endian.convert_one host (host.value_lt _)] at hvalue
  rw [ofNetwork8, hx, hvalue, UInt8.ofNat_toNat, Int8.toInt8_toUInt8]

def int64 : IntType Int64 where
  size := 8
  toInt := Int64.toInt
  toNetwork := toNetwork64
  ofNetwork := ofNetwork64
  network := network64
  host := host64

def int32 : IntType Int32 where
  size := 4
  toInt := Int32.toInt
  toNetwork := toNetwork32
  ofNetwork := ofNetwork32
  network := network32
  host := host32

def int16 : IntType Int16 where
  size := 2
  toInt := Int16.toInt
  toNetwork := toNetwork16
  ofNetwork := ofNetwork16
  network := network16
  host := host16

def int8 : IntType Int8 where
  size := 1
  toInt := Int8.toInt
  toNetwork := toNetwork8
  ofNetwork := ofNetwork8
  network := network8
  host := host8

namespace Buffer

section Members

variable {α : Type} (T : IntType α) (host : Endian)

/-- `append(&be, sizeof(be))` -/
def appendInt (b : Buffer) (x : α) : Option Buffer :=
  b.append (host.bytes T.size (T.toNetwork host x))

/-- `memcpy(&be, peek(), sizeof be)` -/
def peekInt (b : Buffer) : Option α := do
  assert (T.size ≤ b.readableBytes)
  let be ← load b.buffer_ b.peek T.size
  return T.ofNetwork host (host.value be)

def retrieveInt (b : Buffer) : Option Buffer := b.retrieve T.size

def readInt (b : Buffer) : Option (α × Buffer) := do
  let result ← b.peekInt T host
  let b ← b.retrieveInt T
  return (result, b)

/-- `prepend(&be, sizeof be)` -/
def prependInt (b : Buffer) (x : α) : Option Buffer :=
  b.prepend (host.bytes T.size (T.toNetwork host x))

end Members

variable (host : Endian)

def appendInt64 : Buffer → Int64 → Option Buffer := appendInt int64 host
def appendInt32 : Buffer → Int32 → Option Buffer := appendInt int32 host
def appendInt16 : Buffer → Int16 → Option Buffer := appendInt int16 host
def appendInt8 : Buffer → Int8 → Option Buffer := appendInt int8 host

def retrieveInt64 : Buffer → Option Buffer := retrieveInt int64
def retrieveInt32 : Buffer → Option Buffer := retrieveInt int32
def retrieveInt16 : Buffer → Option Buffer := retrieveInt int16
def retrieveInt8 : Buffer → Option Buffer := retrieveInt int8

def peekInt64 : Buffer → Option Int64 := peekInt int64 host
def peekInt32 : Buffer → Option Int32 := peekInt int32 host
def peekInt16 : Buffer → Option Int16 := peekInt int16 host
def peekInt8 : Buffer → Option Int8 := peekInt int8 host

def readInt64 : Buffer → Option (Int64 × Buffer) := readInt int64 host
def readInt32 : Buffer → Option (Int32 × Buffer) := readInt int32 host
def readInt16 : Buffer → Option (Int16 × Buffer) := readInt int16 host
def readInt8 : Buffer → Option (Int8 × Buffer) := readInt int8 host

def prependInt64 : Buffer → Int64 → Option Buffer := prependInt int64 host
def prependInt32 : Buffer → Int32 → Option Buffer := prependInt int32 host
def prependInt16 : Buffer → Int16 → Option Buffer := prependInt int16 host
def prependInt8 : Buffer → Int8 → Option Buffer := prependInt int8 host

/-! ## What they do -/

section Spec

variable {α : Type} (T : IntType α) (host : Endian) {b : Buffer}

theorem bytes_toNetwork (x : α) : host.bytes T.size (T.toNetwork host x) = T.encode x := by
  rw [T.network, host.bytes_convert]
  rfl

/-- A size that fits one place further on fits. -/
theorem fits_of_writer {len : Nat} (hlen : len ≤ kCheapPrepend)
    (hfit : b.writerIndex_ + len < wordSize) : b.Fits len := by
  intro _
  have hk : kCheapPrepend = 8 := rfl
  have hword : wordSize = 18446744073709551616 := rfl
  exact ⟨by omega, hfit⟩

variable (h : b.Indexed)
include h

theorem appendInt_spec (x : α) (hsize : T.size ≤ kCheapPrepend)
    (hfit : b.writerIndex_ + T.size < wordSize) :
    ∃ b', b.appendInt T host x = some b' ∧ b'.Indexed ∧ b'.readable = b.readable ++ T.encode x ∧
      b'.writerIndex_ ≤ b.writerIndex_ + T.size := by
  have hlen : (T.encode x).length = T.size := length_bigBytes _ _
  have hfits : b.Fits (T.encode x).length := hlen.symm ▸ fits_of_writer hsize hfit
  obtain ⟨b', ha, hi, hread⟩ := append_spec h hfits
  have hwriter := writerIndex_append h ha
  rw [hlen] at hwriter
  refine ⟨b', ?_, hi, hread, hwriter⟩
  rw [appendInt, bytes_toNetwork, ha]

theorem prependInt_spec (x : α) (hroom : T.size ≤ b.prependableBytes) :
    ∃ b', b.prependInt T host x = some b' ∧ b'.Indexed ∧
      b'.readable = T.encode x ++ b.readable := by
  have hlen : (T.encode x).length = T.size := length_bigBytes _ _
  rw [← hlen] at hroom
  obtain ⟨b', hp, hi, hread⟩ := prepend_spec h hroom
  refine ⟨b', ?_, hi, hread⟩
  rw [prependInt, bytes_toNetwork, hp]

theorem peekInt_eq (hlen : T.size ≤ b.readableBytes) :
    b.peekInt T host = some (T.ofNetwork host (host.value (b.readable.take T.size))) := by
  have hr := h.readableBytes_eq
  have hord := h.ordered
  have hb := h.bounded
  have hload : load b.buffer_ b.peek T.size = some (b.readable.take T.size) := by
    rw [load_of_le (by unfold peek; omega), readable, take_slice _ (by omega)]
    rfl
  rw [peekInt, assert_pos hlen, hload]
  rfl

/-- An integer is read back from its bytes, and what comes after them is left. -/
theorem readInt_encode (x : α) {rest : Bytes} (hread : b.readable = T.encode x ++ rest) :
    ∃ b', b.readInt T host = some (x, b') ∧ b'.Indexed ∧ b'.readable = rest := by
  have hsize : (T.encode x).length = T.size := length_bigBytes _ _
  have hlen : T.size ≤ b.readableBytes := by
    rw [← h.length_readable, hread, List.length_append]
    omega
  obtain ⟨b', he, hi, hdrop⟩ := retrieve_spec h hlen
  refine ⟨b', ?_, hi, ?_⟩
  · have hvalue : T.ofNetwork host (host.value (T.encode x)) = x := T.host host x
    rw [readInt, peekInt_eq T host h hlen, hread, List.take_left' hsize, hvalue]
    simp only [Option.bind_eq_bind, Option.bind_some, retrieveInt, he]
    rfl
  · rw [hdrop, hread, List.drop_left' hsize]

/-- `peek` gives what `read` gives, and fails where it fails. -/
theorem peekInt_eq_readInt : b.peekInt T host = (b.readInt T host).map Prod.fst := by
  by_cases hlen : T.size ≤ b.readableBytes
  · obtain ⟨b', he, -⟩ := retrieve_spec h hlen
    rw [readInt, peekInt_eq T host h hlen]
    simp only [Option.bind_eq_bind, Option.bind_some, retrieveInt, he]
    rfl
  · have hpeek : b.peekInt T host = none := by
      rw [peekInt, assert, if_neg hlen]
      rfl
    rw [readInt, hpeek]
    rfl

end Spec

end Buffer

/-! ## Integers of mixed widths -/

inductive Width
  | bits8
  | bits16
  | bits32
  | bits64
deriving DecidableEq, Repr

def Width.Value : Width → Type
  | bits8 => Int8
  | bits16 => Int16
  | bits32 => Int32
  | bits64 => Int64

def Width.type : (w : Width) → IntType w.Value
  | bits8 => int8
  | bits16 => int16
  | bits32 => int32
  | bits64 => int64

/-- A signed integer of one of the widths. -/
structure Integer where
  width : Width
  value : width.Value

namespace Integer

def size (x : Integer) : Nat := x.width.type.size

/-- The big-endian two's complement of `x`. -/
def encode (x : Integer) : Bytes := x.width.type.encode x.value

end Integer

namespace Buffer

variable (host : Endian)

def appendInteger (b : Buffer) : Integer → Option Buffer
  | ⟨.bits8, x⟩ => b.appendInt8 host x
  | ⟨.bits16, x⟩ => b.appendInt16 host x
  | ⟨.bits32, x⟩ => b.appendInt32 host x
  | ⟨.bits64, x⟩ => b.appendInt64 host x

def prependInteger (b : Buffer) : Integer → Option Buffer
  | ⟨.bits8, x⟩ => b.prependInt8 host x
  | ⟨.bits16, x⟩ => b.prependInt16 host x
  | ⟨.bits32, x⟩ => b.prependInt32 host x
  | ⟨.bits64, x⟩ => b.prependInt64 host x

def peekInteger (b : Buffer) : Width → Option Integer
  | .bits8 => (b.peekInt8 host).map (.mk .bits8)
  | .bits16 => (b.peekInt16 host).map (.mk .bits16)
  | .bits32 => (b.peekInt32 host).map (.mk .bits32)
  | .bits64 => (b.peekInt64 host).map (.mk .bits64)

def readInteger (b : Buffer) : Width → Option (Integer × Buffer)
  | .bits8 => (b.readInt8 host).map (.map (.mk .bits8) id)
  | .bits16 => (b.readInt16 host).map (.map (.mk .bits16) id)
  | .bits32 => (b.readInt32 host).map (.map (.mk .bits32) id)
  | .bits64 => (b.readInt64 host).map (.map (.mk .bits64) id)

def readIntegers (b : Buffer) : List Width → Option (List Integer × Buffer)
  | [] => some ([], b)
  | w :: ws => do
    let (x, b) ← b.readInteger host w
    let (xs, b) ← b.readIntegers ws
    return (x :: xs, b)

variable {host} {b : Buffer}

theorem appendInteger_eq (x : Integer) :
    b.appendInteger host x = b.appendInt x.width.type host x.value := by
  obtain ⟨w, x⟩ := x
  cases w <;> rfl

theorem prependInteger_eq (x : Integer) :
    b.prependInteger host x = b.prependInt x.width.type host x.value := by
  obtain ⟨w, x⟩ := x
  cases w <;> rfl

theorem peekInteger_eq (w : Width) :
    b.peekInteger host w = (b.peekInt w.type host).map (.mk w) := by
  cases w <;> rfl

theorem readInteger_eq (w : Width) :
    b.readInteger host w = (b.readInt w.type host).map (.map (.mk w) id) := by
  cases w <;> rfl

theorem size_le (w : Width) : w.type.size ≤ kCheapPrepend := by
  cases w <;> decide

/-- One integer is read from its bytes. -/
theorem readInteger_encode (host : Endian) (h : b.Indexed) {x : Integer} {rest : Bytes}
    (hread : b.readable = x.encode ++ rest) :
    ∃ b', b.readInteger host x.width = some (x, b') ∧ b'.Indexed ∧ b'.readable = rest := by
  obtain ⟨b', hr, hi, hrest⟩ := readInt_encode x.width.type host h x.value hread
  exact ⟨b', by rw [readInteger_eq, hr]; rfl, hi, hrest⟩

/-- Integers are read from their bytes in order. -/
theorem readIntegers_encode (host : Endian) (h : b.Indexed) {xs : List Integer} {rest : Bytes}
    (hread : b.readable = xs.flatMap Integer.encode ++ rest) :
    ∃ b', b.readIntegers host (xs.map Integer.width) = some (xs, b') ∧ b'.Indexed ∧
      b'.readable = rest := by
  induction xs generalizing b with
  | nil => exact ⟨b, rfl, h, hread⟩
  | cons x xs ih =>
    rw [List.flatMap_cons, List.append_assoc] at hread
    obtain ⟨b₁, hx, hi, hread₁⟩ := readInteger_encode host h hread
    obtain ⟨b₂, hxs, hi₂, hread₂⟩ := ih hi hread₁
    refine ⟨b₂, ?_, hi₂, hread₂⟩
    rw [List.map_cons, readIntegers, hx]
    simp only [Option.bind_eq_bind, Option.bind_some, hxs]
    rfl

/-- Integers are put behind what is in the buffer, in order. -/
theorem run_appendInteger (host : Endian) (h : b.Indexed) {xs : List Integer}
    (hfit : b.writerIndex_ + (xs.map Integer.size).sum < wordSize) :
    ∃ b', run (appendInteger host) b xs = some b' ∧ b'.Indexed ∧
      b'.readable = b.readable ++ xs.flatMap Integer.encode := by
  induction xs generalizing b with
  | nil => exact ⟨b, rfl, h, (List.append_nil _).symm⟩
  | cons x xs ih =>
    rw [List.map_cons, List.sum_cons] at hfit
    obtain ⟨b₁, ha, hi, hread, hwriter⟩ := appendInt_spec x.width.type host h x.value (size_le _)
      (show b.writerIndex_ + x.size < wordSize by omega)
    have hwriter : b₁.writerIndex_ ≤ b.writerIndex_ + x.size := hwriter
    obtain ⟨b₂, hrun, hi₂, hread₂⟩ := ih hi (by omega)
    refine ⟨b₂, ?_, hi₂, ?_⟩
    · rw [run_cons, appendInteger_eq, ha]
      exact hrun
    · rw [hread₂, hread, List.flatMap_cons, List.append_assoc]
      rfl

/-- Integers go through a buffer in network byte order, whatever the order of the host:
what is appended is read back, `peek` agrees with `read`, and `read` takes back what was
prepended. -/
theorem integers_roundTrip (host : Endian) {b : Buffer} (h : b.Indexed) :
    (∀ xs : List Integer, b.writerIndex_ + (xs.map Integer.size).sum < wordSize →
      ∃ b₁ b₂ b₃, run (appendInteger host) b xs = some b₁ ∧
        b₁.readable = b.readable ++ xs.flatMap Integer.encode ∧
          b₁.retrieve b.readable.length = some b₂ ∧
            b₂.readIntegers host (xs.map Integer.width) = some (xs, b₃) ∧
              b₃.readableBytes = 0) ∧
    (∀ w, b.peekInteger host w = (b.readInteger host w).map Prod.fst) ∧
    ∀ x : Integer, x.size ≤ b.prependableBytes →
      ∃ b₁ b₂, b.prependInteger host x = some b₁ ∧ b₁.readable = x.encode ++ b.readable ∧
        b₁.readInteger host x.width = some (x, b₂) ∧ b₂.readable = b.readable := by
  refine ⟨fun xs hfit => ?_, fun w => ?_, fun x hroom => ?_⟩
  · obtain ⟨b₁, hrun, hi, hread⟩ := run_appendInteger host h hfit
    have hle : b.readable.length ≤ b₁.readableBytes := by
      rw [← hi.length_readable, hread, List.length_append]
      omega
    obtain ⟨b₂, hretrieve, hi₂, hread₂⟩ := retrieve_spec hi hle
    rw [hread, List.drop_left] at hread₂
    obtain ⟨b₃, hxs, hi₃, hread₃⟩ := readIntegers_encode host hi₂
      (hread₂.trans (List.append_nil _).symm)
    refine ⟨b₁, b₂, b₃, hrun, hread, hretrieve, hxs, ?_⟩
    rw [← hi₃.length_readable, hread₃]
    rfl
  · rw [peekInteger_eq, readInteger_eq, peekInt_eq_readInt _ _ h, Option.map_map, Option.map_map]
    rfl
  · obtain ⟨b₁, hp, hi, hread⟩ := prependInt_spec x.width.type host h x.value hroom
    obtain ⟨b₂, hr, -, hread₂⟩ := readInteger_encode host hi hread
    exact ⟨b₁, b₂, by rw [prependInteger_eq, hp], hread, hr, hread₂⟩

/-- Minus two and five, behind a byte of other content, from a little-endian host. -/
theorem integers_roundTrip_two :
    ∃ b₁ b₂ b₃, run (appendInteger .little) ⟨[0, 0, 0, 0, 0, 0, 0, 0, 7, 0], 8, 9⟩
        [⟨.bits16, (-2 : Int16)⟩, ⟨.bits8, (5 : Int8)⟩] = some b₁ ∧
      b₁.readable = [7, 255, 254, 5] ∧ b₁.retrieve 1 = some b₂ ∧
        b₂.readIntegers .little [.bits16, .bits8] =
          some ([⟨.bits16, (-2 : Int16)⟩, ⟨.bits8, (5 : Int8)⟩], b₃) := by
  obtain ⟨b₁, b₂, b₃, hrun, hread, hretrieve, hxs, -⟩ :=
    (integers_roundTrip .little (b := ⟨[0, 0, 0, 0, 0, 0, 0, 0, 7, 0], 8, 9⟩)
      (by constructor <;> decide)).1 [⟨.bits16, (-2 : Int16)⟩, ⟨.bits8, (5 : Int8)⟩] (by decide)
  exact ⟨b₁, b₂, b₃, hrun, hread, hretrieve, hxs⟩

end Buffer

end Cnet.Net
