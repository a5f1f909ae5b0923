import Mathlib.Algebra.Group.Nat.Defs
import Mathlib.Data.Nat.Basic

/-!
# Byte orders

The bytes of a number in memory, for either order, and the conversion to the big-endian
one. Only the conversion depends on the order of the host: what it writes does not.
-/

namespace Cnet.Support

inductive Endian
  | little
  | big
deriving DecidableEq, Repr

/-- The last `n` digits of `v` in base 256, the last one first. -/
def littleBytes : Nat → Nat → List UInt8
  | 0, _ => []
  | n + 1, v => UInt8.ofNat v :: littleBytes n (v / 256)

/-- The number with these digits in base 256, the last one first. -/
def ofLittleBytes : List UInt8 → Nat
  | [] => 0
  | b :: bytes => b.toNat + 256 * ofLittleBytes bytes

def bigBytes (n v : Nat) : List UInt8 := (littleBytes n v).reverse

def ofBigBytes (bytes : List UInt8) : Nat := ofLittleBytes bytes.reverse

theorem length_littleBytes (n v : Nat) : (littleBytes n v).length = n := by
  induction n generalizing v with
  | zero => rfl
  | succ n ih => rw [littleBytes, List.length_cons, ih]

theorem ofLittleBytes_littleBytes (n v : Nat) : ofLittleBytes (littleBytes n v) = v % 256 ^ n := by
  induction n generalizing v with
  | zero => rw [Nat.pow_zero, Nat.mod_one, littleBytes, ofLittleBytes]
  | succ n ih =>
    have hbyte : (UInt8.ofNat v).toNat = v % 256 := UInt8.toNat_ofNat'
    rw [littleBytes, ofLittleBytes, ih, hbyte, Nat.pow_succ', Nat.mod_mul]

theorem ofLittleBytes_lt (bytes : List UInt8) : ofLittleBytes bytes < 256 ^ bytes.length := by
  induction bytes with
  | nil => exact Nat.one_pos
  | cons b bytes ih =>
    have hb : b.toNat < 256 := b.toNat_lt
    rw [ofLittleBytes, List.length_cons, Nat.pow_succ']
    omega

theorem littleBytes_ofLittleBytes (bytes : List UInt8) :
    littleBytes bytes.length (ofLittleBytes bytes) = bytes := by
  induction bytes with
  | nil => rfl
  | cons b bytes ih =>
    have hb : b.toNat < 256 := b.toNat_lt
    have hdigit : UInt8.ofNat (b.toNat + 256 * ofLittleBytes bytes) = b := by
      apply UInt8.toNat_inj.mp
      rw [UInt8.toNat_ofNat', Nat.add_mul_mod_self_left, Nat.mod_eq_of_lt hb]
    have hrest : (b.toNat + 256 * ofLittleBytes bytes) / 256 = ofLittleBytes bytes := by omega
    rw [List.length_cons, ofLittleBytes, littleBytes, hdigit, hrest, ih]

theorem length_bigBytes (n v : Nat) : (bigBytes n v).length = n := by
  rw [bigBytes, List.length_reverse, length_littleBytes]

theorem ofBigBytes_bigBytes (n v : Nat) : ofBigBytes (bigBytes n v) = v % 256 ^ n := by
  rw [ofBigBytes, bigBytes, List.reverse_reverse, ofLittleBytes_littleBytes]

/-- The same digits in the opposite order. -/
def swapBytes (n v : Nat) : Nat := ofLittleBytes (bigBytes n v)

theorem littleBytes_swapBytes (n v : Nat) : littleBytes n (swapBytes n v) = bigBytes n v := by
  have h := littleBytes_ofLittleBytes (bigBytes n v)
  rwa [length_bigBytes] at h

namespace Endian

/-- The bytes in memory of a number of `n` bytes. -/
def bytes : Endian → Nat → Nat → List UInt8
  | little => littleBytes
  | big => bigBytes

/-- The number that has these bytes in memory. -/
def value : Endian → List UInt8 → Nat
  | little => ofLittleBytes
  | big => ofBigBytes

/-- From the order of the host to the big-endian one, and back. -/
def convert : Endian → Nat → Nat → Nat
  | little => swapBytes
  | big => fun _ v => v

variable (e : Endian) (n v : Nat)

theorem length_bytes : (e.bytes n v).length = n := by
  cases e with
  | little => exact length_littleBytes n v
  | big => exact length_bigBytes n v

theorem value_lt (bytes : List UInt8) : e.value bytes < 256 ^ bytes.length := by
  cases e with
  | little => exact ofLittleBytes_lt bytes
  | big =>
    have hlt := ofLittleBytes_lt bytes.reverse
    rwa [List.length_reverse] at hlt

theorem convert_lt (h : v < 256 ^ n) : e.convert n v < 256 ^ n := by
  cases e with
  | little =>
    have hlt := ofLittleBytes_lt (bigBytes n v)
    rwa [length_bigBytes] at hlt
  | big => exact h

/-- A converted number lies in memory the first digit first, on either host. -/
theorem bytes_convert : e.bytes n (e.convert n v) = bigBytes n v := by
  cases e with
  | little => exact littleBytes_swapBytes n v
  | big => rfl

/-- Read from such memory and converted back, it is the number. -/
theorem convert_value (h : v < 256 ^ n) : e.convert n (e.value (bigBytes n v)) = v := by
  cases e with
  | little =>
    have hswap : ofLittleBytes (littleBytes n v) = v := by
      rw [ofLittleBytes_littleBytes, Nat.mod_eq_of_lt h]
    show swapBytes n (swapBytes n v) = v
    rw [swapBytes, bigBytes, littleBytes_swapBytes, bigBytes, List.reverse_reverse, hswap]
  | big =>
    show ofBigBytes (bigBytes n v) = v
    rw [ofBigBytes_bigBytes, Nat.mod_eq_of_lt h]

/-- The same where what is read is kept in `w` bits. -/
theorem convert_value_mod {w : Nat} (hw : 256 ^ n = 2 ^ w) (h : v < 2 ^ w) :
    e.convert n (e.value (bigBytes n v) % 2 ^ w) = v := by
  have hlt := e.value_lt (bigBytes n v)
  rw [length_bigBytes, hw] at hlt
  rw [Nat.mod_eq_of_lt hlt, e.convert_value n v (hw ▸ h)]

theorem value_bytes (h : v < 256 ^ n) : e.value (e.bytes n v) = v := by
  cases e with
  | little => exact (ofLittleBytes_littleBytes n v).trans (Nat.mod_eq_of_lt h)
  | big => exact (ofBigBytes_bigBytes n v).trans (Nat.mod_eq_of_lt h)

/-- One byte is in order as it is. -/
theorem convert_one {v : Nat} (h : v < 256) : e.convert 1 v = v := by
  cases e with
  | little =>
    show ofLittleBytes (littleBytes 1 v).reverse = v
    rw [littleBytes, littleBytes, List.reverse_singleton, ofLittleBytes, ofLittleBytes,
      UInt8.toNat_ofNat_of_lt' h]
    rfl
  | big => rfl

end Endian

end Cnet.Support
