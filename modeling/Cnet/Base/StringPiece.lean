import Cnet.Base.Casts

/-!
# String pieces

A `StringPiece` is a pointer and a length, and the length is an `int`. A string of any size
is passed on through one.
-/

namespace Cnet.Base

open Cnet.Support

/-- `ptr_` is what can be read from the pointer on. -/
structure StringPiece where
  ptr_ : List UInt8
  length_ : Int
deriving DecidableEq

namespace StringPiece

def data (s : StringPiece) : List UInt8 := s.ptr_

def size (s : StringPiece) : Int := s.length_

/-- `StringPiece(const string&)`, and `StringPiece(const char*)` of the characters before
the zero. -/
def ofString (str : List UInt8) : StringPiece := ⟨str, castInt str.length⟩

/-- The bytes from `data()` on, as many as `size()` says when it is taken for a `size_t`. -/
def bytes (s : StringPiece) : Option (List UInt8) := load s.data 0 (castSize s.size)

/-- `end()` -/
def end_ (s : StringPiece) : List UInt8 := s.ptr_.drop s.length_.toNat

/-- `remove_prefix`, which must not move past what can be read. -/
def removePrefix (n : Int) (s : StringPiece) : Option StringPiece := do
  assert (0 ≤ n ∧ n ≤ s.ptr_.length)
  some ⟨s.ptr_.drop n.toNat, s.length_ - n⟩

theorem bytes_eq (s : StringPiece) : s.bytes =
    if castSize s.size ≤ s.data.length then some (s.data.take (castSize s.size)) else none := by
  rw [bytes, load, slice, List.drop_zero, Nat.zero_add, Nat.sub_zero]

/-- As many bytes are read as the size says. -/
theorem length_of_bytes {s : StringPiece} {copy : List UInt8} (h : s.bytes = some copy) :
    copy.length = castSize s.size ∧ copy.length ≤ s.data.length := by
  rw [bytes_eq] at h
  by_cases hle : castSize s.size ≤ s.data.length
  · rw [if_pos hle] at h
    obtain rfl := Option.some.inj h
    rw [List.length_take_of_le hle]
    exact ⟨rfl, hle⟩
  · rw [if_neg hle] at h
    exact absurd h.symm (Option.some_ne_none copy)

theorem data_ofString (str : List UInt8) : (ofString str).data = str := rfl

theorem size_ofString (str : List UInt8) : (ofString str).size = castInt str.length := by
  rw [size, ofString]

theorem bytes_ofString {str : List UInt8} (h : PassesInt str.length) :
    (ofString str).bytes = some str := by
  have hlen : castSize (castInt str.length) = str.length := h
  rw [bytes_eq, data_ofString, size_ofString, hlen, if_pos (Nat.le_refl _), List.take_length]

/-- What is read of a string through a `StringPiece` is no longer than the string, and as
long only if its size passes. -/
theorem length_of_bytes_ofString {str copy : List UInt8} (h : (ofString str).bytes = some copy) :
    copy.length ≤ str.length ∧ (copy.length = str.length → PassesInt str.length) := by
  obtain ⟨hlen, hle⟩ := length_of_bytes h
  rw [size_ofString] at hlen
  exact ⟨hle, fun heq => hlen.symm.trans heq⟩

/-- What is read of a string through a `StringPiece` begins it, and lacks 2^32 bytes and more
or none. -/
theorem prefix_of_bytes_ofString {str copy : List UInt8} (h : (ofString str).bytes = some copy) :
    copy <+: str ∧ (copy.length = str.length ∨ copy.length + 4294967296 ≤ str.length) := by
  obtain ⟨hlen, hle⟩ := length_of_bytes h
  have hmod : (copy.length : Int) % 4294967296 = str.length % 4294967296 := by
    rw [hlen, size_ofString]
    exact castSize_castInt_emod _
  rw [bytes_eq] at h
  rw [data_ofString] at hle
  refine ⟨?_, by omega⟩
  split at h
  · obtain rfl := Option.some.inj h
    exact List.take_prefix _ _
  · exact absurd h.symm (Option.some_ne_none copy)

theorem ofString_eq {str : List UInt8} (h : str.length < 2147483648) :
    ofString str = ⟨str, str.length⟩ := by
  rw [ofString, castInt_eq ⟨by omega, by omega⟩]

theorem removePrefix_ofString {pre rest : List UInt8} (h : (pre ++ rest).length < 2147483648) :
    (ofString (pre ++ rest)).removePrefix (castInt pre.length) = some (ofString rest) := by
  have hlen := h
  rw [List.length_append] at hlen
  have hdrop : (pre ++ rest).drop (pre.length : Int).toNat = rest := by
    rw [Int.toNat_natCast, List.drop_left]
  have hsub : ((pre ++ rest).length - pre.length : Int) = rest.length := by
    rw [List.length_append]
    omega
  rw [ofString_eq h, ofString_eq (by omega), castInt_eq ⟨by omega, by omega⟩, removePrefix,
    assert_pos ⟨by omega, by rw [List.length_append]; omega⟩, hdrop, hsub]
  rfl

end StringPiece

end Cnet.Base
