import Cnet.Support.CInt
import Cnet.Support.Memory

/-!
# Conversions between integer types

A conversion keeps the residue of a number at the width it converts to.
-/

namespace Cnet.Base

open Cnet.Support

/-- `static_cast<int>` of a `time_t`. -/
def castInt (n : Int) : Int := n.bmod 4294967296

/-- An `int` as an `unsigned`. -/
def toUnsigned (n : Int) : Nat := (n % 4294967296).toNat

/-- An `int` as a `size_t`. -/
def castSize (n : Int) : Nat := (n % wordSize).toNat

theorem castInt_eq {n : Int} (h : FitsInt n) : castInt n = n :=
  Int.bmod_eq_of_le (by omega) (by omega)

theorem fitsInt_castInt (n : Int) : FitsInt (castInt n) :=
  ⟨Int.le_bmod (by decide), Int.le_of_lt_add_one (Int.bmod_lt (by decide))⟩

theorem castSize_natCast {n : Nat} (h : n < wordSize) : castSize n = n := by
  rw [castSize, Int.emod_eq_of_lt (Int.natCast_nonneg n) (Int.ofNat_lt.mpr h), Int.toNat_natCast]

theorem castSize_lt (n : Int) : castSize n < wordSize := by
  have hw : (0 : Int) < wordSize := by decide
  have hnonneg := Int.emod_nonneg n (Int.ne_of_gt hw)
  have hlt := Int.emod_lt_of_pos n hw
  rw [castSize]
  omega

/-- On the way to a `size_t` through an `int`, the lower 32 bits stay. -/
theorem castSize_castInt_emod (n : Int) :
    (castSize (castInt n) : Int) % 4294967296 = n % 4294967296 := by
  have hword : (wordSize : Int) = 18446744073709551616 := rfl
  have hbmod : castInt n % 4294967296 = n % 4294967296 := Int.bmod_emod
  rw [castSize, hword]
  omega

/-- The size of a string is passed on as an `int` and comes back as a `size_t`. -/
def PassesInt (n : Nat) : Prop := castSize (castInt n) = n

instance (n : Nat) : Decidable (PassesInt n) := inferInstanceAs (Decidable (_ = _))

theorem passesInt_of_lt {n : Nat} (h : n < 2147483648) : PassesInt n := by
  have hword : wordSize = 18446744073709551616 := rfl
  rw [PassesInt, castInt_eq ⟨by omega, by omega⟩, castSize_natCast (by omega)]

/-- For the sizes that a string or a vector can have, passing means to be an `int`. -/
theorem passesInt_iff {n : Nat} (h : n < 9223372036854775808) :
    PassesInt n ↔ n < 2147483648 := by
  refine ⟨fun hpasses => ?_, passesInt_of_lt⟩
  obtain ⟨hlo, hhi⟩ := fitsInt_castInt n
  have hword : (wordSize : Int) = 18446744073709551616 := rfl
  rw [PassesInt, castSize, hword] at hpasses
  omega

end Cnet.Base
