import Cnet.Base.LogContent
import Cnet.Base.Numerals

/-!
# Integers in a log

`convert` and `converHex` write the canonical text of a number and a terminator, into the
cells for these only. That no number of 64 bits takes more than 21 cells is what
`kMaxNumericSize` relies on.
-/

namespace Cnet.Base

open Cnet.Support

/-- `v` is a value of the integer type of so many bits. -/
def FitsType (signed : Bool) (bits : Nat) (v : Int) : Prop :=
  if signed then -(2 ^ (bits - 1) : Nat) ≤ v ∧ v < (2 ^ (bits - 1) : Nat)
  else 0 ≤ v ∧ v < (2 ^ bits : Nat)

instance (signed : Bool) (bits : Nat) (v : Int) : Decidable (FitsType signed bits v) := by
  unfold FitsType
  infer_instance

theorem FitsType.bounds {signed : Bool} {bits : Nat} {v : Int} (h : FitsType signed bits v)
    (hbits : bits ≤ 64) : -9223372036854775808 ≤ v ∧ v < 18446744073709551616 := by
  have hhalf : 2 ^ (bits - 1) ≤ 2 ^ 63 := Nat.pow_le_pow_right (by decide) (by omega)
  have hwhole : 2 ^ bits ≤ 2 ^ 64 := Nat.pow_le_pow_right (by decide) hbits
  rw [FitsType] at h
  cases signed with
  | true =>
    rw [if_pos rfl] at h
    omega
  | false =>
    rw [if_neg Bool.false_ne_true] at h
    omega

/-- The canonical text of a number in base 10. -/
structure IsDecimal (text : List UInt8) (v : Int) : Prop where
  digits : ∃ ds, text = (if v < 0 then chars "-" else []) ++ ds ∧ Canonical 10 ds v.natAbs
  value : readDecimal text = some v

theorem isDecimal_decimalText (v : Int) : IsDecimal (decimalText v) v :=
  ⟨⟨_, decimalText_eq v, canonical_decimal _⟩, readDecimal_decimalText v⟩

/-- Integers are formatted exactly: the canonical text, a terminator, the length. -/
theorem integers_exact (a : SmallArray) {p : Nat} (hroom : p + 21 ≤ kSmallBuffer) :
    (∀ signed bits v, bits ≤ 64 → FitsType signed bits v →
      ∃ a' text, convert a p v = some (a', text.length) ∧ a.Overwrites p a' (text ++ [0]) ∧
        (text ++ [0]).length ≤ 21 ∧ IsDecimal text v) ∧
    ∀ v : UInt64, ∃ a' text, converHex a p v = some (a', text.length) ∧
      a.Overwrites p a' (text ++ [0]) ∧ (text ++ [0]).length ≤ 21 ∧ Canonical 16 text v.toNat := by
  constructor
  · intro signed bits v hbits hv
    obtain ⟨hlo, hhi⟩ := hv.bounds hbits
    have hlen := length_decimalText_le hlo hhi
    obtain ⟨a', hconvert, hcells⟩ := convert_overwrites (a := a) (p := p) v (by omega)
    refine ⟨a', decimalText v, hconvert, hcells, ?_, isDecimal_decimalText v⟩
    rw [List.length_append, List.length_singleton]
    omega
  · intro v
    have hlen : (digitBytes (fun c => charByte c.toUpper) 16 v.toNat).length ≤ 16 := by
      rw [digitBytes, List.length_map]
      exact (Nat.length_toDigits_le_iff (by decide) (by decide)).mpr v.toNat_lt
    obtain ⟨a', hhex, hcells⟩ := converHex_overwrites (a := a) (p := p) v rfl (by omega)
    refine ⟨a', _, hhex, hcells, ?_, canonical_hex v.toNat⟩
    rw [List.length_append, List.length_singleton]
    omega

/-- The least `int64_t`, at the start of an array of zeros. -/
theorem integers_exact_minimum :
    ∃ a' text, convert ⟨List.replicate kSmallBuffer 0, List.length_replicate⟩ 0
        (-9223372036854775808) = some (a', text.length) ∧
      IsDecimal text (-9223372036854775808) := by
  obtain ⟨a', text, hconvert, -, -, hdecimal⟩ :=
    (integers_exact ⟨List.replicate kSmallBuffer 0, List.length_replicate⟩ (p := 0)
      (by decide)).1 true 64 (-9223372036854775808) (by decide) (by decide)
  exact ⟨a', text, hconvert, hdecimal⟩

end Cnet.Base
