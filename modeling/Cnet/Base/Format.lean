import Mathlib.Algebra.Group.Nat.Defs
import Mathlib.Data.Int.Basic

/-!
# Text of numbers

The conversions of `printf` that the log uses.
-/

namespace Cnet.Base

/-- The byte of an ASCII character. -/
def charByte (c : Char) : UInt8 := UInt8.ofNat c.toNat

/-- The characters of a literal. -/
def chars (s : String) : List UInt8 := s.toList.map charByte

/-- `"%d"`. -/
def decimalText (v : Int) : List UInt8 := chars (toString v)

/-- `"%4d"`, for a width of 4. -/
def spacePadded (width : Nat) (v : Int) : List UInt8 := (decimalText v).leftpad width 32

/-- `"%04d"`, for a width of 4: the zeros come after a sign. -/
def zeroPadded (width : Nat) (v : Int) : List UInt8 :=
  if v < 0 then chars "-" ++ (decimalText (-v)).leftpad (width - 1) 48
  else (decimalText v).leftpad width 48

/-- The digits of a number, the first one first. -/
def digitBytes (byte : Char → UInt8) (base n : Nat) : List UInt8 := (Nat.toDigits base n).map byte

theorem digitBytes_eq {base : Nat} (hbase : 1 < base) (byte : Char → UInt8) (n : Nat) :
    digitBytes byte base n = if n < base then [byte n.digitChar]
      else digitBytes byte base (n / base) ++ [byte (n % base).digitChar] := by
  rw [digitBytes, Nat.toDigits_eq_if hbase, apply_ite (List.map byte), List.map_append]
  rfl

theorem chars_append (s t : String) : chars (s ++ t) = chars s ++ chars t := by
  rw [chars, String.toList_append, List.map_append]
  rfl

theorem decimalText_eq (v : Int) :
    decimalText v = (if v < 0 then chars "-" else []) ++ digitBytes charByte 10 v.natAbs := by
  have hdigits : ∀ n : Nat, chars n.repr = digitBytes charByte 10 n := fun n => by
    rw [chars, Nat.toList_repr]
    rfl
  rw [decimalText, Int.toString_eq_repr, Int.repr_eq_if]
  by_cases hneg : v < 0
  · rw [if_neg (by omega), if_pos hneg, chars_append, hdigits]
    congr 2
    omega
  · rw [if_pos (by omega), if_neg hneg, hdigits, List.nil_append]
    congr 1
    omega

/-! ## Different numbers have different texts -/

/-- The number that a text of digits stands for. -/
def digitsValue (text : List UInt8) : Nat :=
  Nat.ofDigitChars 10 (text.map fun b => Char.ofNat b.toNat) 0

theorem ofNat_charByte {c : Char} (hc : c.isDigit = true) :
    Char.ofNat (charByte c).toNat = c := by
  have hnine : '9'.toNat = 57 := rfl
  have hlt : c.toNat < 256 := by
    have := (Char.isDigit_iff_toNat.mp hc).2
    omega
  rw [charByte, UInt8.toNat_ofNat_of_lt' hlt, Char.ofNat_toNat]

/-- Zeros in front of a number do not count. -/
theorem digitsValue_replicate_append (k n : Nat) :
    digitsValue (List.replicate k 48 ++ digitBytes charByte 10 n) = n := by
  have hmap : (digitBytes charByte 10 n).map (fun b => Char.ofNat b.toNat) = Nat.toDigits 10 n := by
    rw [digitBytes, List.map_map]
    exact (List.map_congr_left fun c hc => ofNat_charByte
      (Nat.isDigit_of_mem_toDigits (by decide) (by decide) hc)).trans (List.map_id _)
  have hzero : Char.ofNat (48 : UInt8).toNat = '0' := rfl
  rw [digitsValue, List.map_append, List.map_replicate, hmap, hzero, Nat.ofDigitChars_append,
    Nat.ofDigitChars_replicate_zero, Nat.mul_zero, Nat.ofDigitChars_ten_toDigits]

/-- The bytes of the ten digits. -/
abbrev IsDigit (b : UInt8) : Prop := 48 ≤ b ∧ b ≤ 57

theorem isDigit_of_mem {n : Nat} {b : UInt8} (h : b ∈ digitBytes charByte 10 n) : IsDigit b := by
  obtain ⟨c, hc, rfl⟩ := List.mem_map.mp h
  have hdigit := Nat.isDigit_of_mem_toDigits (by decide) (by decide) hc
  obtain ⟨hlo, hhi⟩ := Char.isDigit_iff_toNat.mp hdigit
  have hzero : '0'.toNat = 48 := rfl
  have hnine : '9'.toNat = 57 := rfl
  have hsize : UInt8.size = 256 := rfl
  have hbyte : (charByte c).toNat = c.toNat := UInt8.toNat_ofNat_of_lt' (by omega)
  rw [IsDigit, UInt8.le_iff_toNat_le, UInt8.le_iff_toNat_le, hbyte]
  exact ⟨hlo, hhi⟩

/-- Digits are taken as far as if no more text came, where what comes begins with none. -/
theorem takeWhile_isDigit_append {rest : List UInt8}
    (h : ∀ b, rest.head? = some b → ¬ IsDigit b) (text : List UInt8) :
    ((text ++ rest).takeWhile fun b => IsDigit b) = text.takeWhile fun b => IsDigit b := by
  have hstop : (rest.takeWhile fun b => IsDigit b) = [] := by
    cases rest with
    | nil => rfl
    | cons b rest => exact List.takeWhile_cons_of_neg (decide_eq_true_iff.not.mpr (h b rfl))
  rw [List.takeWhile_append, hstop, List.append_nil]
  split
  · next hall => exact ((List.takeWhile_prefix _).eq_of_length hall).symm
  · rfl

theorem digitBytes_ne_nil (n : Nat) : digitBytes charByte 10 n ≠ [] := fun hnil =>
  Nat.toDigits_ne_nil (List.map_eq_nil_iff.mp hnil)

theorem ofDigitChars_lt {text : List UInt8} (h : ∀ b ∈ text, IsDigit b) {init k : Nat}
    (hinit : init < 10 ^ k) :
    Nat.ofDigitChars 10 (text.map fun b => Char.ofNat b.toNat) init < 10 ^ (k + text.length) := by
  induction text generalizing init k with
  | nil => rwa [List.map_nil, Nat.ofDigitChars_nil]
  | cons b text ih =>
    obtain ⟨⟨-, hb⟩, htext⟩ := List.forall_mem_cons.mp h
    have hnine : (57 : UInt8).toNat = 57 := rfl
    have hzero : '0'.toNat = 48 := rfl
    have hle : b.toNat ≤ 57 := UInt8.le_iff_toNat_le.mp hb
    have hvalid : b.toNat.isValidChar := Or.inl (by omega)
    have hchar : (Char.ofNat b.toNat).toNat = b.toNat := by
      rw [Char.ofNat, dif_pos hvalid]
      rfl
    rw [List.map_cons, Nat.ofDigitChars_cons, hchar, List.length_cons, ← Nat.add_assoc,
      Nat.add_right_comm]
    refine ih htext ?_
    rw [Nat.pow_succ']
    omega

/-- Digits count for less than one more of them could. -/
theorem digitsValue_lt {text : List UInt8} (h : ∀ b ∈ text, IsDigit b) :
    digitsValue text < 10 ^ text.length := by
  have hinit : 0 < 10 ^ 0 := Nat.one_pos
  have hlt := ofDigitChars_lt h hinit
  rwa [Nat.zero_add] at hlt

theorem digitBytes_injective : Function.Injective (digitBytes charByte 10) :=
  Function.LeftInverse.injective (digitsValue_replicate_append 0)

theorem dash_notMem_digitBytes (n : Nat) : (45 : UInt8) ∉ digitBytes charByte 10 n := by
  intro hmem
  obtain ⟨c, hc, hdash⟩ := List.mem_map.mp hmem
  have hdigit := Nat.isDigit_of_mem_toDigits (by decide) (by decide) hc
  have hback := ofNat_charByte hdigit
  rw [hdash] at hback
  rw [← hback] at hdigit
  exact absurd hdigit (by decide)

theorem decimalText_injective : Function.Injective decimalText := by
  intro v w h
  have hdash : chars "-" = [45] := by decide
  have hsign : ∀ m n : Nat, [45] ++ digitBytes charByte 10 m ≠ [] ++ digitBytes charByte 10 n :=
    fun m n heq => dash_notMem_digitBytes n (by
      rw [List.nil_append] at heq
      rw [← heq]
      exact List.mem_append_left _ (List.mem_singleton_self _))
  rw [decimalText_eq, decimalText_eq, hdash] at h
  by_cases hv : v < 0
  · by_cases hw : w < 0
    · rw [if_pos hv, if_pos hw] at h
      have := digitBytes_injective (List.append_cancel_left h)
      omega
    · rw [if_pos hv, if_neg hw] at h
      exact absurd h (hsign _ _)
  · by_cases hw : w < 0
    · rw [if_neg hv, if_pos hw] at h
      exact absurd h.symm (hsign _ _)
    · rw [if_neg hv, if_neg hw] at h
      have := digitBytes_injective (List.append_cancel_left h)
      omega

theorem zeroPadded_eq (width : Nat) {v : Int} (h : 0 ≤ v) :
    zeroPadded width v = (digitBytes charByte 10 v.natAbs).leftpad width 48 := by
  rw [zeroPadded, if_neg (by omega), decimalText_eq, if_neg (by omega), List.nil_append]

theorem digitsValue_zeroPadded (width : Nat) {v : Int} (h : 0 ≤ v) :
    digitsValue (zeroPadded width v) = v.natAbs := by
  rw [zeroPadded_eq width h, List.leftpad, digitsValue_replicate_append]

theorem zeroPadded_inj {width : Nat} {v w : Int} (hv : 0 ≤ v) (hw : 0 ≤ w)
    (h : zeroPadded width v = zeroPadded width w) : v = w := by
  have hvalue := congrArg digitsValue h
  rw [digitsValue_zeroPadded width hv, digitsValue_zeroPadded width hw] at hvalue
  omega

theorem length_zeroPadded {width : Nat} (hwidth : 0 < width) {v : Int} (h0 : 0 ≤ v)
    (h : v < (10 ^ width : Nat)) : (zeroPadded width v).length = width := by
  have hlen : (Nat.toDigits 10 v.natAbs).length ≤ width :=
    (Nat.length_toDigits_le_iff (by decide) hwidth).mpr (by omega)
  rw [zeroPadded_eq width h0, List.length_leftpad, digitBytes, List.length_map,
    Nat.max_eq_left hlen]

theorem length_zeroPadded_two {v : Int} (h0 : 0 ≤ v) (h : v < 100) :
    (zeroPadded 2 v).length = 2 := length_zeroPadded (by decide) h0 h

end Cnet.Base
