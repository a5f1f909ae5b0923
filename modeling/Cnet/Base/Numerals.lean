import Cnet.Base.Format

/-!
# Numerals

A numeral is canonical for a number in a base if it is read as that number and does not
begin with a zero that could be left out. The digits above nine are capital letters.
-/

namespace Cnet.Base

def digitValue (b : UInt8) : Option Nat :=
  if 48 ≤ b ∧ b ≤ 57 then some (b.toNat - 48)
  else if 65 ≤ b ∧ b ≤ 70 then some (b.toNat - 55)
  else none

/-- The number that `text` brings `n` to, digit by digit. -/
def readDigits (base n : Nat) : List UInt8 → Option Nat
  | [] => some n
  | b :: text => (digitValue b).bind fun d =>
      if d < base then readDigits base (n * base + d) text else none

def readNumeral (base : Nat) (text : List UInt8) : Option Nat :=
  if text = [] then none else readDigits base 0 text

/-- A numeral in base 10, with a sign or without. -/
def readDecimal (text : List UInt8) : Option Int :=
  if text.head? = some 45 then (readNumeral 10 text.tail).map fun n : Nat => (-n : Int)
  else (readNumeral 10 text).map fun n : Nat => (n : Int)

structure Canonical (base : Nat) (text : List UInt8) (n : Nat) : Prop where
  value : readNumeral base text = some n
  leading : text.head? = some 48 → text = [48]

theorem readDigits_append (base n : Nat) (text rest : List UInt8) :
    readDigits base n (text ++ rest) =
      (readDigits base n text).bind fun m => readDigits base m rest := by
  induction text generalizing n with
  | nil => rfl
  | cons b text ih =>
    rw [List.cons_append, readDigits, readDigits]
    cases digitValue b with
    | none => rfl
    | some d =>
      rw [Option.bind_some, Option.bind_some]
      by_cases hd : d < base
      · rw [if_pos hd, if_pos hd, ih]
      · rw [if_neg hd, if_neg hd, Option.bind_none]

section Digits

variable {byte : Char → UInt8} {base : Nat} (hbase : 1 < base)
  (hbyte : ∀ d < base, digitValue (byte d.digitChar) = some d)
include hbase

theorem digitBytes_ne_nil_of_base (byte : Char → UInt8) (n : Nat) :
    digitBytes byte base n ≠ [] := by
  rw [digitBytes_eq hbase]
  by_cases hn : n < base
  · rw [if_pos hn]
    exact List.cons_ne_nil _ _
  · rw [if_neg hn]
    exact List.append_ne_nil_of_right_ne_nil _ (List.cons_ne_nil _ _)

include hbyte

/-- The digits of a number are read as the number. -/
theorem readDigits_digitBytes (n : Nat) : readDigits base 0 (digitBytes byte base n) = some n := by
  induction n using Nat.strongRecOn with
  | ind n ih =>
    rw [digitBytes_eq hbase]
    by_cases hn : n < base
    · rw [if_pos hn, readDigits, hbyte n hn, Option.bind_some, if_pos hn, Nat.zero_mul,
        Nat.zero_add, readDigits]
    · have hlt : n / base < n := Nat.div_lt_self (by omega) hbase
      have hmod : n % base < base := Nat.mod_lt n (by omega)
      rw [if_neg hn, readDigits_append, ih _ hlt, Option.bind_some, readDigits, hbyte _ hmod,
        Option.bind_some, if_pos hmod, readDigits, Nat.div_add_mod']

/-- Only the digits of zero begin with a zero. -/
theorem eq_zero_of_head {n : Nat} (h : (digitBytes byte base n).head? = some 48) : n = 0 := by
  induction n using Nat.strongRecOn with
  | ind n ih =>
    rw [digitBytes_eq hbase] at h
    by_cases hn : n < base
    · rw [if_pos hn] at h
      have hvalue := hbyte n hn
      rw [Option.some.inj h] at hvalue
      exact (Option.some.inj hvalue).symm
    · have hlt : n / base < n := Nat.div_lt_self (by omega) hbase
      obtain ⟨b, text, hcons⟩ := List.exists_cons_of_ne_nil
        (digitBytes_ne_nil_of_base hbase byte (n / base))
      rw [if_neg hn, hcons] at h
      have hdiv := ih _ hlt (hcons ▸ h)
      rw [Nat.div_eq_zero_iff] at hdiv
      omega

theorem canonical_digitBytes (n : Nat) : Canonical base (digitBytes byte base n) n := by
  constructor
  · rw [readNumeral, if_neg (digitBytes_ne_nil_of_base hbase byte n),
      readDigits_digitBytes hbase hbyte]
  · intro h
    obtain rfl := eq_zero_of_head hbase hbyte h
    rw [digitBytes_eq hbase, if_pos (by omega)] at h ⊢
    rw [Option.some.inj h]

end Digits

/-! ## The two bases -/

theorem digitValue_decimal : ∀ d < 10, digitValue (charByte d.digitChar) = some d := by decide

theorem digitValue_hex : ∀ d < 16, digitValue (charByte d.digitChar.toUpper) = some d := by decide

theorem canonical_decimal (n : Nat) : Canonical 10 (digitBytes charByte 10 n) n :=
  canonical_digitBytes (by decide) digitValue_decimal n

theorem canonical_hex (n : Nat) :
    Canonical 16 (digitBytes (fun c => charByte c.toUpper) 16 n) n :=
  canonical_digitBytes (by decide) digitValue_hex n

theorem readDecimal_decimalText (v : Int) : readDecimal (decimalText v) = some v := by
  have hvalue := (canonical_decimal v.natAbs).value
  have hdash : chars "-" = [45] := by decide
  rw [decimalText_eq, readDecimal]
  by_cases hneg : v < 0
  · rw [if_pos hneg, hdash, List.singleton_append, List.head?_cons, if_pos rfl, List.tail_cons,
      hvalue, Option.map_some]
    congr 1
    omega
  · have hhead : (digitBytes charByte 10 v.natAbs).head? ≠ some 45 := fun h =>
      dash_notMem_digitBytes _ (List.mem_of_head? h)
    rw [if_neg hneg, List.nil_append, if_neg hhead, hvalue, Option.map_some]
    congr 1
    omega

end Cnet.Base
