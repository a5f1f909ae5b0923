import Mathlib.Algebra.Group.Nat.Defs
import Mathlib.Data.List.Basic

/-!
# `snprintf`

Texts without zero bytes, read back as the string that the buffer holds.
-/

namespace Cnet.Base

/-- What `snprintf` leaves in a buffer of `size` bytes. -/
def snprintf (size : Nat) (s : String) : String := String.ofList (s.toList.take (size - 1))

theorem snprintf_of_lt {size : Nat} {text : String} (h : text.length < size) :
    snprintf size text = text := by
  rw [snprintf, List.take_of_length_le, String.ofList_toList]
  rw [String.length_toList]
  omega

/-- What does not fit makes no difference. -/
theorem snprintf_append {size : Nat} {front : String} (rest : String)
    (h : size - 1 ≤ front.length) : snprintf size (front ++ rest) = snprintf size front := by
  rw [snprintf, snprintf, String.toList_append, List.take_append_of_le_length]
  rwa [String.length_toList]

/-- A number of ten digits at the end is kept where there is room for it. -/
theorem snprintf_append_repr {size n : Nat} {front : String} (hn : n < 10 ^ 10)
    (h : front.length + 10 < size) : snprintf size (front ++ Nat.repr n) = front ++ Nat.repr n := by
  have hdigits : (Nat.repr n).length ≤ 10 := (Nat.length_repr_le_iff (by decide)).mpr hn
  apply snprintf_of_lt
  rw [String.length_append]
  omega

/-- Numbers that end a text are told apart by it. -/
theorem append_repr_injective {front : String} {i j : Nat}
    (h : front ++ Nat.repr i = front ++ Nat.repr j) : i = j := by
  rw [String.append_right_inj] at h
  have hdigits := congrArg String.toList h
  rw [Nat.toList_repr, Nat.toList_repr] at hdigits
  rw [← Nat.ofDigitChars_ten_toDigits (n := i), hdigits, Nat.ofDigitChars_ten_toDigits]

end Cnet.Base
