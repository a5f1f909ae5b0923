import Mathlib.Data.List.Basic

/-!
# Checked computations on machine words and blocks

`assert` fails where its condition does. A block is a list of cells; `load` and
`store` fail outside it, so a computation that succeeds has made no access out of
bounds. Index arithmetic is modulo the word size and is exact exactly when nothing
wraps.
-/

namespace Cnet.Support

universe u
variable {α : Type u}

/-- An assert of the modelled code. -/
def assert (p : Prop) [Decidable p] : Option Unit := if p then some () else none

theorem assert_pos {p : Prop} [Decidable p] (h : p) : assert p = some () := if_pos h

/-- What follows an assert is reached exactly if the assert holds. -/
theorem bind_assert {β : Type u} {p : Prop} [Decidable p] {f : Unit → Option β} {b : β} :
    (assert p).bind f = some b ↔ p ∧ f () = some b := by
  rw [assert]
  by_cases h : p
  · rw [if_pos h, Option.bind_some, and_iff_right h]
  · rw [if_neg h, Option.bind_none]
    exact iff_of_false (Option.some_ne_none b).symm fun hb => h hb.1

/-- Two to the number of bits of a `size_t`. -/
def wordSize : Nat := 0x10000000000000000

def addWord (a b : Nat) : Nat := (a + b) % wordSize
def subWord (a b : Nat) : Nat := (a + (wordSize - b)) % wordSize

theorem addWord_of_lt {a b : Nat} (h : a + b < wordSize) : addWord a b = a + b :=
  Nat.mod_eq_of_lt h

theorem subWord_of_le {a b : Nat} (hba : b ≤ a) (ha : a < wordSize) :
    subWord a b = a - b := by
  unfold subWord
  rw [show a + (wordSize - b) = (a - b) + wordSize from by omega, Nat.add_mod_right]
  exact Nat.mod_eq_of_lt (by omega)

/-- The cells `i, …, j-1`. -/
def slice (m : List α) (i j : Nat) : List α := (m.drop i).take (j - i)

/-- Replace the cells from `i` on by `d`. -/
def overwrite (m : List α) (i : Nat) (d : List α) : List α :=
  m.take i ++ d ++ m.drop (i + d.length)

/-- Read `n` cells from `i` on. -/
def load (m : List α) (i n : Nat) : Option (List α) :=
  if i + n ≤ m.length then some (slice m i (i + n)) else none

/-- Write `d` from cell `i` on. -/
def store (m : List α) (i : Nat) (d : List α) : Option (List α) :=
  if i + d.length ≤ m.length then some (overwrite m i d) else none

theorem load_of_le {m : List α} {i n : Nat} (h : i + n ≤ m.length) :
    load m i n = some (slice m i (i + n)) := if_pos h

theorem store_of_le {m d : List α} {i : Nat} (h : i + d.length ≤ m.length) :
    store m i d = some (overwrite m i d) := if_pos h

@[simp] theorem slice_self (m : List α) (i : Nat) : slice m i i = [] := by simp [slice]

theorem length_slice {m : List α} {i j : Nat} (h : j ≤ m.length) :
    (slice m i j).length = j - i := by
  simp only [slice, List.length_take, List.length_drop]
  omega

theorem drop_slice (m : List α) (i j n : Nat) : (slice m i j).drop n = slice m (i + n) j := by
  simp only [slice, List.drop_take, List.drop_drop]
  congr 1
  omega

theorem take_slice (m : List α) {i j n : Nat} (h : n ≤ j - i) :
    (slice m i j).take n = slice m i (i + n) := by
  simp only [slice, List.take_take]
  congr 1
  omega

theorem slice_append_slice (m : List α) {i j k : Nat} (hij : i ≤ j) (hjk : j ≤ k) :
    slice m i j ++ slice m j k = slice m i k := by
  have hd : slice m j k = (slice m i k).drop (j - i) := by
    rw [drop_slice, Nat.add_sub_cancel' hij]
  have ht : slice m i j = (slice m i k).take (j - i) := by
    rw [take_slice m (by omega), Nat.add_sub_cancel' hij]
  rw [hd, ht, List.take_append_drop]

/-- Growing the block at its end leaves what was in it. -/
theorem slice_grow {m : List α} (x : List α) {i j : Nat} (h : j ≤ m.length) :
    slice (m ++ x) i j = slice m i j := by
  by_cases hi : i ≤ m.length
  · rw [slice, List.drop_append_of_le_length hi, List.take_append_of_le_length
      (by rw [List.length_drop]; omega)]
    rfl
  · rw [slice, slice, show j - i = 0 from by omega, List.take_zero, List.take_zero]

theorem length_overwrite {m d : List α} {i : Nat} (h : i + d.length ≤ m.length) :
    (overwrite m i d).length = m.length := by
  simp only [overwrite, List.length_append, List.length_take, List.length_drop]
  omega

theorem slice_overwrite {m d : List α} {i : Nat} (h : i + d.length ≤ m.length) :
    slice (overwrite m i d) i (i + d.length) = d := by
  have hl : (m.take i).length = i := by rw [List.length_take]; omega
  rw [slice, overwrite, List.append_assoc, List.drop_left' hl, Nat.add_sub_cancel_left,
    List.take_left' rfl]

theorem slice_overwrite_before {m d : List α} {i j k : Nat} (hk : k ≤ i)
    (h : i + d.length ≤ m.length) : slice (overwrite m i d) j k = slice m j k := by
  have hl : (m.take i).length = i := by rw [List.length_take]; omega
  rw [overwrite, List.append_assoc, slice_grow _ (by omega)]
  conv_rhs => rw [← List.take_append_drop i m]
  rw [slice_grow _ (by omega)]

theorem slice_overwrite_after {m d : List α} {i j k : Nat} (hj : i + d.length ≤ j)
    (h : i + d.length ≤ m.length) : slice (overwrite m i d) j k = slice m j k := by
  have hl : (m.take i ++ d).length = i + d.length := by
    rw [List.length_append, List.length_take]; omega
  rw [slice, overwrite, List.drop_append, List.drop_eq_nil_of_le (by omega), List.nil_append, hl,
    List.drop_drop, Nat.add_sub_cancel' hj]
  rfl

theorem overwrite_nil {m : List α} {i : Nat} : overwrite m i [] = m := by
  rw [overwrite, List.append_nil, List.length_nil, Nat.add_zero, List.take_append_drop]

theorem overwrite_append_cons (before after : List α) (a b : α) :
    overwrite (before ++ a :: after) before.length [b] = before ++ b :: after := by
  rw [overwrite, List.take_left, List.length_singleton, ← List.drop_drop, List.drop_left,
    List.append_assoc]
  rfl

/-- Two writes in a row are one. -/
theorem overwrite_overwrite {m d e : List α} {i : Nat} (h : i ≤ m.length) :
    overwrite (overwrite m i d) (i + d.length) e = overwrite m i (d ++ e) := by
  have hl : (m.take i ++ d).length = i + d.length := by
    rw [List.length_append, List.length_take_of_le h]
  have htake : (overwrite m i d).take (i + d.length) = m.take i ++ d := List.take_left' hl
  have hdrop : (overwrite m i d).drop (i + d.length) = m.drop (i + d.length) := List.drop_left' hl
  rw [overwrite, htake, ← List.drop_drop, hdrop, List.drop_drop, overwrite, List.length_append,
    Nat.add_assoc, ← List.append_assoc (List.take i m)]

/-- A write at the same place, no longer than the one before it. -/
theorem overwrite_overwrite_front {m d d' e : List α} {i : Nat} (hlen : d'.length = d.length)
    (h : i ≤ m.length) : overwrite (overwrite m i (d ++ e)) i d' = overwrite m i (d' ++ e) := by
  have hl : (m.take i).length = i := List.length_take_of_le h
  have hcells : overwrite m i (d ++ e) =
      m.take i ++ (d ++ (e ++ m.drop (i + (d ++ e).length))) := by
    rw [overwrite, List.append_assoc, List.append_assoc]
  have htake : (overwrite m i (d ++ e)).take i = m.take i := by rw [hcells, List.take_left' hl]
  have hdrop : (overwrite m i (d ++ e)).drop (i + d'.length) =
      e ++ m.drop (i + (d ++ e).length) := by
    rw [hcells, ← List.drop_drop, List.drop_left' hl, List.drop_left' hlen.symm]
  rw [overwrite, htake, hdrop, overwrite, List.length_append, List.length_append, hlen,
    List.append_assoc, List.append_assoc, List.append_assoc]

end Cnet.Support
