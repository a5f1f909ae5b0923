import Cnet.Support.Memory

/-!
# Arrays of characters

A `CharArray n` has `n` cells, and a write outside them has no result. `Extends` says what
a series of writes at the end of some text comes to: the text before it is as it was, and
so much has been put after it. `Overwrites` says it of all cells.
-/

namespace Cnet.Support

structure CharArray (n : Nat) where
  cells : List UInt8
  length_cells : cells.length = n
deriving DecidableEq

namespace CharArray

/-- What `bzero` leaves. -/
def zero (n : Nat) : CharArray n := ⟨List.replicate n 0, List.length_replicate⟩

variable {n : Nat}

theorem length_overwrite_cells (a : CharArray n) {i : Nat} {d : List UInt8}
    (h : i + d.length ≤ n) : (overwrite a.cells i d).length = n :=
  (length_overwrite (by rw [a.length_cells]; exact h)).trans a.length_cells

theorem length_take_cells (a : CharArray n) {i : Nat} (h : i ≤ n) :
    (a.cells.take i).length = i := by
  rw [List.length_take, a.length_cells, Nat.min_eq_left h]

/-- `memcpy` to place `i`. -/
def write (a : CharArray n) (i : Nat) (d : List UInt8) : Option (CharArray n) :=
  if h : i + d.length ≤ n then some ⟨overwrite a.cells i d, a.length_overwrite_cells h⟩ else none

/-- `std::reverse` of the cells from place `i` to place `j`. -/
def reverse (a : CharArray n) (i j : Nat) : Option (CharArray n) :=
  (load a.cells i (j - i)).bind fun d => a.write i d.reverse

/-- Up to place `i` nothing is changed, and `d` comes after it. -/
def Extends (a : CharArray n) (i : Nat) (a' : CharArray n) (d : List UInt8) : Prop :=
  a'.cells.take (i + d.length) = a.cells.take i ++ d

variable {a a' a'' : CharArray n} {i : Nat} {d e : List UInt8}

theorem write_extends (a : CharArray n) (h : i + d.length ≤ n) :
    ∃ a', a.write i d = some a' ∧ a.Extends i a' d := by
  refine ⟨_, dif_pos h, ?_⟩
  have hlen : (a.cells.take i ++ d).length = i + d.length := by
    rw [List.length_append, a.length_take_cells (by omega)]
  exact List.take_left' hlen

namespace Extends

theorem trans (h : a.Extends i a' d) (h' : a'.Extends (i + d.length) a'' e) :
    a.Extends i a'' (d ++ e) := by
  rw [Extends] at h h' ⊢
  rw [List.length_append, ← Nat.add_assoc, h', h, List.append_assoc]

/-- What comes after `d` may be left out of account. -/
theorem of_append (h : a.Extends i a' (d ++ e)) (hi : i ≤ n) : a.Extends i a' d := by
  have hlen : (a.cells.take i ++ d).length = i + d.length := by
    rw [List.length_append, a.length_take_cells hi]
  have htake := congrArg (List.take (i + d.length)) h
  rwa [List.take_take, Nat.min_eq_left (by rw [List.length_append]; omega), ← List.append_assoc,
    List.take_left' hlen] at htake

end Extends

/-- `a'` is `a` with `d` at place `i`. -/
def Overwrites (a : CharArray n) (i : Nat) (a' : CharArray n) (d : List UInt8) : Prop :=
  a'.cells = overwrite a.cells i d

theorem write_overwrites (a : CharArray n) (h : i + d.length ≤ n) :
    ∃ a', a.write i d = some a' ∧ a.Overwrites i a' d :=
  ⟨_, dif_pos h, rfl⟩

namespace Overwrites

theorem toExtends (h : a.Overwrites i a' d) (hi : i ≤ n) : a.Extends i a' d := by
  have hlen : (a.cells.take i ++ d).length = i + d.length := by
    rw [List.length_append, a.length_take_cells hi]
  rw [Extends, h, overwrite, List.take_left' hlen]

theorem trans (h : a.Overwrites i a' d) (h' : a'.Overwrites (i + d.length) a'' e) (hi : i ≤ n) :
    a.Overwrites i a'' (d ++ e) := by
  rw [Overwrites] at h h' ⊢
  rw [h', h, overwrite_overwrite (by rw [a.length_cells]; exact hi)]

/-- The first part of what was written is reversed. -/
theorem reverse (h : a.Overwrites i a' (d ++ e)) (hi : i + d.length + e.length ≤ n) :
    ∃ a'', a'.reverse i (i + d.length) = some a'' ∧ a.Overwrites i a'' (d.reverse ++ e) := by
  have hload : load a'.cells i d.length = some d := by
    have hl : (a.cells.take i).length = i := a.length_take_cells (by omega)
    have hslice : slice a'.cells i (i + d.length) = d := by
      rw [slice, Nat.add_sub_cancel_left, h, overwrite, List.append_assoc, List.append_assoc,
        List.drop_left' hl, List.take_left' rfl]
    rw [load_of_le (by rw [a'.length_cells]; omega), hslice]
  have hlen : d.reverse.length = d.length := List.length_reverse
  obtain ⟨a'', hwrite, hcells⟩ := a'.write_overwrites (i := i) (d := d.reverse) (by omega)
  refine ⟨a'', ?_, ?_⟩
  · rw [CharArray.reverse, Nat.add_sub_cancel_left, hload, Option.bind_some, hwrite]
  · rw [Overwrites] at h hcells ⊢
    rw [hcells, h, overwrite_overwrite_front hlen (by rw [a.length_cells]; omega)]

end Overwrites

end CharArray

end Cnet.Support
