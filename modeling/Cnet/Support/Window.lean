import Mathlib.Algebra.BigOperators.Group.List.Basic
import Mathlib.Data.Int.Order.Basic
import Mathlib.Data.List.Basic
import Mathlib.Logic.Function.Basic

/-!
# Sums for the places of a moving window

Values fall into places on the integers, and a circular buffer holds the sum of each of the
last places. A new place that no value has fallen into yet is pushed as a zero; a value that
falls into a place of the window is added there.
-/

namespace Cnet.Support

universe u v
variable {α : Type u}

/-- A buffer that holds so many items at most: what is over goes, the oldest first. -/
structure CircularBuffer (α : Type u) (capacity : Nat) where
  items : List α
  length_le : items.length ≤ capacity
deriving DecidableEq

namespace CircularBuffer

variable {capacity : Nat}

def empty : CircularBuffer α capacity := ⟨[], Nat.zero_le _⟩

def size (b : CircularBuffer α capacity) : Nat := b.items.length

theorem length_pushed_le (b : CircularBuffer α capacity) (x : α) :
    ((b.items ++ [x]).drop (b.size + 1 - capacity)).length ≤ capacity := by
  rw [List.length_drop, List.length_append, List.length_singleton, size]
  omega

def pushBack (b : CircularBuffer α capacity) (x : α) : CircularBuffer α capacity :=
  ⟨_, b.length_pushed_le x⟩

theorem length_modified_le (b : CircularBuffer α capacity) (i : Nat) (f : α → α) :
    (b.items.modify i f).length ≤ capacity :=
  (List.length_modify f b.items i).trans_le b.length_le

/-- Change the item at `i`, which has to be there. -/
def modify (b : CircularBuffer α capacity) (i : Nat) (f : α → α) :
    Option (CircularBuffer α capacity) :=
  if i < b.size then some ⟨_, b.length_modified_le i f⟩ else none

/-- Change the newest item. -/
def modifyBack (b : CircularBuffer α capacity) (f : α → α) : Option (CircularBuffer α capacity) :=
  if b.size = 0 then none else b.modify (b.size - 1) f

theorem modifyBack_eq {b : CircularBuffer α capacity} (h : 0 < b.size) (f : α → α) :
    b.modifyBack f = b.modify (b.size - 1) f := if_neg (Nat.ne_of_gt h)

end CircularBuffer

/-- What `f` is at the `n` places that end with `last`. -/
def window (f : Int → α) (last : Int) (n : Nat) : List α :=
  (List.range n).map fun i : Nat => f (last - n + 1 + i)

section Window

variable {f g : Int → α} {last : Int} {n : Nat}

@[simp] theorem length_window (f : Int → α) (last : Int) (n : Nat) :
    (window f last n).length = n := by
  rw [window, List.length_map, List.length_range]

theorem getElem?_window (f : Int → α) (last : Int) {n i : Nat} (h : i < n) :
    (window f last n)[i]? = some (f (last - n + 1 + i)) := by
  rw [window, List.getElem?_map, List.getElem?_range h, Option.map_some]

theorem window_zero (f : Int → α) (last : Int) : window f last 0 = [] := rfl

theorem window_succ (f : Int → α) (last : Int) (n : Nat) :
    window f (last + 1) (n + 1) = window f last n ++ [f (last + 1)] := by
  rw [window, window, List.range_succ, List.map_append, List.map_singleton]
  congr 1
  · refine List.map_congr_left fun i _ => ?_
    congr 1
    omega
  · congr 2
    omega

theorem drop_window (f : Int → α) (last : Int) (k n : Nat) :
    (window f last n).drop k = window f last (n - k) := by
  refine List.ext_getElem? fun i => ?_
  rw [List.getElem?_drop]
  by_cases hi : k + i < n
  · rw [getElem?_window f last hi, getElem?_window f last (by omega)]
    congr 2
    omega
  · rw [List.getElem?_eq_none (by rw [length_window]; omega),
      List.getElem?_eq_none (by rw [length_window]; omega)]

/-- Windows agree where the functions agree on every place of them. -/
theorem window_congr (h : ∀ t, last - n < t → t ≤ last → f t = g t) :
    window f last n = window g last n :=
  List.map_congr_left fun i hi => by
    have := List.mem_range.mp hi
    exact h _ (by omega) (by omega)

theorem modify_window (f : Int → α) (last : Int) (n i : Nat) (change : α → α) :
    (window f last n).modify i change =
      window (Function.update f (last - n + 1 + i) (change (f (last - n + 1 + i)))) last n := by
  refine List.ext_getElem? fun j => ?_
  rw [List.getElem?_modify]
  by_cases hj : j < n
  · rw [getElem?_window f last hj, getElem?_window _ last hj, Option.map_eq_map, Option.map_some]
    by_cases hij : i = j
    · rw [if_pos hij, hij, Function.update_self]
    · rw [if_neg hij, Function.update_of_ne (by omega)]
  · rw [List.getElem?_eq_none (by rw [length_window]; omega),
      List.getElem?_eq_none (by rw [length_window]; omega)]
    rfl

end Window

namespace CircularBuffer

variable {capacity n : Nat} {b b' : CircularBuffer α capacity} {f : Int → α} {last : Int}

/-- The next place of the window. -/
theorem pushBack_window (h : b.items = window f last n) {x : α} (hx : f (last + 1) = x) :
    (b.pushBack x).items = window f (last + 1) (min capacity (n + 1)) := by
  have hsize : b.size = n := by rw [size, h, length_window]
  have hle := b.length_le
  show (b.items ++ [x]).drop (b.size + 1 - capacity) = _
  rw [h, ← hx, ← window_succ, drop_window, hsize]
  congr 1
  omega

/-- A change at a place of the window. -/
theorem modify_items (h : b.items = window f last n) {i : Nat} (hi : i < n) (change : α → α) :
    ∃ b', b.modify i change = some b' ∧
      b'.items =
        window (Function.update f (last - n + 1 + i) (change (f (last - n + 1 + i)))) last n := by
  have hsize : b.size = n := by rw [size, h, length_window]
  refine ⟨_, if_pos (hsize ▸ hi), ?_⟩
  show b.items.modify i change = _
  rw [h, modify_window]

end CircularBuffer

section Tally

variable {ι : Type u} {M : Type v} [AddCommMonoid M] (key : ι → Int) (value : ι → M)

/-- The values of the items that meet `p` added up. -/
def sumWhere (p : ι → Bool) (xs : List ι) : M := ((xs.filter p).map value).sum

/-- The values that fall into place `t` added up. -/
def tally (xs : List ι) (t : Int) : M := sumWhere value (fun x => key x = t) xs

variable {key value} {p q r : ι → Bool} {xs : List ι}

theorem sumWhere_cons (x : ι) :
    sumWhere value p (x :: xs) = (if p x then value x else 0) + sumWhere value p xs := by
  rw [sumWhere, List.filter_cons]
  by_cases hp : p x = true
  · rw [if_pos hp, if_pos hp, List.map_cons, List.sum_cons, sumWhere]
  · rw [if_neg hp, if_neg hp, zero_add, sumWhere]

theorem sumWhere_concat (x : ι) :
    sumWhere value p (xs ++ [x]) = sumWhere value p xs + (if p x then value x else 0) := by
  rw [sumWhere, List.filter_append, List.map_append, List.sum_append, sumWhere]
  congr 1
  by_cases hp : p x = true
  · rw [List.filter_singleton, hp, if_pos rfl, cond_true, List.map_singleton, List.sum_singleton]
  · rw [Bool.not_eq_true] at hp
    rw [List.filter_singleton, hp, if_neg Bool.false_ne_true, cond_false, List.map_nil,
      List.sum_nil]

/-- What meets one condition, and what meets another that excludes it. -/
theorem sumWhere_or (h : ∀ x ∈ xs, r x = (p x || q x)) (hapart : ∀ x ∈ xs, p x → q x = false) :
    sumWhere value r xs = sumWhere value p xs + sumWhere value q xs := by
  induction xs with
  | nil => exact (zero_add 0).symm
  | cons x xs ih =>
    have ih := ih (fun y hy => h y (List.mem_cons_of_mem x hy))
      (fun y hy => hapart y (List.mem_cons_of_mem x hy))
    have hx := h x List.mem_cons_self
    rw [sumWhere_cons, sumWhere_cons, sumWhere_cons, ih, hx]
    by_cases hp : p x = true
    · rw [hp, hapart x List.mem_cons_self hp, Bool.true_or, if_pos rfl, if_neg Bool.false_ne_true,
        zero_add, add_assoc]
    · rw [Bool.not_eq_true] at hp
      rw [hp, Bool.false_or, if_neg Bool.false_ne_true, zero_add, add_left_comm]

theorem sumWhere_none (h : ∀ x ∈ xs, p x = false) : sumWhere value p xs = 0 := by
  rw [sumWhere, List.filter_eq_nil_iff.mpr fun x hx => by rw [h x hx]; exact Bool.false_ne_true]
  rfl

theorem sumWhere_congr (h : ∀ x ∈ xs, p x = q x) : sumWhere value p xs = sumWhere value q xs := by
  rw [sumWhere, List.filter_congr h, sumWhere]

/-- One more item changes the sum of its place only. -/
theorem tally_concat (x : ι) :
    tally key value (xs ++ [x]) =
      Function.update (tally key value xs) (key x) (tally key value xs (key x) + value x) := by
  funext t
  rw [tally, sumWhere_concat]
  by_cases ht : key x = t
  · rw [if_pos (decide_eq_true ht), ht, Function.update_self, tally]
  · rw [if_neg (by rw [decide_eq_true_eq]; exact ht), add_zero,
      Function.update_of_ne (Ne.symm ht), tally]

theorem tally_zero {t : Int} (h : ∀ x ∈ xs, key x ≠ t) : tally key value xs t = 0 :=
  sumWhere_none fun x hx => decide_eq_false (h x hx)

/-- A window of sums adds up to the values of all items that fall into it. -/
theorem sum_window (xs : List ι) (last : Int) (n : Nat) :
    (window (tally key value xs) last n).sum =
      sumWhere value (fun x => last - n < key x ∧ key x ≤ last) xs := by
  induction n generalizing last with
  | zero =>
    rw [window_zero, List.sum_nil]
    exact (sumWhere_none fun x _ => decide_eq_false (by omega)).symm
  | succ n ih =>
    obtain ⟨before, rfl⟩ : ∃ before, last = before + 1 := ⟨last - 1, by omega⟩
    rw [window_succ, List.sum_append, List.sum_singleton, ih, tally]
    refine (sumWhere_or (fun x _ => ?_) fun x _ hp => ?_).symm
    · rw [← Bool.decide_or, decide_eq_decide]
      omega
    · have := of_decide_eq_true hp
      exact decide_eq_false (by omega)

end Tally

end Cnet.Support
