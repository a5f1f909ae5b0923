import Mathlib.Data.List.Nodup
import Mathlib.Logic.Function.Basic

/-!
# Tables of buckets

A bucket is a list whose elements have different keys. A table has a bucket for every
index, and the key of an element says which bucket it is in. What such a table holds is a
function of the key; neither the index function nor the order in a bucket shows.
-/

namespace Cnet.Support.Buckets

universe u v w
variable {α : Type u} {κ : Type v} {ι : Type w} [DecidableEq κ] (key : α → κ)

/-- `find(k)` -/
def find (k : κ) (bucket : List α) : Option α := bucket.find? fun x => key x = k

/-- `erase` of the element with key `k`, if there is one. -/
def erase (k : κ) (bucket : List α) : List α := bucket.eraseP fun x => key x = k

/-- `insert(x)`, which leaves a bucket alone that has the key already. -/
def insert (x : α) (bucket : List α) : List α :=
  if (find key (key x) bucket).isSome then bucket else x :: bucket

def Unique (bucket : List α) : Prop := (bucket.map key).Nodup

variable {key} {k k' : κ} {x : α} {bucket : List α}

theorem find_eq_none : find key k bucket = none ↔ ∀ y ∈ bucket, key y ≠ k := by
  rw [find, List.find?_eq_none]
  exact forall₂_congr fun y _ => not_congr decide_eq_true_iff

theorem find_cons (y : α) (bucket : List α) :
    find key k (y :: bucket) = if key y = k then some y else find key k bucket := by
  rw [find, List.find?_cons]
  by_cases h : key y = k
  · rw [decide_eq_true h, if_pos h]
  · rw [decide_eq_false h, if_neg h]
    rfl

theorem erase_cons (y : α) (bucket : List α) :
    erase key k (y :: bucket) = if key y = k then bucket else y :: erase key k bucket := by
  rw [erase, List.eraseP_cons]
  by_cases h : key y = k
  · rw [decide_eq_true h, if_pos h]
    rfl
  · rw [decide_eq_false h, if_neg h]
    rfl

theorem erase_subset : erase key k bucket ⊆ bucket := List.eraseP_subset

theorem Unique.erase (h : Unique key bucket) : Unique key (erase key k bucket) :=
  List.Nodup.sublist (List.eraseP_sublist.map key) h

/-- Another key is found as before. -/
theorem find_erase_of_ne (h : k' ≠ k) :
    find key k' (erase key k bucket) = find key k' bucket := by
  induction bucket with
  | nil => rfl
  | cons y bucket ih =>
    rw [erase_cons, find_cons]
    by_cases hy : key y = k
    · rw [if_pos hy, if_neg fun hy' => h (hy'.symm.trans hy)]
    · rw [if_neg hy, find_cons, ih]

/-- The key is gone: no other element has it. -/
theorem Unique.find_erase (h : Unique key bucket) :
    find key k (Buckets.erase key k bucket) = none := by
  induction bucket with
  | nil => rfl
  | cons y bucket ih =>
    obtain ⟨hy, hrest⟩ := List.nodup_cons.mp h
    rw [erase_cons]
    by_cases hk : key y = k
    · rw [if_pos hk, find_eq_none]
      intro z hz hzk
      exact hy (List.mem_map.mpr ⟨z, hz, hzk.trans hk.symm⟩)
    · rw [if_neg hk, find_cons, if_neg hk, ih hrest]

theorem insert_of_find_none (h : find key (key x) bucket = none) :
    insert key x bucket = x :: bucket := by
  rw [insert, h, Option.isSome_none, if_neg Bool.false_ne_true]

theorem unique_cons (h : Unique key bucket) (hx : find key (key x) bucket = none) :
    Unique key (x :: bucket) := by
  refine List.nodup_cons.mpr ⟨fun hmem => ?_, h⟩
  obtain ⟨y, hy, hyx⟩ := List.mem_map.mp hmem
  exact find_eq_none.mp hx y hy hyx

variable (key) (index : κ → ι)

/-- The table holds what `m` says. -/
structure Represents (table : ι → List α) (m : κ → Option α) : Prop where
  unique : ∀ i, Unique key (table i)
  home : ∀ i, ∀ x ∈ table i, index (key x) = i
  lookup : ∀ k, find key k (table (index k)) = m k

variable {key index} {table : ι → List α} {m : κ → Option α}

theorem represents_empty : Represents key index (fun _ => []) fun _ => none where
  unique _ := List.nodup_nil
  home _ _ hx := absurd hx List.not_mem_nil
  lookup _ := rfl

namespace Represents

variable (h : Represents key index table m)
include h

variable [DecidableEq ι]

/-- A bucket is replaced: the other keys of it keep their elements. -/
theorem update {bucket : List α} {e : Option α} (hunique : Unique key bucket)
    (hhome : ∀ y ∈ bucket, index (key y) = index k)
    (hothers : ∀ k', k' ≠ k → find key k' bucket = find key k' (table (index k)))
    (hfind : find key k bucket = e) :
    Represents key index (Function.update table (index k) bucket) (Function.update m k e) where
  unique i := by
    by_cases hi : i = index k
    · rw [hi, Function.update_self]
      exact hunique
    · rw [Function.update_of_ne hi]
      exact h.unique i
  home i y hy := by
    by_cases hi : i = index k
    · rw [hi, Function.update_self] at hy
      rw [hi]
      exact hhome y hy
    · rw [Function.update_of_ne hi] at hy
      exact h.home i y hy
  lookup k' := by
    by_cases hk : k' = k
    · rw [hk, Function.update_self, Function.update_self]
      exact hfind
    · rw [Function.update_of_ne hk, ← h.lookup k']
      by_cases hi : index k' = index k
      · rw [hi, Function.update_self]
        exact hothers k' hk
      · rw [Function.update_of_ne hi]

/-- Erase, and insert an element that has the key. -/
theorem put (hx : key x = k) :
    Represents key index
      (Function.update table (index k) (insert key x (erase key k (table (index k)))))
      (Function.update m k (some x)) := by
  subst hx
  have hgone := (h.unique (index (key x))).find_erase (k := key x)
  rw [insert_of_find_none hgone]
  refine h.update (unique_cons (h.unique _).erase hgone) ?_ ?_ ?_
  · intro y hy
    rcases List.mem_cons.mp hy with rfl | hy
    · rfl
    · exact h.home _ y (erase_subset hy)
  · intro k' hk'
    rw [find_cons, if_neg (Ne.symm hk'), find_erase_of_ne hk']
  · rw [find_cons, if_pos rfl]

theorem drop (k : κ) :
    Represents key index (Function.update table (index k) (erase key k (table (index k))))
      (Function.update m k none) :=
  h.update (h.unique _).erase (fun y hy => h.home _ y (erase_subset hy))
    (fun _ hk' => find_erase_of_ne hk') (h.unique _).find_erase

end Represents

end Cnet.Support.Buckets
