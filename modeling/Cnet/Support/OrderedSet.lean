import Mathlib.Data.Prod.Lex
import Mathlib.Data.List.Perm.Basic

/-!
# Ordered sets

`std::set` as the list of its elements in the order of a key. Each operation is
described by the elements it keeps, up to order, so that a user of the set reasons
about permutations and never about positions.
-/

namespace Cnet.Support.OrderedSet

universe u v
variable {α : Type u} {κ : Type v} [LinearOrder κ] (key : α → κ)

/-- The representation invariant: strictly increasing keys. -/
def Sorted (s : List α) : Prop := s.Pairwise fun x y => key x < key y

/-- `insert(x)`: the set, and whether `x` was new. -/
def insert (x : α) : List α → List α × Bool
  | [] => ([x], true)
  | y :: s =>
    if key x < key y then (x :: y :: s, true)
    else if key x = key y then (y :: s, false)
    else
      let (s, inserted) := insert x s
      (y :: s, inserted)

/-- `erase(k)`: the set, and how many elements were erased. -/
def erase (k : κ) : List α → List α × Nat
  | [] => ([], 0)
  | y :: s =>
    if key y = k then (s, 1)
    else
      let (s, n) := erase k s
      (y :: s, n)

/-- `find(k)` -/
def find (k : κ) (s : List α) : Option α := s.find? fun x => key x = k

/-- The elements before `lower_bound(k)`. -/
def below (k : κ) (s : List α) : List α := s.takeWhile fun x => key x < k

/-- The elements from `lower_bound(k)` on. -/
def from_ (k : κ) (s : List α) : List α := s.dropWhile fun x => key x < k

variable {key}

/-- The element at a key that occurs in the set is there once. -/
theorem Sorted.eq_of_key {s : List α} (h : Sorted key s) {x y : α} (hx : x ∈ s) (hy : y ∈ s)
    (he : key x = key y) : x = y := by
  induction s with
  | nil => exact absurd hx List.not_mem_nil
  | cons z s ih =>
    obtain ⟨hz, hs⟩ := List.pairwise_cons.mp h
    rcases List.mem_cons.mp hx with hxz | hx <;> rcases List.mem_cons.mp hy with hyz | hy
    · rw [hxz, hyz]
    · exact absurd he (ne_of_lt (hxz ▸ hz y hy))
    · exact absurd he.symm (ne_of_lt (hyz ▸ hz x hx))
    · exact ih hs hx hy

theorem Sorted.nodup {s : List α} (h : Sorted key s) : s.Nodup :=
  List.Pairwise.imp (fun hlt heq => absurd (congrArg key heq) (ne_of_lt hlt)) h

/-- Inserting an element with a new key. -/
theorem insert_new {s : List α} (h : Sorted key s) {x : α} (hx : ∀ y ∈ s, key y ≠ key x) :
    (insert key x s).2 = true ∧ (insert key x s).1.Perm (x :: s) ∧
      Sorted key (insert key x s).1 := by
  induction s with
  | nil => exact ⟨rfl, .refl _, List.pairwise_singleton _ _⟩
  | cons y s ih =>
    obtain ⟨hy, hs⟩ := List.pairwise_cons.mp h
    rw [insert]
    by_cases hlt : key x < key y
    · rw [if_pos hlt]
      refine ⟨rfl, .refl _, List.pairwise_cons.mpr ⟨fun z hz => ?_, h⟩⟩
      rcases List.mem_cons.mp hz with rfl | hz
      · exact hlt
      · exact hlt.trans (hy z hz)
    · have hne : key y ≠ key x := hx y List.mem_cons_self
      obtain ⟨hnew, hperm, hsorted⟩ := ih hs fun z hz => hx z (List.mem_cons_of_mem _ hz)
      rw [if_neg hlt, if_neg fun he => hne he.symm]
      refine ⟨hnew, (hperm.cons y).trans (List.Perm.swap x y s),
        List.pairwise_cons.mpr ⟨?_, hsorted⟩⟩
      intro z hz
      rcases List.mem_cons.mp (hperm.mem_iff.mp hz) with rfl | hz
      · exact lt_of_le_of_ne (not_lt.mp hlt) hne
      · exact hy z hz

/-- Erasing an element of the set. -/
theorem erase_mem {s : List α} (h : Sorted key s) {x : α} (hx : x ∈ s) :
    (erase key (key x) s).2 = 1 ∧ s.Perm (x :: (erase key (key x) s).1) ∧
      Sorted key (erase key (key x) s).1 := by
  induction s with
  | nil => exact absurd hx List.not_mem_nil
  | cons y s ih =>
    obtain ⟨hy, hs⟩ := List.pairwise_cons.mp h
    rw [erase]
    by_cases he : key y = key x
    · rw [if_pos he]
      obtain rfl := h.eq_of_key List.mem_cons_self hx he
      exact ⟨rfl, .refl _, hs⟩
    · rw [if_neg he]
      have hx : x ∈ s := (List.mem_cons.mp hx).resolve_left fun hxy => he (by rw [hxy])
      obtain ⟨hone, hperm, hsorted⟩ := ih hs hx
      refine ⟨hone, (hperm.cons y).trans (List.Perm.swap x y _),
        List.pairwise_cons.mpr ⟨?_, hsorted⟩⟩
      exact fun z hz => hy z (hperm.mem_iff.mpr (List.mem_cons_of_mem _ hz))

theorem erase_subset {s : List α} {k : κ} : (erase key k s).1 ⊆ s := by
  induction s with
  | nil => exact List.Subset.refl _
  | cons y s ih =>
    rw [erase]
    by_cases he : key y = k
    · rw [if_pos he]
      exact List.subset_cons_self _ _
    · rw [if_neg he]
      exact List.cons_subset_cons y ih

/-- An insertion adds one element at most. -/
theorem mem_insert {s : List α} {x y : α} (h : y ∈ (insert key x s).1) : y = x ∨ y ∈ s := by
  induction s with
  | nil => exact .inl (List.mem_singleton.mp h)
  | cons z s ih =>
    rw [insert] at h
    by_cases hlt : key x < key z
    · rw [if_pos hlt] at h
      exact List.mem_cons.mp h
    · rw [if_neg hlt] at h
      by_cases he : key x = key z
      · rw [if_pos he] at h
        exact .inr h
      · rw [if_neg he] at h
        rcases List.mem_cons.mp h with rfl | h
        · exact .inr List.mem_cons_self
        · exact (ih h).imp_right (List.mem_cons_of_mem _)

theorem find_some {s : List α} {k : κ} {x : α} (h : find key k s = some x) :
    x ∈ s ∧ key x = k :=
  ⟨List.mem_of_find?_eq_some h, by simpa using List.find?_some h⟩

theorem find_eq_none {s : List α} {k : κ} : find key k s = none ↔ ∀ x ∈ s, key x ≠ k := by
  simp [find]

/-- After an insertion the set has the inserted key, and the keys it had. -/
theorem find_insert_eq_none {s : List α} {x : α} {k : κ} :
    find key k (insert key x s).1 = none ↔ key x ≠ k ∧ find key k s = none := by
  simp only [find_eq_none]
  induction s with
  | nil => simp [insert]
  | cons y s ih =>
    rw [insert]
    by_cases hlt : key x < key y
    · rw [if_pos hlt]
      simp
    · rw [if_neg hlt]
      by_cases he : key x = key y
      · rw [if_pos he, he]
        simp
      · rw [if_neg he]
        simp only [List.forall_mem_cons, ih]
        exact ⟨fun ⟨hy, hx, hs⟩ => ⟨hx, hy, hs⟩, fun ⟨hx, hy, hs⟩ => ⟨hy, hx, hs⟩⟩

theorem below_append_from (k : κ) (s : List α) : below key k s ++ from_ key k s = s :=
  List.takeWhile_append_dropWhile

theorem Sorted.from_ {s : List α} (h : Sorted key s) (k : κ) : Sorted key (from_ key k s) :=
  h.sublist (List.dropWhile_sublist _)

theorem lt_of_mem_below {s : List α} {k : κ} {x : α} (hx : x ∈ below key k s) : key x < k :=
  of_decide_eq_true (List.all_eq_true.mp List.all_takeWhile x hx)

/-- Nothing from `lower_bound(k)` on is below `k`. -/
theorem le_of_mem_from {s : List α} (h : Sorted key s) {k : κ} {x : α}
    (hx : x ∈ OrderedSet.from_ key k s) : k ≤ key x := by
  induction s with
  | nil => exact absurd hx List.not_mem_nil
  | cons y s ih =>
    obtain ⟨hy, hs⟩ := List.pairwise_cons.mp h
    rw [OrderedSet.from_, List.dropWhile_cons] at hx
    by_cases hlt : key y < k
    · rw [if_pos (by simpa using hlt)] at hx
      exact ih hs hx
    · rw [if_neg (by simpa using hlt)] at hx
      have hk : k ≤ key y := not_lt.mp hlt
      rcases List.mem_cons.mp hx with rfl | hx
      · exact hk
      · exact hk.trans (hy x hx).le

theorem mem_below {s : List α} (h : Sorted key s) {k : κ} {x : α} :
    x ∈ below key k s ↔ x ∈ s ∧ key x < k := by
  constructor
  · exact fun hx => ⟨(List.takeWhile_sublist _).subset hx, lt_of_mem_below hx⟩
  · rintro ⟨hx, hlt⟩
    rw [← @below_append_from _ _ _ key k s] at hx
    exact (List.mem_append.mp hx).resolve_right fun hfrom =>
      absurd hlt (not_lt.mpr (le_of_mem_from h hfrom))

theorem mem_from {s : List α} (h : Sorted key s) {k : κ} {x : α} :
    x ∈ OrderedSet.from_ key k s ↔ x ∈ s ∧ ¬ key x < k := by
  constructor
  · exact fun hx => ⟨(List.dropWhile_sublist _).subset hx, not_lt.mpr (le_of_mem_from h hx)⟩
  · rintro ⟨hx, hge⟩
    rw [← @below_append_from _ _ _ key k s] at hx
    exact (List.mem_append.mp hx).resolve_left fun hbelow => hge (lt_of_mem_below hbelow)

end Cnet.Support.OrderedSet
