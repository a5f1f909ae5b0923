import Mathlib.Data.List.Lex

/-!
# Comparing lists

A number can say by its sign how two lists are ordered. Two lists are in lexicographic
order if their first difference is in order, or if there is none and the first list is the
shorter one.
-/

namespace Cnet.Support

universe u
variable {α : Type u} {r : α → α → Prop} {v w z : Int} {l l' k : List α}

/-- The sign of `v` says which list comes first. -/
structure SignOfOrder (r : α → α → Prop) (v : Int) (l l' : List α) : Prop where
  less : v < 0 ↔ List.Lex r l l'
  same : v = 0 ↔ l = l'
  greater : 0 < v ↔ List.Lex r l' l

namespace SignOfOrder

theorem sign_swap (h : SignOfOrder r v l l') (h' : SignOfOrder r w l' l) : w.sign = -v.sign := by
  have hneg : v < 0 ↔ 0 < w := h.less.trans h'.greater.symm
  have hpos : 0 < v ↔ w < 0 := h.greater.trans h'.less.symm
  rcases Int.lt_trichotomy v 0 with hv | hv | hv
  · rw [Int.sign_eq_neg_one_of_neg hv, Int.sign_eq_one_of_pos (hneg.mp hv)]
    rfl
  · have hw : w = 0 := by omega
    rw [hv, hw]
    rfl
  · rw [Int.sign_eq_one_of_pos hv, Int.sign_eq_neg_one_of_neg (hpos.mp hv)]

variable [IsTrans α r]

theorem neg_trans (h : SignOfOrder r v l l') (h' : SignOfOrder r w l' k) (h'' : SignOfOrder r z l k)
    (hv : v < 0) (hw : w < 0) : z < 0 :=
  h''.less.mpr (List.lex_trans (IsTrans.trans _ _ _) (h.less.mp hv) (h'.less.mp hw))

theorem nonpos_trans (h : SignOfOrder r v l l') (h' : SignOfOrder r w l' k)
    (h'' : SignOfOrder r z l k) (hv : v ≤ 0) (hw : w ≤ 0) : z ≤ 0 := by
  rcases Int.lt_or_eq_of_le hv with hneg | hzero
  · rcases Int.lt_or_eq_of_le hw with hneg' | hzero'
    · exact Int.le_of_lt (h.neg_trans h' h'' hneg hneg')
    · obtain rfl := h'.same.mp hzero'
      exact Int.le_of_lt (h''.less.mpr (h.less.mp hneg))
  · obtain rfl := h.same.mp hzero
    rcases Int.lt_or_eq_of_le hw with hneg' | hzero'
    · exact Int.le_of_lt (h''.less.mpr (h'.less.mp hneg'))
    · exact Int.le_of_eq (h''.same.mpr (h'.same.mp hzero'))

end SignOfOrder

/-! ## The first difference -/

section Difference
variable [DecidableEq α]

/-- The elements at the first place where both lists have one and these differ. -/
def firstDifference : List α → List α → Option (α × α)
  | a :: l, b :: l' => if a = b then firstDifference l l' else some (a, b)
  | _, _ => none

theorem firstDifference_nil (l : List α) : firstDifference l [] = none := by
  cases l <;> rfl

theorem firstDifference_cons_self (a : α) (l l' : List α) :
    firstDifference (a :: l) (a :: l') = firstDifference l l' := if_pos rfl

theorem firstDifference_cons_of_ne {a b : α} (h : a ≠ b) (l l' : List α) :
    firstDifference (a :: l) (b :: l') = some (a, b) := if_neg h

theorem firstDifference_swap (l l' : List α) :
    firstDifference l' l = (firstDifference l l').map Prod.swap := by
  induction l generalizing l' with
  | nil => exact firstDifference_nil l'
  | cons a l ih =>
    cases l' with
    | nil => rfl
    | cons b l' =>
      by_cases hab : a = b
      · subst hab
        rw [firstDifference_cons_self, firstDifference_cons_self]
        exact ih l'
      · rw [firstDifference_cons_of_ne hab, firstDifference_cons_of_ne (Ne.symm hab)]
        rfl

theorem firstDifference_eq_none_comm :
    firstDifference l' l = none ↔ firstDifference l l' = none := by
  rw [firstDifference_swap, Option.map_eq_none_iff]

/-- Behind the end of the shorter list nothing is compared. -/
theorem firstDifference_take {n : Nat} (h : l.length ≤ n ∨ l'.length ≤ n) :
    firstDifference (l.take n) (l'.take n) = firstDifference l l' := by
  induction l generalizing l' n with
  | nil => rw [List.take_nil]; rfl
  | cons a l ih =>
    cases l' with
    | nil => rw [List.take_nil, firstDifference_nil, firstDifference_nil]
    | cons b l' =>
      cases n with
      | zero => exact absurd h (by simp)
      | succ n =>
        rw [List.take_succ_cons, List.take_succ_cons]
        by_cases hab : a = b
        · subst hab
          rw [firstDifference_cons_self, firstDifference_cons_self]
          exact ih (h.imp Nat.le_of_succ_le_succ Nat.le_of_succ_le_succ)
        · rw [firstDifference_cons_of_ne hab, firstDifference_cons_of_ne hab]

theorem firstDifference_append (l rest : List α) : firstDifference l (l ++ rest) = none := by
  induction l with
  | nil => rfl
  | cons a l ih => rwa [List.cons_append, firstDifference_cons_self]

/-- A list that is not longer and differs nowhere is a prefix. -/
theorem firstDifference_eq_none_iff (h : l.length ≤ l'.length) :
    firstDifference l l' = none ↔ l <+: l' := by
  constructor
  · intro hnone
    induction l generalizing l' with
    | nil => exact List.nil_prefix
    | cons a l ih =>
      cases l' with
      | nil => exact absurd h (Nat.not_succ_le_zero _)
      | cons b l' =>
        by_cases hab : a = b
        · subst hab
          rw [firstDifference_cons_self] at hnone
          exact List.cons_prefix_cons.mpr ⟨rfl, ih (Nat.le_of_succ_le_succ h) hnone⟩
        · rw [firstDifference_cons_of_ne hab] at hnone
          exact absurd hnone (Option.some_ne_none _)
  · rintro ⟨rest, rfl⟩
    exact firstDifference_append l rest

theorem eq_iff_firstDifference :
    l = l' ↔ firstDifference l l' = none ∧ l.length = l'.length := by
  constructor
  · rintro rfl
    have hnone := firstDifference_append l []
    rw [List.append_nil] at hnone
    exact ⟨hnone, rfl⟩
  · rintro ⟨hnone, hlen⟩
    exact ((firstDifference_eq_none_iff (Nat.le_of_eq hlen)).mp hnone).eq_of_length hlen

/-- The first difference decides, and where there is none the lengths do. -/
theorem lex_iff_firstDifference [Std.Irrefl r] :
    List.Lex r l l' ↔ (∃ a b, firstDifference l l' = some (a, b) ∧ r a b) ∨
      (firstDifference l l' = none ∧ l.length < l'.length) := by
  induction l generalizing l' with
  | nil =>
    cases l' with
    | nil => exact iff_of_false List.not_lex_nil (by simp [firstDifference])
    | cons b l' => exact iff_of_true List.Lex.nil (Or.inr ⟨rfl, Nat.succ_pos _⟩)
  | cons a l ih =>
    cases l' with
    | nil => exact iff_of_false List.not_lex_nil (by simp [firstDifference])
    | cons b l' =>
      by_cases hab : a = b
      · subst hab
        rw [List.lex_cons_iff, ih, firstDifference_cons_self, List.length_cons, List.length_cons,
          Nat.add_lt_add_iff_right]
      · rw [List.cons_lex_cons_iff, firstDifference_cons_of_ne hab]
        constructor
        · rintro (hr | ⟨heq, -⟩)
          · exact Or.inl ⟨a, b, rfl, hr⟩
          · exact absurd heq hab
        · rintro (⟨c, d, hcd, hr⟩ | ⟨hnone, -⟩)
          · obtain ⟨rfl, rfl⟩ := Prod.mk.inj (Option.some.inj hcd)
            exact Or.inl hr
          · exact absurd hnone (Option.some_ne_none _)

theorem ne_of_firstDifference {a b : α} (h : firstDifference l l' = some (a, b)) : a ≠ b := by
  induction l generalizing l' with
  | nil => exact absurd h.symm (Option.some_ne_none _)
  | cons c l ih =>
    cases l' with
    | nil => exact absurd h.symm (Option.some_ne_none _)
    | cons d l' =>
      by_cases hcd : c = d
      · subst hcd
        rw [firstDifference_cons_self] at h
        exact ih h
      · rw [firstDifference_cons_of_ne hcd] at h
        obtain ⟨rfl, rfl⟩ := Prod.mk.inj (Option.some.inj h)
        exact hcd

/-- The sign of `v` is that of the first difference. -/
structure SignOfDifference (r : α → α → Prop) (v : Int) (l l' : List α) : Prop where
  same : firstDifference l l' = none → v = 0
  less : ∀ a b, firstDifference l l' = some (a, b) → (v < 0 ↔ r a b)
  greater : ∀ a b, firstDifference l l' = some (a, b) → (0 < v ↔ r b a)

/-- It is enough to look at the lists up to the end of the shorter one. -/
theorem SignOfDifference.of_take {n : Nat} (h : SignOfDifference r v (l.take n) (l'.take n))
    (hn : l.length ≤ n ∨ l'.length ≤ n) : SignOfDifference r v l l' := by
  have htake := firstDifference_take hn
  constructor
  · rw [← htake]
    exact h.same
  · rw [← htake]
    exact h.less
  · rw [← htake]
    exact h.greater

theorem SignOfDifference.zero_iff [Std.Trichotomous r] (h : SignOfDifference r v l l') :
    v = 0 ↔ firstDifference l l' = none := by
  refine ⟨fun hzero => ?_, h.same⟩
  cases hdiff : firstDifference l l' with
  | none => rfl
  | some p =>
    obtain ⟨a, b⟩ := p
    have hless := (h.less a b hdiff).not.mp (by omega)
    have hgreater := (h.greater a b hdiff).not.mp (by omega)
    exact absurd (Std.Trichotomous.trichotomous a b hless hgreater) (ne_of_firstDifference hdiff)

theorem SignOfDifference.signOfOrder [Std.Irrefl r] (h : SignOfDifference r v l l') (hv : v ≠ 0) :
    SignOfOrder r v l l' := by
  cases hdiff : firstDifference l l' with
  | none => exact absurd (h.same hdiff) hv
  | some p =>
    obtain ⟨a, b⟩ := p
    have hswap : firstDifference l' l = some (b, a) := by
      rw [firstDifference_swap, hdiff]
      rfl
    constructor
    · rw [h.less a b hdiff, lex_iff_firstDifference, hdiff]
      simp
    · rw [eq_iff_firstDifference, hdiff]
      simp [hv]
    · rw [h.greater a b hdiff, lex_iff_firstDifference, hswap]
      simp

/-- Where nothing differs, the lengths decide. -/
theorem signOfOrder_of_lengths [Std.Irrefl r] (hnone : firstDifference l l' = none)
    (hless : v < 0 ↔ l.length < l'.length) (hgreater : 0 < v ↔ l'.length < l.length) :
    SignOfOrder r v l l' := by
  have hswap : firstDifference l' l = none := firstDifference_eq_none_comm.mpr hnone
  constructor
  · rw [hless, lex_iff_firstDifference, hnone]
    simp
  · rw [eq_iff_firstDifference, and_iff_right hnone]
    omega
  · rw [hgreater, lex_iff_firstDifference, hswap]
    simp

end Difference

end Cnet.Support
