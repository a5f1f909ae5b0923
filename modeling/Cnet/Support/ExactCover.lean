import Mathlib.Data.List.Perm.Basic
import Mathlib.Data.List.Nodup

/-!
# Exact covers

A selection of rows covers the columns if each column is in one row of the selection, and in
it once. Some row of the selection has any column that is chosen; without the columns of
that row, the rest of the selection covers what is left.
-/

namespace Cnet.Support

universe u v w

variable {ρ : Type u} {γ : Type v} {δ : Type w}

/-- The columns of the rows, put together, are those of `A`. -/
def Covers (cols : ρ → List γ) (sel : List ρ) (A : List γ) : Prop := (sel.flatMap cols).Perm A

/-- Rows that have no column in common, each with its columns once. -/
theorem nodup_flatMap_of_apart {cols : ρ → List γ} {sel : List ρ} (hsel : sel.Nodup)
    (hcols : ∀ r ∈ sel, (cols r).Nodup)
    (hapart : ∀ r ∈ sel, ∀ q ∈ sel, ∀ c ∈ cols r, c ∈ cols q → r = q) :
    (sel.flatMap cols).Nodup := by
  refine List.nodup_flatMap.mpr ⟨hcols, hsel.pairwise_of_forall_ne fun r hr q hq hne => ?_⟩
  exact fun c hcr hcq => hne (hapart r hr q hq c hcr hcq)

namespace Covers

variable {cols : ρ → List γ} {cols' : ρ → List δ} {sel : List ρ} {A : List γ} {c : γ} {r : ρ}

theorem nil : Covers cols [] [] := List.Perm.nil

/-- Columns that go by other names, in whichever order. -/
theorem map {g : γ → δ} (h : Covers cols sel A)
    (hcols : ∀ r ∈ sel, (cols' r).Perm ((cols r).map g)) : Covers cols' sel (A.map g) := by
  have hflat : (sel.flatMap cols').Perm ((sel.flatMap cols).map g) := by
    rw [List.map_flatMap]
    exact List.Perm.flatMap_left sel hcols
  exact hflat.trans (List.Perm.map g h)

section

variable [DecidableEq γ]

theorem perm_append_filter (hA : A.Nodup) (hr : (cols r).Nodup) (hsub : cols r ⊆ A) :
    (cols r ++ A.filter fun c => c ∉ cols r).Perm A := by
  refine (List.perm_ext_iff_of_nodup ?_ hA).mpr fun a => ?_
  · rw [List.nodup_append]
    refine ⟨hr, hA.filter _, fun a ha b hb => ?_⟩
    rintro rfl
    exact of_decide_eq_true (List.mem_filter.mp hb).2 ha
  · rw [List.mem_append, List.mem_filter, decide_eq_true_iff]
    exact ⟨fun ha => ha.elim (fun ha => hsub ha) And.left, fun ha => (em _).imp_right (⟨ha, ·⟩)⟩

/-- One row more. -/
theorem cons (hA : A.Nodup) (hr : (cols r).Nodup) (hsub : cols r ⊆ A)
    (h : Covers cols sel (A.filter fun c => c ∉ cols r)) : Covers cols (r :: sel) A := by
  rw [Covers, List.flatMap_cons]
  exact (h.append_left _).trans (perm_append_filter hA hr hsub)

/-- The row with the column `c`, and a cover without it. -/
theorem branch [DecidableEq ρ] (hA : A.Nodup) (h : Covers cols sel A) (hc : c ∈ A) :
    ∃ r ∈ sel, c ∈ cols r ∧ cols r ⊆ A ∧
      Covers cols (sel.erase r) (A.filter fun c => c ∉ cols r) := by
  obtain ⟨r, hr, hcr⟩ := List.mem_flatMap.mp (h.mem_iff.mpr hc)
  have hperm : (cols r ++ (sel.erase r).flatMap cols).Perm A := by
    rw [← List.flatMap_cons]
    exact ((List.perm_cons_erase hr).flatMap_right cols).symm.trans h
  obtain ⟨hnodup, -, -⟩ := List.nodup_append.mp (hperm.nodup_iff.mpr hA)
  have hsub : cols r ⊆ A := fun a ha => hperm.mem_iff.mp (List.mem_append_left _ ha)
  refine ⟨r, hr, hcr, hsub, ?_⟩
  exact (List.perm_append_left_iff _).mp (hperm.trans (perm_append_filter hA hnodup hsub).symm)

end

end Covers

end Cnet.Support
