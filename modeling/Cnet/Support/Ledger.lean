import Mathlib.Data.List.Perm.Subperm

/-!
# Ledgers

What came in is still there, in order, but for what has been erased.
-/

namespace Cnet.Support

universe u
variable {α : Type u}

/-- `kept` is what is left of `all` when `erased` has been taken out of it. -/
structure Ledger (kept erased all : List α) : Prop where
  ordered : List.Sublist kept all
  complete : (kept ++ erased).Perm all

namespace Ledger

variable {kept erased all : List α}

theorem nil : Ledger ([] : List α) [] [] := ⟨List.Sublist.refl _, List.Perm.refl _⟩

/-- Something comes in at the end. -/
theorem append (h : Ledger kept erased all) (a : α) : Ledger (kept ++ [a]) erased (all ++ [a]) where
  ordered := h.ordered.append (List.Sublist.refl _)
  complete := by
    rw [List.append_assoc]
    have hswap : (kept ++ ([a] ++ erased)).Perm (kept ++ erased ++ [a]) := by
      rw [List.append_assoc]
      exact List.perm_append_comm.append_left kept
    exact hswap.trans (h.complete.append_right [a])

/-- A part of what is there is erased. -/
theorem erase {left part right : List α} (h : Ledger (left ++ (part ++ right)) erased all) :
    Ledger (left ++ right) (erased ++ part) all where
  ordered := ((List.sublist_append_right part right).append_left left).trans h.ordered
  complete := by
    refine List.Perm.trans ?_ h.complete
    rw [List.append_assoc, List.append_assoc]
    refine List.Perm.append_left left ?_
    rw [← List.append_assoc, List.append_assoc part]
    exact List.perm_append_comm

/-- With nothing erased, everything is there. -/
theorem eq_of_nil (h : Ledger kept [] all) : kept = all := by
  have hlength := h.complete.length_eq
  rw [List.append_nil] at hlength
  exact h.ordered.eq_of_length hlength

theorem mem_iff (h : Ledger kept erased all) {a : α} : a ∈ all ↔ a ∈ kept ∨ a ∈ erased := by
  rw [← h.complete.mem_iff, List.mem_append]

/-- Where nothing came in twice, nothing is in two places. -/
theorem nodup (h : Ledger kept erased all) (hall : all.Nodup) : (kept ++ erased).Nodup :=
  h.complete.nodup_iff.mpr hall

end Ledger

end Cnet.Support
