import Mathlib.Data.List.Basic

/-!
# `std::lower_bound`

The search by halves, on any list: it ends inside the list, at a place where `less` stops
holding. On a list that `less` divides there is one such place.
-/

namespace Cnet.Support

universe u
variable {α : Type u}

/-- The loop, on `len` elements from `first` on. -/
def lowerBoundFrom (l : List α) (less : α → Bool) : Nat → Nat → Nat → Option Nat
  | 0, first, _ => some first
  | fuel + 1, first, len =>
    if len = 0 then some first
    else
      match l[first + len / 2]? with
      | none => none
      | some x =>
        if less x then lowerBoundFrom l less fuel (first + len / 2 + 1) (len - len / 2 - 1)
        else lowerBoundFrom l less fuel first (len / 2)

def lowerBound (l : List α) (less : α → Bool) : Option Nat :=
  lowerBoundFrom l less l.length 0 l.length

/-- `less` holds just before place `k` and does not hold there. -/
structure StopsAt (l : List α) (less : α → Bool) (k : Nat) : Prop where
  le : k ≤ l.length
  before : ∀ i x, i + 1 = k → l[i]? = some x → less x = true
  here : ∀ x, l[k]? = some x → less x = false

variable {l : List α} {less : α → Bool}

theorem lowerBoundFrom_spec (fuel first len : Nat) (hfuel : len ≤ fuel)
    (hle : first + len ≤ l.length)
    (hbefore : ∀ i x, i + 1 = first → l[i]? = some x → less x = true)
    (hafter : ∀ x, l[first + len]? = some x → less x = false) :
    ∃ k, lowerBoundFrom l less fuel first len = some k ∧ StopsAt l less k := by
  induction fuel generalizing first len with
  | zero =>
    obtain rfl := Nat.le_zero.mp hfuel
    exact ⟨first, rfl, hle, hbefore, hafter⟩
  | succ fuel ih =>
    rw [lowerBoundFrom]
    by_cases hlen : len = 0
    · subst hlen
      exact ⟨first, if_pos rfl, hle, hbefore, hafter⟩
    · rw [if_neg hlen]
      have hmid : first + len / 2 < l.length := by omega
      rw [List.getElem?_eq_getElem hmid]
      dsimp only
      by_cases hless : less l[first + len / 2] = true
      · rw [if_pos hless]
        refine ih _ _ (by omega) (by omega) (fun i x hi hx => ?_) (fun x hx => ?_)
        · obtain rfl := Nat.succ.inj hi
          rw [List.getElem?_eq_getElem hmid] at hx
          exact Option.some.inj hx ▸ hless
        · refine hafter x ?_
          rw [← hx]
          congr 1
          omega
      · rw [if_neg hless]
        refine ih _ _ (by omega) (by omega) hbefore fun x hx => ?_
        rw [List.getElem?_eq_getElem hmid] at hx
        exact Option.some.inj hx ▸ Bool.not_eq_true _ ▸ hless

/-- Whatever the order of the list, the search ends, and inside it. -/
theorem lowerBound_spec (l : List α) (less : α → Bool) :
    ∃ k, lowerBound l less = some k ∧ StopsAt l less k := by
  refine lowerBoundFrom_spec l.length 0 l.length (Nat.le_refl _) (by omega)
    (fun i x hi => absurd hi (Nat.succ_ne_zero i)) fun x hx => ?_
  rw [List.getElem?_eq_none (by omega)] at hx
  exact absurd hx.symm (Option.some_ne_none x)

/-- Where `less` holds exactly before place `k`, the search ends there. -/
theorem lowerBound_eq {k : Nat} (hk : k ≤ l.length)
    (hless : ∀ i x, l[i]? = some x → (less x = true ↔ i < k)) : lowerBound l less = some k := by
  obtain ⟨m, hm, hle, hbefore, hhere⟩ := lowerBound_spec l less
  rw [hm]
  congr 1
  rcases Nat.lt_trichotomy m k with hlt | heq | hgt
  · have hx := List.getElem?_eq_getElem (l := l) (i := m) (by omega)
    have hyes := (hless m _ hx).mpr hlt
    exact absurd (hyes.symm.trans (hhere _ hx)) Bool.noConfusion
  · exact heq
  · have hx := List.getElem?_eq_getElem (l := l) (i := m - 1) (by omega)
    have hyes := (hless _ _ hx).mp (hbefore _ _ (by omega) hx)
    omega

end Cnet.Support
