import Mathlib.Data.List.Basic
import Mathlib.Logic.Function.Basic

/-!
# Maps with versions

Every value that is put into the map gets a number that no value had before. So a reader
who finds the number again that it has seen knows more than that the value is the same:
nobody has written to that key in between.
-/

namespace Cnet.Support

universe u v

/-- What an operation does with the entry of its key. -/
inductive Change (β : Type v)
  | keep
  | put (v : β)
  | drop
deriving DecidableEq

structure Versions (κ : Type u) (β : Type v) where
  entry : κ → Option (β × Nat)
  clock : Nat

namespace Versions

/-- An operation looks at the entry of one key. -/
structure Operation (κ : Type u) (β : Type v) where
  key : κ
  change : Option (β × Nat) → Change β

variable {κ : Type u} {β : Type v} [DecidableEq κ]

def empty : Versions κ β := ⟨fun _ => none, 0⟩

def apply (m : Versions κ β) (k : κ) : Change β → Versions κ β
  | .keep => m
  | .put v => ⟨Function.update m.entry k (some (v, m.clock + 1)), m.clock + 1⟩
  | .drop => { m with entry := Function.update m.entry k none }

def step (m : Versions κ β) (o : Operation κ β) : Versions κ β :=
  m.apply o.key (o.change (m.entry o.key))

def run (m : Versions κ β) (ops : List (Operation κ β)) : Versions κ β := ops.foldl step m

/-- The operation leaves the entry of `k` alone. -/
def Spares (k : κ) (m : Versions κ β) (o : Operation κ β) : Prop :=
  o.key = k → o.change (m.entry k) = .keep

/-- None of the operations writes to `k`. -/
def Untouched (k : κ) : Versions κ β → List (Operation κ β) → Prop
  | _, [] => True
  | m, o :: ops => Spares k m o ∧ Untouched k (m.step o) ops

/-- No version is from the future, and none is in use twice. -/
structure Sound (m : Versions κ β) : Prop where
  le_clock : ∀ k v t, m.entry k = some (v, t) → t ≤ m.clock
  distinct : ∀ k k' v v' t, m.entry k = some (v, t) → m.entry k' = some (v', t) → k = k'

omit [DecidableEq κ] in
theorem sound_empty : Sound (empty : Versions κ β) where
  le_clock _ _ _ h := absurd h.symm (Option.some_ne_none _)
  distinct _ _ _ _ _ h := absurd h.symm (Option.some_ne_none _)

variable {m : Versions κ β} {k k' : κ} {v : β} {t n : Nat}

theorem apply_put_self (m : Versions κ β) (k : κ) (v : β) :
    (m.apply k (.put v)).entry k = some (v, m.clock + 1) := Function.update_self _ _ _

theorem apply_drop_self (m : Versions κ β) (k : κ) : (m.apply k .drop).entry k = none :=
  Function.update_self _ _ _

theorem apply_entry_of_ne (h : k' ≠ k) (c : Change β) : (m.apply k c).entry k' = m.entry k' := by
  cases c with
  | keep => rfl
  | put v => exact Function.update_of_ne h _ _
  | drop => exact Function.update_of_ne h _ _

theorem clock_le_apply (m : Versions κ β) (k : κ) (c : Change β) :
    m.clock ≤ (m.apply k c).clock := by
  cases c with
  | keep => exact Nat.le_refl _
  | put v => exact Nat.le_succ _
  | drop => exact Nat.le_refl _

theorem apply_clock_le (m : Versions κ β) (k : κ) (c : Change β) :
    (m.apply k c).clock ≤ m.clock + 1 := by
  cases c with
  | keep => exact Nat.le_succ _
  | put v => exact Nat.le_refl _
  | drop => exact Nat.le_succ _

theorem run_clock_le (m : Versions κ β) (ops : List (Operation κ β)) :
    (m.run ops).clock ≤ m.clock + ops.length := by
  induction ops generalizing m with
  | nil => exact Nat.le_refl _
  | cons o ops ih =>
    have hstep := apply_clock_le m o.key (o.change (m.entry o.key))
    have hrest := ih (m.step o)
    rw [List.length_cons]
    exact Nat.le_trans hrest (by rw [step]; omega)

/-- An entry after a change is one from before, or a new one. -/
theorem apply_entry_cases {c : Change β} (h : (m.apply k c).entry k' = some (v, t)) :
    m.entry k' = some (v, t) ∨ c = .put v ∧ k' = k ∧ t = m.clock + 1 := by
  by_cases hk : k' = k
  · subst hk
    cases c with
    | keep => exact .inl h
    | put w =>
      rw [apply_put_self] at h
      obtain ⟨rfl, rfl⟩ := Prod.mk.inj (Option.some.inj h)
      exact .inr ⟨rfl, rfl, rfl⟩
    | drop =>
      rw [apply_drop_self] at h
      exact absurd h.symm (Option.some_ne_none _)
  · rw [apply_entry_of_ne hk] at h
    exact .inl h

theorem Sound.apply (h : Sound m) (k : κ) (c : Change β) : Sound (m.apply k c) where
  le_clock k' w s hentry := by
    rcases apply_entry_cases hentry with hold | ⟨rfl, -, rfl⟩
    · exact Nat.le_trans (h.le_clock k' w s hold) (clock_le_apply m k c)
    · exact Nat.le_refl _
  distinct k₁ k₂ w₁ w₂ s h₁ h₂ := by
    rcases apply_entry_cases h₁ with hold₁ | ⟨-, hk₁, hs₁⟩ <;>
      rcases apply_entry_cases h₂ with hold₂ | ⟨-, hk₂, hs₂⟩
    · exact h.distinct k₁ k₂ w₁ w₂ s hold₁ hold₂
    · have := h.le_clock k₁ w₁ s hold₁
      omega
    · have := h.le_clock k₂ w₂ s hold₂
      omega
    · rw [hk₁, hk₂]

theorem Sound.step (h : Sound m) (o : Operation κ β) : Sound (m.step o) := h.apply _ _

theorem Sound.run (h : Sound m) (ops : List (Operation κ β)) : Sound (m.run ops) := by
  induction ops generalizing m with
  | nil => exact h
  | cons o ops ih => exact ih (h.step o)

theorem Spares.entry_eq {o : Operation κ β} (h : Spares k m o) :
    (m.step o).entry k = m.entry k := by
  by_cases hk : o.key = k
  · have hkeep : o.change (m.entry o.key) = .keep := by rw [hk]; exact h hk
    rw [step, hkeep]
    rfl
  · exact apply_entry_of_ne (Ne.symm hk) _

/-- An untouched key keeps its entry, the number with it. -/
theorem Untouched.entry_eq {ops : List (Operation κ β)} (h : Untouched k m ops) :
    (m.run ops).entry k = m.entry k := by
  induction ops generalizing m with
  | nil => rfl
  | cons o ops ih => exact (ih h.2).trans h.1.entry_eq

/-- Number `t` is used up, and not in use at `k`. -/
def Past (k : κ) (t : Nat) (m : Versions κ β) : Prop :=
  t ≤ m.clock ∧ ∀ v, m.entry k ≠ some (v, t)

theorem Past.step (h : Past k t m) (o : Operation κ β) : Past k t (m.step o) := by
  refine ⟨Nat.le_trans h.1 (clock_le_apply m _ _), fun v hv => ?_⟩
  rcases apply_entry_cases hv with hold | ⟨-, -, hnew⟩
  · exact h.2 v hold
  · have := h.1
    omega

theorem Past.run (h : Past k t m) (ops : List (Operation κ β)) : Past k t (m.run ops) := by
  induction ops generalizing m with
  | nil => exact h
  | cons o ops ih => exact ih (h.step o)

/-- A write uses up the number that the entry had. -/
theorem past_of_not_spares (h : Sound m) (hentry : m.entry k = some (v, t)) {o : Operation κ β}
    (hwrites : ¬ Spares k m o) : Past k t (m.step o) := by
  rw [Spares, Classical.not_imp] at hwrites
  obtain ⟨rfl, hchange⟩ := hwrites
  have hle := h.le_clock _ v t hentry
  refine ⟨Nat.le_trans hle (clock_le_apply m _ _), fun w hw => ?_⟩
  cases hc : o.change (m.entry o.key) with
  | keep => exact hchange hc
  | put x =>
    rw [Versions.step, hc, apply_put_self] at hw
    have := (Prod.mk.inj (Option.some.inj hw)).2
    omega
  | drop =>
    rw [Versions.step, hc, apply_drop_self] at hw
    exact absurd hw.symm (Option.some_ne_none _)

/-- A number is found again exactly if nobody has written to the key. -/
theorem same_version_iff (h : Sound m) (hentry : m.entry k = some (v, t))
    (ops : List (Operation κ β)) :
    (∃ w, (m.run ops).entry k = some (w, t)) ↔ Untouched k m ops := by
  refine ⟨fun hsame => ?_, fun huntouched => ⟨v, huntouched.entry_eq.trans hentry⟩⟩
  induction ops generalizing m with
  | nil => exact True.intro
  | cons o ops ih =>
    by_cases hspares : Spares k m o
    · exact ⟨hspares, ih (h.step o) (hspares.entry_eq.trans hentry) hsame⟩
    · obtain ⟨w, hw⟩ := hsame
      exact absurd hw (((past_of_not_spares h hentry hspares).run ops).2 w)

end Versions

end Cnet.Support
