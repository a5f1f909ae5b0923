import Mathlib.Data.List.Basic

/-!
# Runs of a partial transition function

An action either leads to one next state or is not enabled. A condition on steps
is checked at the state each step starts from, so a run can be assumed to meet it
without assuming anything about the states it reaches.
-/

namespace Cnet.Support

universe u v w
variable {σ : Type u} {α : Type v} (step : σ → α → Option σ)

/-- Take the actions in order; `none` as soon as one of them is not enabled. -/
def run : σ → List α → Option σ
  | s, [] => some s
  | s, a :: as => (step s a).bind fun t => run t as

/-- Every step of the run meets `ok` at the state it starts from. -/
def StepsMeet (ok : σ → α → Prop) : σ → List α → Prop
  | _, [] => True
  | s, a :: as => ok s a ∧ ∀ t, step s a = some t → StepsMeet ok t as

/-- What a guarded action says when it is enabled. -/
theorem eq_of_guarded {c : Prop} [Decidable c] {s t : σ}
    (h : (if c then some s else none) = some t) : c ∧ s = t := by
  rw [Option.ite_none_right_eq_some] at h
  exact ⟨h.1, Option.some.inj h.2⟩

/-- In a run that ends somewhere, every step is enabled. -/
theorem stepsMeet_enabled {s u : σ} {as : List α} (h : run step s as = some u) :
    StepsMeet step (fun s a => (step s a).isSome = true) s as := by
  induction as generalizing s with
  | nil => exact True.intro
  | cons a as ih =>
    obtain ⟨m, hm, hrest⟩ := Option.bind_eq_some_iff.mp h
    refine ⟨Option.isSome_iff_exists.mpr ⟨m, hm⟩, fun t ht => ?_⟩
    obtain rfl := Option.some.inj (hm.symm.trans ht)
    exact ih hrest

/-- `t` is reached from `s` by some run. -/
def Reaches (s t : σ) : Prop := ∃ as, run step s as = some t

theorem run_cons (s : σ) (a : α) (as : List α) :
    run step s (a :: as) = (step s a).bind fun t => run step t as := rfl

theorem run_cons_some {s u : σ} {a : α} {as : List α} :
    run step s (a :: as) = some u ↔ ∃ t, step s a = some t ∧ run step t as = some u := by
  rw [run_cons, Option.bind_eq_some_iff]

/-- What a run reaches, its first step taken. -/
theorem exists_run_cons {s : σ} {a : α} {as : List α} {P : σ → Prop} :
    (∃ u, run step s (a :: as) = some u ∧ P u) ↔
      ∃ t, step s a = some t ∧ ∃ u, run step t as = some u ∧ P u := by
  constructor
  · rintro ⟨u, hu, hP⟩
    obtain ⟨t, ht, hrest⟩ := (run_cons_some step).mp hu
    exact ⟨t, ht, u, hrest, hP⟩
  · rintro ⟨t, ht, u, hu, hP⟩
    exact ⟨u, (run_cons_some step).mpr ⟨t, ht, hu⟩, hP⟩

theorem run_append (s : σ) (as bs : List α) :
    run step s (as ++ bs) = (run step s as).bind fun t => run step t bs := by
  induction as generalizing s with
  | nil => rfl
  | cons a as ih => rw [List.cons_append, run_cons, run_cons, Option.bind_assoc, funext ih]

/-- On a step whose outcome is known, only the rest of the run from there is left to check. -/
theorem StepsMeet.cons {ok : σ → α → Prop} {s t : σ} {a : α} {as : List α} (h : ok s a)
    (hs : step s a = some t) (hr : StepsMeet step ok t as) : StepsMeet step ok s (a :: as) := by
  refine ⟨h, fun u hu => ?_⟩
  rw [hs] at hu
  obtain rfl := Option.some.inj hu
  exact hr

/-- A weaker condition is met as well. -/
theorem StepsMeet.mono {ok ok' : σ → α → Prop} (himp : ∀ s a, ok s a → ok' s a) {s : σ}
    {as : List α} (h : StepsMeet step ok s as) : StepsMeet step ok' s as := by
  induction as generalizing s with
  | nil => exact True.intro
  | cons a as ih => exact ⟨himp s a h.1, fun t ht => ih (h.2 t ht)⟩

theorem StepsMeet.trivial (s : σ) (as : List α) :
    StepsMeet step (fun _ _ => True) s as := by
  induction as generalizing s with
  | nil => exact True.intro
  | cons a as ih => exact ⟨True.intro, fun t _ => ih t⟩

instance decidableStepsMeet (ok : σ → α → Prop) [∀ s a, Decidable (ok s a)] :
    ∀ s as, Decidable (StepsMeet step ok s as)
  | _, [] => inferInstanceAs (Decidable True)
  | s, a :: as =>
    match h : step s a with
    | none => decidable_of_iff (ok s a) ⟨fun ha => ⟨ha, by simp [h]⟩, And.left⟩
    | some t =>
      have := decidableStepsMeet ok t as
      decidable_of_iff (ok s a ∧ StepsMeet step ok t as)
        ⟨fun ⟨ha, ht⟩ => .cons step ha h ht, fun hs => ⟨hs.1, hs.2 t h⟩⟩

/-- What every conforming step preserves, every conforming run preserves. -/
theorem run_invariant {ok : σ → α → Prop} {Inv : σ → Prop}
    (hstep : ∀ s a t, Inv s → ok s a → step s a = some t → Inv t)
    {s t : σ} {as : List α} (h0 : Inv s) (hok : StepsMeet step ok s as)
    (hr : run step s as = some t) : Inv t := by
  induction as generalizing s with
  | nil => obtain rfl := Option.some.inj hr; exact h0
  | cons a as ih =>
    obtain ⟨m, hm, hrest⟩ := (run_cons_some step).mp hr
    exact ih (hstep s a m h0 hok.1 hm) (hok.2 m hm) hrest

/-- Conditions that are the same in every state of the invariant are met by the same runs. -/
theorem stepsMeet_iff {ok ok' : σ → α → Prop} {Inv : σ → Prop}
    (hiff : ∀ s a, Inv s → (ok s a ↔ ok' s a))
    (hkeep : ∀ s a t, Inv s → step s a = some t → Inv t) {s : σ} (h0 : Inv s) (as : List α) :
    StepsMeet step ok s as ↔ StepsMeet step ok' s as := by
  induction as generalizing s with
  | nil => exact Iff.rfl
  | cons a as ih =>
    exact and_congr (hiff s a h0) (forall₂_congr fun t ht => ih (hkeep s a t h0 ht))

/-- Actions that are always enabled can be taken in any order. -/
theorem run_of_total (h : ∀ s a, ∃ t, step s a = some t) (s : σ) (as : List α) :
    ∃ u, run step s as = some u := by
  induction as generalizing s with
  | nil => exact ⟨s, rfl⟩
  | cons a as ih =>
    obtain ⟨t, ht⟩ := h s a
    obtain ⟨u, hu⟩ := ih t
    exact ⟨u, (run_cons_some step).mpr ⟨t, ht, hu⟩⟩

/-- Every step that the run takes has `Q`, of the states before and after it. -/
def EveryStep (Q : σ → α → σ → Prop) : σ → List α → Prop :=
  StepsMeet step fun s a => ∀ t ∈ step s a, Q s a t

instance decidableEveryStep (Q : σ → α → σ → Prop) [∀ s a t, Decidable (Q s a t)] (s : σ)
    (as : List α) : Decidable (EveryStep step Q s as) :=
  decidableStepsMeet step (fun s a => ∀ t ∈ step s a, Q s a t) s as

/-- What every step from an invariant state has, every step of every run has. -/
theorem everyStep_invariant {Inv : σ → Prop} {Q : σ → α → σ → Prop}
    (hstep : ∀ s a t, Inv s → step s a = some t → Q s a t ∧ Inv t) {s : σ} (h0 : Inv s)
    (as : List α) : EveryStep step Q s as := by
  induction as generalizing s with
  | nil => exact True.intro
  | cons a as ih =>
    exact ⟨fun t ht => (hstep s a t h0 ht).1, fun t ht => ih (hstep s a t h0 ht).2⟩

/-- Where a proper step from an invariant state has `Q` exactly if it meets `ok`, and then
keeps the invariant, all the steps of a run have `Q` exactly if they all meet `ok`. -/
theorem everyStep_iff {proper ok : σ → α → Prop} {Inv : σ → Prop} {Q : σ → α → σ → Prop}
    (hiff : ∀ s a t, Inv s → proper s a → step s a = some t → (Q s a t ↔ ok s a))
    (hkeep : ∀ s a t, Inv s → proper s a → step s a = some t → Q s a t → Inv t)
    {s u : σ} {as : List α} (h0 : Inv s) (hproper : StepsMeet step proper s as)
    (hr : run step s as = some u) : EveryStep step Q s as ↔ StepsMeet step ok s as := by
  induction as generalizing s with
  | nil => exact Iff.rfl
  | cons a as ih =>
    obtain ⟨m, hm, hrest⟩ := (run_cons_some step).mp hr
    have hiff := hiff s a m h0 hproper.1 hm
    have hkeep := hkeep s a m h0 hproper.1 hm
    constructor
    · rintro ⟨hQ, hlater⟩
      refine StepsMeet.cons step (hiff.mp (hQ m hm)) hm ?_
      exact (ih (hkeep (hQ m hm)) (hproper.2 m hm) hrest).mp (hlater m hm)
    · rintro ⟨hok, hlater⟩
      have hQ := hiff.mpr hok
      refine StepsMeet.cons step (fun t ht => ?_) hm ?_
      · obtain rfl := Option.some.inj (hm.symm.trans ht)
        exact hQ
      · exact (ih (hkeep hQ) (hproper.2 m hm) hrest).mpr (hlater m hm)

/-- Every state of the run, the first and the last included, has `P`. -/
def EveryState (P : σ → Prop) : σ → List α → Prop
  | s, [] => P s
  | s, a :: as => P s ∧ ∀ t, step s a = some t → EveryState P t as

/-- What every conforming step preserves, every state of a conforming run has. -/
theorem everyState_invariant {ok : σ → α → Prop} {Inv P : σ → Prop} (hInv : ∀ s, Inv s → P s)
    (hstep : ∀ s a t, Inv s → ok s a → step s a = some t → Inv t) {s : σ} {as : List α}
    (h0 : Inv s) (hok : StepsMeet step ok s as) : EveryState step P s as := by
  induction as generalizing s with
  | nil => exact hInv s h0
  | cons a as ih =>
    exact ⟨hInv s h0, fun t ht => ih (hstep s a t h0 hok.1 ht) (hok.2 t ht)⟩

/-- Where a step spoils `P` exactly if it fails `ok`, a run keeps `P` throughout exactly
if all its steps meet `ok`. -/
theorem everyState_iff {proper ok : σ → α → Prop} {Inv P : σ → Prop}
    (hInv : ∀ s, Inv s → P s)
    (hgood : ∀ s a t, Inv s → proper s a → ok s a → step s a = some t → Inv t)
    (hbad : ∀ s a, Inv s → proper s a → ¬ ok s a → ∃ t, step s a = some t ∧ ¬ P t)
    {s : σ} {as : List α} (h0 : Inv s) (hproper : StepsMeet step proper s as) :
    EveryState step P s as ↔ StepsMeet step ok s as := by
  induction as generalizing s with
  | nil => exact ⟨fun _ => True.intro, fun _ => hInv s h0⟩
  | cons a as ih =>
    constructor
    · rintro ⟨-, hrest⟩
      have hok : ok s a := by
        by_contra hno
        obtain ⟨t, ht, hPt⟩ := hbad s a h0 hproper.1 hno
        cases as with
        | nil => exact hPt (hrest t ht)
        | cons b bs => exact hPt (hrest t ht).1
      refine ⟨hok, fun t ht => ?_⟩
      exact (ih (hgood s a t h0 hproper.1 hok ht) (hproper.2 t ht)).mp (hrest t ht)
    · rintro ⟨hok, hrest⟩
      refine ⟨hInv s h0, fun t ht => ?_⟩
      exact (ih (hgood s a t h0 hproper.1 hok ht) (hproper.2 t ht)).mpr (hrest t ht)

/-- The rule for a step that preserves the invariant unconditionally. -/
theorem reaches_invariant {Inv : σ → Prop}
    (hstep : ∀ s a t, Inv s → step s a = some t → Inv t)
    {s t : σ} (h0 : Inv s) (hr : Reaches step s t) : Inv t := by
  obtain ⟨as, has⟩ := hr
  have hstep' : ∀ s a t, Inv s → True → step s a = some t → Inv t :=
    fun s a t hi _ h => hstep s a t hi h
  exact run_invariant step hstep'
    h0 (StepsMeet.trivial step s as) has

/-- Forward simulation of a total abstract step: a conforming run exists and ends
in a state related to what the abstract steps give. -/
theorem run_refines {τ : Type*} {ok : σ → α → Prop} {abs : τ → α → τ} {R : σ → τ → Prop}
    (hstep : ∀ s q a, R s q → ok s a → ∃ t, step s a = some t ∧ R t (abs q a))
    {s : σ} {q : τ} {as : List α} (h0 : R s q) (hok : StepsMeet step ok s as) :
    ∃ t, run step s as = some t ∧ R t (as.foldl abs q) := by
  induction as generalizing s q with
  | nil => exact ⟨s, rfl, h0⟩
  | cons a as ih =>
    obtain ⟨m, hm, hR⟩ := hstep s q a h0 hok.1
    obtain ⟨t, ht, hRt⟩ := ih hR (hok.2 m hm)
    exact ⟨t, (run_cons_some step).mpr ⟨m, hm, ht⟩, hRt⟩

/-- A loop that builds something, each turn a piece of it. `P` is what the pieces must be
for a turn to go well. -/
theorem foldlM_builds {ι : Type u} {τ : Type v} {β : Type w} {f : τ → ι → Option τ}
    {g : ι → List β} {I : τ → List β → Prop} {P : List β → Prop} {l : List ι} {t : τ}
    {acc : List β} (hP : ∀ a b, P (a ++ b) → P a)
    (hstep : ∀ t acc, ∀ i ∈ l, I t acc → P (acc ++ g i) → ∃ t', f t i = some t' ∧ I t' (acc ++ g i))
    (h : I t acc) (hall : P (acc ++ l.flatMap g)) :
    ∃ t', l.foldlM f t = some t' ∧ I t' (acc ++ l.flatMap g) := by
  induction l generalizing t acc with
  | nil =>
    refine ⟨t, rfl, ?_⟩
    rwa [List.flatMap_nil, List.append_nil]
  | cons i l ih =>
    rw [List.flatMap_cons, ← List.append_assoc] at hall ⊢
    obtain ⟨t₁, hi, h₁⟩ := hstep t acc i List.mem_cons_self h (hP _ _ hall)
    obtain ⟨t', hl, h'⟩ := ih (fun t acc i hi => hstep t acc i (List.mem_cons_of_mem _ hi)) h₁ hall
    refine ⟨t', ?_, h'⟩
    rw [List.foldlM_cons, hi]
    exact hl

end Cnet.Support
