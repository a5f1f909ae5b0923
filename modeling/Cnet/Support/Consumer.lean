import Mathlib.Data.List.Basic

/-!
# Consumers of a stream

A consumer takes its input in turns. A turn may take a piece that is complete, or part of one
and remember it; so more input does not always leave a turn as it was, but it leaves what the
turns come to in the end.
-/

namespace Cnet.Support

universe u v

/-- What a turn does with the input at hand. -/
inductive Turn (σ : Type u) (α : Type v)
  /-- More input is needed. -/
  | wait
  | took (s : σ) (rest : List α)
  /-- The consumer fails for good. -/
  | abort

namespace Turn

variable {σ : Type u} {α : Type v}

/-- A turn that takes something, or fails. -/
def ofOption : Option (σ × List α) → Turn σ α
  | some (s, rest) => took s rest
  | none => abort

theorem took_ne_wait {s : σ} {rest : List α} : took s rest ≠ wait := nofun

theorem abort_ne_wait : (abort : Turn σ α) ≠ wait := nofun

theorem ofOption_ne_wait (r : Option (σ × List α)) : ofOption r ≠ wait := by
  cases r with
  | none => exact abort_ne_wait
  | some p => exact took_ne_wait

/-- The same turn with more input behind the rest. -/
def behind (m : List α) : Turn σ α → Turn σ α
  | took s rest => took s (rest ++ m)
  | wait => wait
  | abort => abort

variable (turn : σ → List α → Turn σ α)

/-- Turns until one waits; no result where one fails, or the fuel runs out. -/
def settle : Nat → σ → List α → Option (σ × List α)
  | 0, _, _ => none
  | n + 1, s, l =>
    match turn s l with
    | wait => some (s, l)
    | took s' rest => settle n s' rest
    | abort => none

/-- The laws of a consumer. A turn that takes all there is may be in the middle of something:
it goes on with what comes next. -/
structure Consumes (Inv : σ → Prop) : Prop where
  nil : ∀ s, turn s [] = wait
  keeps : ∀ {s l s' rest}, Inv s → turn s l = took s' rest → Inv s'
  takes : ∀ {s l s' rest}, Inv s → turn s l = took s' rest → rest.length < l.length
  more : ∀ {s l s' rest} (m : List α), m ≠ [] → Inv s → turn s l = took s' rest →
    turn s (l ++ m) = took s' (rest ++ m) ∨
      rest = [] ∧ turn s' m ≠ wait ∧ turn s (l ++ m) = turn s' m
  fails : ∀ {s l} (m : List α), Inv s → turn s l = abort → turn s (l ++ m) = abort

/-- The consumer comes to `s'` with the input `l'` before it. -/
inductive Visits : σ → List α → σ → List α → Prop
  | refl (s : σ) (l : List α) : Visits s l s l
  | step {s s₁ s' : σ} {l l₁ l' : List α} (h : turn s l = took s₁ l₁) (hrest : Visits s₁ l₁ s' l') :
    Visits s l s' l'

variable {turn} {Inv : σ → Prop} {s s' : σ} {l rest : List α} {n k : Nat}

theorem settle_of_wait (h : turn s l = wait) (n : Nat) : settle turn (n + 1) s l = some (s, l) := by
  rw [settle, h]

theorem settle_of_took (h : turn s l = took s' rest) (n : Nat) :
    settle turn (n + 1) s l = settle turn n s' rest := by
  rw [settle, h]

theorem settle_of_abort (h : turn s l = abort) (n : Nat) : settle turn n s l = none := by
  cases n with
  | zero => rfl
  | succ n => rw [settle, h]

theorem settle_nil (h : Consumes turn Inv) (s : σ) (n : Nat) :
    settle turn (n + 1) s [] = some (s, []) := settle_of_wait (h.nil s) n

/-- How the turns come to an end. -/
theorem settle_cases {p : σ × List α} (h : settle turn n s l = some p) :
    turn s l = wait ∧ p = (s, l) ∨
    ∃ k s₁ l₁, n = k + 1 ∧ turn s l = took s₁ l₁ ∧ settle turn k s₁ l₁ = some p := by
  cases n with
  | zero => exact absurd h nofun
  | succ n =>
    cases hturn : turn s l with
    | wait =>
      rw [settle_of_wait hturn] at h
      exact .inl ⟨rfl, (Option.some.inj h).symm⟩
    | took s₁ l₁ =>
      rw [settle_of_took hturn] at h
      exact .inr ⟨n, s₁, l₁, rfl, rfl, h⟩
    | abort =>
      rw [settle_of_abort hturn] at h
      exact absurd h nofun

/-- An induction over the turns taken. -/
theorem settle_induction {P : σ → List α → Prop} {p : σ × List α}
    (hsettle : settle turn n s l = some p) (wait : turn p.1 p.2 = wait → P p.1 p.2)
    (took : ∀ s l s₁ l₁ k, turn s l = took s₁ l₁ → settle turn k s₁ l₁ = some p → P s₁ l₁ → P s l) :
    P s l := by
  induction n generalizing s l with
  | zero => exact absurd hsettle nofun
  | succ n ih =>
    rcases settle_cases hsettle with ⟨hwait, rfl⟩ | ⟨k, s₁, l₁, hk, hturn, hrest⟩
    · exact wait hwait
    · obtain rfl := Nat.succ.inj hk
      exact took s l s₁ l₁ n hturn hrest (ih hrest)

theorem wait_of_settle (hsettle : settle turn n s l = some (s', rest)) : turn s' rest = wait := by
  refine settle_induction (P := fun _ _ => turn s' rest = wait) hsettle id ?_
  intro _ _ _ _ _ _ _ hwait
  exact hwait

theorem Consumes.inv_of_settle (h : Consumes turn Inv) (hs : Inv s)
    (hsettle : settle turn n s l = some (s', rest)) : Inv s' := by
  refine settle_induction (P := fun s _ => Inv s → Inv s') hsettle (fun _ hs => hs) ?_ hs
  intro _ _ _ _ _ hturn _ ih hs
  exact ih (h.keeps hs hturn)

/-- Fuel for every element of the input is enough. -/
theorem settle_fuel (h : Consumes turn Inv) (hs : Inv s) (hn : l.length < n) (hk : l.length < k) :
    settle turn n s l = settle turn k s l := by
  induction n generalizing s l k with
  | zero => exact absurd hn (Nat.not_lt_zero _)
  | succ n ih =>
    obtain ⟨k, rfl⟩ := Nat.exists_eq_succ_of_ne_zero (Nat.ne_of_gt (Nat.zero_lt_of_lt hk))
    cases hturn : turn s l with
    | wait => rw [settle_of_wait hturn, settle_of_wait hturn]
    | took s₁ l₁ =>
      have hlt := h.takes hs hturn
      rw [settle_of_took hturn, settle_of_took hturn]
      exact ih (h.keeps hs hturn) (by omega) (by omega)
    | abort => rw [settle_of_abort hturn, settle_of_abort hturn]

/-- Input in two pieces comes to what the whole comes to. -/
theorem settle_append (h : Consumes turn Inv) (hs : Inv s) (l m : List α) :
    settle turn ((l ++ m).length + 1) s (l ++ m) =
      (settle turn (l.length + 1) s l).bind fun p =>
        settle turn ((p.2 ++ m).length + 1) p.1 (p.2 ++ m) := by
  by_cases hm : m = []
  · subst hm
    simp only [List.append_nil]
    cases hsettle : settle turn (l.length + 1) s l with
    | none => rfl
    | some p => rw [Option.bind_some, settle_of_wait (wait_of_settle hsettle)]
  induction hlen : l.length using Nat.strongRecOn generalizing s l with
  | ind len ih =>
    subst hlen
    cases hturn : turn s l with
    | wait => rw [settle_of_wait hturn, Option.bind_some]
    | abort => rw [settle_of_abort hturn, settle_of_abort (h.fails m hs hturn), Option.bind_none]
    | took s₁ l₁ =>
      have hlt := h.takes hs hturn
      have hkeep := h.keeps hs hturn
      have hfuel : settle turn l.length s₁ l₁ = settle turn (l₁.length + 1) s₁ l₁ :=
        settle_fuel h hkeep hlt (Nat.lt_succ_self _)
      rw [settle_of_took hturn, hfuel]
      rcases h.more m hm hs hturn with hmore | ⟨rfl, hgoes, hmore⟩
      · rw [settle_of_took hmore, ← ih l₁.length hlt hkeep l₁ rfl]
        exact settle_fuel h hkeep (by simp only [List.length_append]; omega) (Nat.lt_succ_self _)
      · rw [settle_nil h, Option.bind_some, List.nil_append]
        cases hnext : turn s₁ m with
        | wait => exact absurd hnext hgoes
        | abort => rw [settle_of_abort (hmore.trans hnext), settle_of_abort hnext]
        | took s₂ l₂ =>
          have hlt₂ := h.takes hkeep hnext
          rw [settle_of_took (hmore.trans hnext), settle_of_took hnext]
          exact settle_fuel h (h.keeps hkeep hnext) (by rw [List.length_append]; omega) hlt₂

theorem Consumes.inv_of_visits (h : Consumes turn Inv) (hs : Inv s) {l' : List α}
    (hvisits : Visits turn s l s' l') : Inv s' ∧ l'.length ≤ l.length := by
  induction hvisits with
  | refl => exact ⟨hs, Nat.le_refl _⟩
  | step hturn _ ih =>
    obtain ⟨hinv, hlen⟩ := ih (h.keeps hs hturn)
    exact ⟨hinv, Nat.le_trans hlen (Nat.le_of_lt (h.takes hs hturn))⟩

end Turn

end Cnet.Support
