/-!
# Reading bytes

A reading takes bytes off the front of a source and changes a state. A failed one keeps
the state that it had reached. `Reads` says of a reading which runs succeed: those on the
encoding of some value, with anything after it.
-/

namespace Cnet.Support

universe u v

/-- The bytes that are left, and the state. -/
structure Source (σ : Type u) where
  rest : List UInt8
  data : σ
deriving DecidableEq

abbrev Reading (ε σ α : Type u) := ExceptT ε (StateM (Source σ)) α

namespace Reading

variable {ε σ α β : Type u}

/-- How a reading ends, and what it leaves. -/
def outcome (m : Reading ε σ α) (s : Source σ) : Except ε α × Source σ := m.run.run s

/-- `m` succeeds. -/
def Ok (m : Reading ε σ α) (s : Source σ) (a : α) (s' : Source σ) : Prop :=
  m.outcome s = (.ok a, s')

/-- `m` done `n` times. -/
def times (m : Reading ε σ α) : Nat → Reading ε σ (List α)
  | 0 => pure []
  | n + 1 => do
    let a ← m
    let as ← times m n
    pure (a :: as)

theorem ok_pure {a b : α} {s s' : Source σ} :
    Ok (pure a : Reading ε σ α) s b s' ↔ b = a ∧ s' = s := by
  constructor
  · intro h
    cases h
    exact ⟨rfl, rfl⟩
  · rintro ⟨rfl, rfl⟩
    rfl

theorem ok_bind {m : Reading ε σ α} {f : α → Reading ε σ β} {s s' : Source σ} {b : β} :
    Ok (m >>= f) s b s' ↔ ∃ a s₁, Ok m s a s₁ ∧ Ok (f a) s₁ b s' := by
  have hbind : (m >>= f).outcome s = match m.outcome s with
      | (.ok a, s₁) => (f a).outcome s₁
      | (.error e, s₁) => (.error e, s₁) := by
    show (StateT.run (ExceptT.bind m f : Reading ε σ β) s) = _
    rw [ExceptT.bind]
    show (ExceptT.bindCont f (m.outcome s).1) (m.outcome s).2 = _
    cases hm : m.outcome s with
    | mk r s₁ => cases r <;> rfl
  rw [Ok, hbind]
  cases hm : m.outcome s with
  | mk r s₁ =>
    cases r with
    | ok a =>
      constructor
      · exact fun h => ⟨a, s₁, hm, h⟩
      · rintro ⟨a', s₂, ha, h⟩
        cases hm.symm.trans ha
        exact h
    | error e =>
      constructor
      · intro h
        cases h
      · rintro ⟨a', s₂, ha, -⟩
        cases hm.symm.trans ha

/-- `m` succeeds exactly on what begins with the encoding of some `x`; its result is then
`value x`, and it changes the state by `step x`. -/
def Reads {χ : Type v} (m : Reading ε σ α) (encode : χ → List UInt8) (value : χ → α)
    (step : σ → χ → σ) : Prop :=
  ∀ s a s', Ok m s a s' ↔
    ∃ x, s.rest = encode x ++ s'.rest ∧ a = value x ∧ s'.data = step s.data x

namespace Reads

variable {χ : Type v} {m : Reading ε σ α} {encode : χ → List UInt8} {value : χ → α}
  {step : σ → χ → σ} (h : Reads m encode value step)
include h

theorem ok_bind {f : α → Reading ε σ β} {rest : List UInt8} {data : σ} {b : β} {s' : Source σ} :
    Ok (m >>= f) ⟨rest, data⟩ b s' ↔
      ∃ x tail, rest = encode x ++ tail ∧ Ok (f (value x)) ⟨tail, step data x⟩ b s' := by
  rw [Reading.ok_bind]
  constructor
  · rintro ⟨a, ⟨tail, data'⟩, ha, hb⟩
    obtain ⟨x, hx, rfl, rfl⟩ := (h ..).mp ha
    exact ⟨x, tail, hx, hb⟩
  · rintro ⟨x, tail, hx, hb⟩
    exact ⟨_, _, (h ..).mpr ⟨x, hx, rfl, rfl⟩, hb⟩

/-- Readings in a row read encodings in a row. -/
theorem times (n : Nat) (s : Source σ) (as : List α) (s' : Source σ) :
    Ok (times m n) s as s' ↔ ∃ xs : List χ, xs.length = n ∧ s.rest = xs.flatMap encode ++ s'.rest ∧
      as = xs.map value ∧ s'.data = xs.foldl step s.data := by
  induction n generalizing s as s' with
  | zero =>
    rw [Reading.times, ok_pure]
    constructor
    · rintro ⟨rfl, rfl⟩
      exact ⟨[], rfl, rfl, rfl, rfl⟩
    · rintro ⟨xs, hlen, hrest, has, hdata⟩
      obtain rfl := List.eq_nil_of_length_eq_zero hlen
      obtain ⟨rest, data⟩ := s
      obtain ⟨rest', data'⟩ := s'
      exact ⟨has, Source.mk.injEq .. ▸ ⟨hrest.symm, hdata⟩⟩
  | succ n ih =>
    rw [Reading.times, Reading.ok_bind]
    constructor
    · rintro ⟨a, s₁, ha, htail⟩
      obtain ⟨x, hx, rfl, hdata⟩ := (h ..).mp ha
      obtain ⟨as', s₂, has, hend⟩ := Reading.ok_bind.mp htail
      obtain ⟨xs, rfl, hxs, rfl, hdata'⟩ := (ih ..).mp has
      obtain ⟨rfl, rfl⟩ := ok_pure.mp hend
      refine ⟨x :: xs, rfl, ?_, rfl, ?_⟩
      · rw [hx, hxs, List.flatMap_cons, List.append_assoc]
      · rw [hdata', hdata, List.foldl_cons]
    · rintro ⟨xs, hlen, hrest, rfl, hdata⟩
      obtain ⟨x, xs, rfl⟩ := List.exists_cons_of_length_eq_add_one hlen
      refine ⟨value x, ⟨xs.flatMap encode ++ s'.rest, step s.data x⟩, (h ..).mpr ⟨x, ?_, rfl, rfl⟩,
        Reading.ok_bind.mpr ⟨xs.map value, s', (ih ..).mpr ⟨xs, ?_, rfl, rfl, hdata⟩,
          ok_pure.mpr ⟨rfl, rfl⟩⟩⟩
      · rw [hrest, List.flatMap_cons, List.append_assoc]
      · exact Nat.succ.inj hlen

theorem ok_bind_times {n : Nat} {f : List α → Reading ε σ β} {rest : List UInt8} {data : σ} {b : β}
    {s' : Source σ} :
    Ok (Reading.times m n >>= f) ⟨rest, data⟩ b s' ↔
      ∃ (xs : List χ) (tail : List UInt8), xs.length = n ∧ rest = xs.flatMap encode ++ tail ∧
        Ok (f (xs.map value)) ⟨tail, xs.foldl step data⟩ b s' := by
  rw [Reading.ok_bind]
  constructor
  · rintro ⟨as, ⟨tail, data'⟩, has, hb⟩
    obtain ⟨xs, hlen, hxs, rfl, rfl⟩ := (h.times ..).mp has
    exact ⟨xs, tail, hlen, hxs, hb⟩
  · rintro ⟨xs, tail, hlen, hxs, hb⟩
    exact ⟨_, _, (h.times ..).mpr ⟨xs, hlen, hxs, rfl, rfl⟩, hb⟩

end Reads

end Reading

end Cnet.Support
