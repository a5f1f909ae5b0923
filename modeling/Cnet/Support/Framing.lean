import Mathlib.Data.List.Basic

/-!
# Readers of a framed stream

A splitter takes one frame off the front of a stream, a reader acts on one frame
after the other. What a reader does with a stream does not depend on how the stream
was cut into pieces, and each of its results is what a fresh reader gets from the
bytes of that result alone.
-/

namespace Cnet.Support

universe u v w

/-- A frame is cut off by its own bytes, and more input behind them changes nothing. -/
structure Splitter (α : Type u) where
  split : List α → Option (List α × List α)
  cut : ∀ {l frame rest}, split l = some (frame, rest) →
    ∃ used, used ≠ [] ∧ l = used ++ rest ∧ split used = some (frame, [])
  stable : ∀ {l frame rest} (m : List α), split l = some (frame, rest) →
    split (l ++ m) = some (frame, rest ++ m)

namespace Splitter

variable {α : Type u} (S : Splitter α)

theorem length_lt {l frame rest : List α} (h : S.split l = some (frame, rest)) :
    rest.length < l.length := by
  obtain ⟨used, hne, rfl, -⟩ := S.cut h
  have := List.length_pos_of_ne_nil hne
  rw [List.length_append]
  omega

theorem split_nil : S.split [] = none := by
  cases h : S.split [] with
  | none => rfl
  | some p =>
    obtain ⟨frame, rest⟩ := p
    have := S.length_lt h
    simp at this

end Splitter

section Pair

variable {α : Type u} [DecidableEq α] (a b : α)

/-- Where `a` directly followed by `b` first occurs. -/
def findPair : List α → Option Nat
  | x :: y :: l => if x = a ∧ y = b then some 0 else (findPair (y :: l)).map (· + 1)
  | _ => none

theorem findPair_some {l : List α} {k : Nat} (h : findPair a b l = some k) :
    ∃ front rest, l = front ++ a :: b :: rest ∧ front.length = k ∧
      ∀ m, findPair a b (front ++ a :: b :: m) = some k := by
  induction l generalizing k with
  | nil => exact absurd h nofun
  | cons x l ih =>
    cases l with
    | nil => exact absurd h nofun
    | cons y l =>
      rw [findPair] at h
      split at h
      · next hxy =>
        obtain ⟨rfl, rfl⟩ := hxy
        obtain rfl := Option.some.inj h
        exact ⟨[], l, rfl, rfl, fun m => by simp [findPair]⟩
      · next hxy =>
        obtain ⟨j, hj, rfl⟩ := Option.map_eq_some_iff.mp h
        obtain ⟨front, rest, hl, hlen, hm⟩ := ih hj
        refine ⟨x :: front, rest, by rw [hl]; rfl, by simp [hlen], fun m => ?_⟩
        have hm := hm m
        cases front with
        | nil =>
          obtain ⟨rfl, -⟩ := List.cons.inj hl
          have hxy' : ¬ (x = y ∧ y = b) := hxy
          simp only [List.nil_append, List.cons_append] at hm ⊢
          rw [findPair, if_neg hxy', hm]
          rfl
        | cons z front =>
          obtain ⟨rfl, -⟩ := List.cons.inj hl
          simp only [List.cons_append] at hm ⊢
          rw [findPair, if_neg hxy, hm]
          rfl

variable {a b} in
/-- What comes before the first pair has none. -/
theorem findPair_append (hab : a ≠ b) {front : List α} (h : findPair a b front = none)
    (rest : List α) : findPair a b (front ++ a :: b :: rest) = some front.length := by
  induction front with
  | nil => exact if_pos ⟨rfl, rfl⟩
  | cons x front ih =>
    cases front with
    | nil =>
      have hne : ¬ (x = a ∧ a = b) := fun hxa => hab hxa.2
      have hhead : findPair a b (a :: b :: rest) = some 0 := if_pos ⟨rfl, rfl⟩
      rw [List.singleton_append, findPair, if_neg hne, hhead]
      rfl
    | cons y front =>
      rw [findPair] at h
      by_cases hxy : x = a ∧ y = b
      · rw [if_pos hxy] at h
        exact absurd h (Option.some_ne_none _)
      · rw [if_neg hxy] at h
        have htail := ih (Option.map_eq_none_iff.mp h)
        rw [List.cons_append] at htail
        rw [List.cons_append, List.cons_append, findPair, if_neg hxy, htail]
        rfl

theorem findPair_take {l : List α} {k : Nat} (h : findPair a b l = some k) :
    findPair a b (l.take k) = none := by
  induction l generalizing k with
  | nil => exact absurd h nofun
  | cons x l ih =>
    cases l with
    | nil => exact absurd h nofun
    | cons y l =>
      rw [findPair] at h
      by_cases hxy : x = a ∧ y = b
      · rw [if_pos hxy] at h
        obtain rfl := Option.some.inj h
        rfl
      · rw [if_neg hxy] at h
        obtain ⟨j, hj, rfl⟩ := Option.map_eq_some_iff.mp h
        have htail := ih hj
        cases j with
        | zero => rfl
        | succ j =>
          rw [List.take_succ_cons] at htail
          rw [List.take_succ_cons, List.take_succ_cons, findPair, if_neg hxy, htail]
          rfl

/-- Frames ended by the two elements `a`, `b`. -/
def pairSplitter : Splitter α where
  split l := (findPair a b l).map fun k => (l.take k, l.drop (k + 2))
  cut := by
    intro l frame rest h
    obtain ⟨k, hk, he⟩ := Option.map_eq_some_iff.mp h
    obtain ⟨front, tail, rfl, rfl, hm⟩ := findPair_some a b hk
    obtain ⟨rfl, rfl⟩ := Prod.mk.inj he
    refine ⟨front ++ [a, b], by simp, by simp, ?_⟩
    rw [hm []]
    simp
  stable := by
    intro l frame rest m h
    obtain ⟨k, hk, he⟩ := Option.map_eq_some_iff.mp h
    obtain ⟨front, tail, rfl, rfl, hm⟩ := findPair_some a b hk
    obtain ⟨rfl, rfl⟩ := Prod.mk.inj he
    rw [List.append_assoc, List.cons_append, List.cons_append, hm (tail ++ m)]
    simp

end Pair

/-- What a reader does with one frame. -/
inductive Action (σ : Type v) (β : Type w)
  /-- Go on reading. -/
  | next (s : σ)
  /-- A result is complete; go on from `s`. -/
  | emit (b : β) (s : σ)
  /-- Stop for good, before the frame. -/
  | fail

/-- What a reader has done with all the input there is. -/
structure Settled (σ : Type v) (α : Type u) (β : Type w) where
  outputs : List β
  state : σ
  rest : List α
  failed : Bool

section Reader

variable {σ : Type v} {α : Type u} {β : Type w} (S : Splitter α)
  (act : σ → List α → Action σ β)

/-- Act on frames until none is complete, or one fails. -/
def settle (s : σ) (l : List α) : Settled σ α β :=
  match h : S.split l with
  | none => ⟨[], s, l, false⟩
  | some (frame, rest) =>
    have := S.length_lt h
    match act s frame with
    | .next s' => settle s' rest
    | .emit b s' =>
      let r := settle s' rest
      { r with outputs := b :: r.outputs }
    | .fail => ⟨[], s, l, true⟩
termination_by l.length

theorem settle_none {s : σ} {l : List α} (h : S.split l = none) :
    settle S act s l = ⟨[], s, l, false⟩ := by
  rw [settle]
  split
  · rfl
  · next h' => rw [h] at h'; exact absurd h' nofun

section Frame

variable {s s' : σ} {b : β} {l frame rest : List α} (h : S.split l = some (frame, rest))
include h

/-- A complete frame is acted on. -/
theorem settle_some : settle S act s l = match act s frame with
    | .next s' => settle S act s' rest
    | .emit b s' =>
      { settle S act s' rest with outputs := b :: (settle S act s' rest).outputs }
    | .fail => ⟨[], s, l, true⟩ := by
  rw [settle]
  split
  · next h' => rw [h] at h'; exact absurd h' nofun
  · next h' =>
    rw [h] at h'
    obtain ⟨rfl, rfl⟩ := Prod.mk.inj (Option.some.inj h')
    rfl

theorem settle_next (ha : act s frame = .next s') : settle S act s l = settle S act s' rest := by
  rw [settle_some S act h, ha]

theorem settle_emit (ha : act s frame = .emit b s') :
    settle S act s l = { settle S act s' rest with
      outputs := b :: (settle S act s' rest).outputs } := by
  rw [settle_some S act h, ha]

theorem settle_fail (ha : act s frame = .fail) : settle S act s l = ⟨[], s, l, true⟩ := by
  rw [settle_some S act h, ha]

end Frame

/-- More input after a reader has settled: a failed reader keeps it, another goes on. -/
def Settled.more (r : Settled σ α β) (m : List α) : Settled σ α β :=
  if r.failed then { r with rest := r.rest ++ m }
  else
    let r' := settle S act r.state (r.rest ++ m)
    { r' with outputs := r.outputs ++ r'.outputs }

/-- A reader that gets its input in two pieces does what it does with the whole. -/
theorem settle_append (s : σ) (l m : List α) :
    settle S act s (l ++ m) = (settle S act s l).more S act m := by
  induction hn : l.length using Nat.strongRecOn generalizing s l with
  | ind n ih =>
    cases h : S.split l with
    | none =>
      rw [settle_none S act h]
      simp [Settled.more]
    | some p =>
      obtain ⟨frame, rest⟩ := p
      have hm := S.stable m h
      have hlt := S.length_lt h
      have ih (s' : σ) := ih rest.length (hn ▸ hlt) s' rest rfl
      cases ha : act s frame with
      | next s' => rw [settle_next S act h ha, settle_next S act hm ha, ih]
      | emit b s' =>
        rw [settle_emit S act h ha, settle_emit S act hm ha, ih]
        simp only [Settled.more]
        split <;> rfl
      | fail =>
        rw [settle_fail S act h ha, settle_fail S act hm ha]
        simp [Settled.more]

/-- Input in any number of pieces. -/
def settlePieces (r : Settled σ α β) (pieces : List (List α)) : Settled σ α β :=
  pieces.foldl (fun r m => r.more S act m) r

/-- The pieces do not matter. -/
theorem settlePieces_flatten (s : σ) (l : List α) (pieces : List (List α)) :
    settlePieces S act (settle S act s l) pieces = settle S act s (l ++ pieces.flatten) := by
  induction pieces generalizing l with
  | nil => simp [settlePieces]
  | cons m pieces ih =>
    have hstep := ih (l ++ m)
    rw [List.flatten_cons, ← List.append_assoc, ← hstep, settle_append]
    rfl

/-- The bytes a result was read from, and nothing else, give a fresh reader that result. -/
def ReadsAlone (s₀ : σ) (own : List α) (b : β) : Prop :=
  settle S act s₀ own = ⟨[b], s₀, [], false⟩

/-- A reader that starts afresh after every result: the stream falls into the bytes of
each result, and the bytes of the one not complete yet. -/
theorem settle_owns {s₀ : σ} (hfresh : ∀ s frame b s', act s frame = .emit b s' → s' = s₀)
    (l : List α) :
    ∃ owns tail, l = owns.flatten ++ tail ∧
      List.Forall₂ (ReadsAlone S act s₀) owns (settle S act s₀ l).outputs := by
  -- `own` is what the current result has taken so far, from `s₀` to the state `s`
  suffices h : ∀ n s own l, l.length = n → settle S act s₀ own = ⟨[], s, [], false⟩ →
      ∃ owns tail, own ++ l = owns.flatten ++ tail ∧
        List.Forall₂ (ReadsAlone S act s₀) owns (settle S act s l).outputs by
    exact h l.length s₀ [] l rfl (settle_none S act S.split_nil)
  intro n
  induction n using Nat.strongRecOn with
  | ind n ih =>
    intro s own l hn hown
    cases h : S.split l with
    | none =>
      rw [settle_none S act h]
      exact ⟨[], own ++ l, rfl, .nil⟩
    | some p =>
      obtain ⟨frame, rest⟩ := p
      obtain ⟨used, -, hl, hused⟩ := S.cut h
      have hlt : rest.length < n := hn ▸ S.length_lt h
      have htaken : settle S act s₀ (own ++ used) = settle S act s used := by
        rw [settle_append, hown]
        simp [Settled.more]
      cases ha : act s frame with
      | next s' =>
        have hown' : settle S act s₀ (own ++ used) = ⟨[], s', [], false⟩ := by
          rw [htaken, settle_next S act hused ha, settle_none S act S.split_nil]
        obtain ⟨owns, tail, he, hall⟩ := ih rest.length hlt s' (own ++ used) rest rfl hown'
        refine ⟨owns, tail, ?_, ?_⟩
        · rw [hl, ← List.append_assoc]
          exact he
        · rw [settle_next S act h ha]
          exact hall
      | emit b s' =>
        obtain rfl := hfresh s frame b s' ha
        obtain ⟨owns, tail, he, hall⟩ :=
          ih rest.length hlt s' [] rest rfl (settle_none S act S.split_nil)
        have hown' : ReadsAlone S act s' (own ++ used) b := by
          rw [ReadsAlone, htaken, settle_emit S act hused ha, settle_none S act S.split_nil]
        refine ⟨(own ++ used) :: owns, tail, ?_, ?_⟩
        · rw [List.nil_append] at he
          rw [hl, he]
          simp
        · rw [settle_emit S act h ha]
          exact .cons hown' hall
      | fail =>
        rw [settle_fail S act h ha]
        exact ⟨[], own ++ l, rfl, .nil⟩

end Reader

end Cnet.Support
