import Mathlib.Logic.Function.Basic
import Cnet.Support.Runs

/-!
# Critical sections

An object is in parts. An operation locks one part, reads it, may take the next value of a
counter that all parts share, writes the part, and unlocks. Operations of different threads
run in any interleaving. What a caller can see of it is what it sees of an object whose
operations are atomic: each operation takes effect at one point between its call and its
return.
-/

namespace Cnet.Support

universe u

/-- What an operation has come to once it has read its part: a result and the new part, or
these as soon as it has counted. -/
inductive Act (C N R : Type u)
  | done (r : R) (c : C)
  | count (k : N → Option (R × C))

theorem Act.done_ne_count {C N R : Type u} {r : R} {c : C} {k : N → Option (R × C)} :
    done r c ≠ count k := nofun

/-- Parts `C` with indices `ι`, a counter in `N`, operations and their results. -/
structure Object (ι C N Op R : Type u) where
  part : Op → ι
  next : N → N
  act : Op → C → Option (Act C N R)

structure Shared (ι C N : Type u) where
  cells : ι → C
  counter : N

/-! ## Atomic objects -/

namespace Atomic

inductive Call (Op R : Type u)
  | idle
  | called (op : Op)
  | finished (r : R)

structure State (σ Op R T : Type u) where
  object : σ
  calls : T → Call Op R

inductive Action (Op R T : Type u)
  | call (t : T) (op : Op)
  | commit (t : T)
  | ret (t : T) (r : R)

variable {σ Op R T : Type u} [DecidableEq R] [DecidableEq T]

def step (perform : Op → σ → Option (R × σ)) (s : State σ Op R T) :
    Action Op R T → Option (State σ Op R T)
  | .call t op =>
    match s.calls t with
    | .idle => some { s with calls := Function.update s.calls t (.called op) }
    | _ => none
  | .commit t =>
    match s.calls t with
    | .called op => (perform op s.object).map fun (r, object) =>
      ⟨object, Function.update s.calls t (.finished r)⟩
    | _ => none
  | .ret t r =>
    match s.calls t with
    | .finished r' =>
      if r = r' then some { s with calls := Function.update s.calls t .idle } else none
    | _ => none

/-- Nobody is inside an operation. -/
def start (object : σ) : State σ Op R T := ⟨object, fun _ => .idle⟩

end Atomic

/-- What callers see. -/
inductive Event (Op R T : Type u)
  | call (t : T) (op : Op)
  | ret (t : T) (r : R)
deriving DecidableEq

variable {ι C N Op R T σ : Type u}

def Atomic.Action.event : Atomic.Action Op R T → Option (Event Op R T)
  | .call t op => some (.call t op)
  | .commit _ => none
  | .ret t r => some (.ret t r)

namespace Object

/-- The operation at one stroke. -/
def perform [DecidableEq ι] (o : Object ι C N Op R) (op : Op) (s : Shared ι C N) :
    Option (R × Shared ι C N) := do
  match ← o.act op (s.cells (o.part op)) with
  | .done r c => some (r, { s with cells := Function.update s.cells (o.part op) c })
  | .count k => do
    let (r, c) ← k (o.next s.counter)
    some (r, ⟨Function.update s.cells (o.part op) c, o.next s.counter⟩)

/-- Where a thread is in an operation. -/
inductive Phase (C Op R : Type u)
  | idle
  | called (op : Op)
  | holding (op : Op)
  | found (op : Op) (c : C)
  | ready (op : Op) (r : R) (c : C)
  | written (op : Op) (r : R)

structure State (ι C N Op R T : Type u) where
  shared : Shared ι C N
  owner : ι → Option T
  phases : T → Phase C Op R

inductive Action (Op R T : Type u)
  | call (t : T) (op : Op)
  | lock (t : T)
  | find (t : T)
  | count (t : T)
  | write (t : T)
  /-- Unlock and return. -/
  | ret (t : T) (r : R)

def Action.event : Action Op R T → Option (Event Op R T)
  | .call t op => some (.call t op)
  | .ret t r => some (.ret t r)
  | _ => none

/-- Whose step it is. -/
def Action.thread : Action Op R T → T
  | .call t _ | .lock t | .find t | .count t | .write t | .ret t _ => t

namespace Phase

/-- The operation that has locked its part. -/
def held : Phase C Op R → Option Op
  | holding op => some op
  | found op _ => some op
  | ready op _ _ => some op
  | written op _ => some op
  | _ => none

/-- A part that has been counted, but not written yet. -/
def draft : Phase C Op R → Option C
  | ready _ _ c => some c
  | _ => none

/-- The operation takes effect when it counts, or else when it writes. -/
def call : Phase C Op R → Atomic.Call Op R
  | idle => .idle
  | called op => .called op
  | holding op => .called op
  | found op _ => .called op
  | ready _ r _ => .finished r
  | written _ r => .finished r

end Phase

/-- The parts as their owners leave them. -/
def State.view (s : State ι C N Op R T) : Shared ι C N where
  cells i := ((s.owner i).bind fun t => (s.phases t).draft).getD (s.shared.cells i)
  counter := s.shared.counter

/-- A part is owned by the thread that has locked it, and by no other; what a thread has found
in its part is still there. -/
structure Inv (o : Object ι C N Op R) (s : State ι C N Op R T) : Prop where
  owner : ∀ i t, s.owner i = some t ↔ ∃ op, (s.phases t).held = some op ∧ o.part op = i
  found : ∀ t op c, s.phases t = .found op c → s.shared.cells (o.part op) = c

def start (shared : Shared ι C N) : State ι C N Op R T := ⟨shared, fun _ => none, fun _ => .idle⟩

section

variable {o : Object ι C N Op R} {s : State ι C N Op R T}

theorem inv_start (shared : Shared ι C N) : Inv o (start shared : State ι C N Op R T) where
  owner _ _ := ⟨nofun, fun ⟨_, hheld, _⟩ => absurd hheld nofun⟩
  found _ _ _ h := absurd h nofun

/-- Two threads in critical sections are in different parts. -/
theorem Inv.eq_of_held (h : Inv o s) {t t' : T} {op op' : Op}
    (ht : (s.phases t).held = some op) (ht' : (s.phases t').held = some op')
    (hpart : o.part op = o.part op') : t = t' := by
  have howner := (h.owner (o.part op) t).mpr ⟨op, ht, rfl⟩
  have howner' := (h.owner (o.part op) t').mpr ⟨op', ht', hpart.symm⟩
  exact Option.some.inj (howner.symm.trans howner')

theorem Inv.owner_of_held (h : Inv o s) {t : T} {op : Op} (ht : (s.phases t).held = some op) :
    s.owner (o.part op) = some t :=
  (h.owner _ t).mpr ⟨op, ht, rfl⟩

theorem view_owned {t : T} {i : ι} (h : s.owner i = some t) :
    s.view.cells i = (s.phases t).draft.getD (s.shared.cells i) := by
  show ((s.owner i).bind _).getD _ = _
  rw [h]
  rfl

theorem view_free {i : ι} (h : s.owner i = none) : s.view.cells i = s.shared.cells i := by
  show ((s.owner i).bind _).getD _ = _
  rw [h]
  rfl

/-- The thread that has locked a part is in no other. -/
theorem Inv.owner_ne (h : Inv o s) {t : T} {op : Op} (ht : (s.phases t).held = some op) {i : ι}
    (hi : i ≠ o.part op) : s.owner i ≠ some t := by
  intro howner
  obtain ⟨op', hheld, rfl⟩ := (h.owner i t).mp howner
  obtain rfl := Option.some.inj (ht.symm.trans hheld)
  exact hi rfl

theorem Inv.owner_ne_of_not_held (h : Inv o s) {t : T} (ht : (s.phases t).held = none) (i : ι) :
    s.owner i ≠ some t := by
  intro howner
  obtain ⟨op, hheld, -⟩ := (h.owner i t).mp howner
  exact absurd (ht.symm.trans hheld) nofun

theorem view_found (h : Inv o s) {t : T} {op : Op} {c : C} (hp : s.phases t = .found op c) :
    s.view.cells (o.part op) = c := by
  have hheld : (s.phases t).held = some op := by rw [hp]; rfl
  have howner := h.owner_of_held hheld
  rw [view_owned howner, hp]
  exact h.found t op c hp

end

namespace State

def setCounter (s : State ι C N Op R T) (n : N) : State ι C N Op R T :=
  { s with shared := { s.shared with counter := n } }

variable [DecidableEq T]

def setPhase (s : State ι C N Op R T) (t : T) (p : Phase C Op R) : State ι C N Op R T :=
  { s with phases := Function.update s.phases t p }

theorem setPhase_self (s : State ι C N Op R T) (t : T) (p : Phase C Op R) :
    (s.setPhase t p).phases t = p := Function.update_self _ _ _

theorem setPhase_of_ne {s : State ι C N Op R T} {t t' : T} (h : t' ≠ t) (p : Phase C Op R) :
    (s.setPhase t p).phases t' = s.phases t' := Function.update_of_ne h _ _

variable [DecidableEq ι]

def setOwner (s : State ι C N Op R T) (i : ι) (t : Option T) : State ι C N Op R T :=
  { s with owner := Function.update s.owner i t }

def setCell (s : State ι C N Op R T) (i : ι) (c : C) : State ι C N Op R T :=
  { s with shared := { s.shared with cells := Function.update s.shared.cells i c } }

end State

/-! ## What every step keeps -/

section

variable [DecidableEq T] {o : Object ι C N Op R} {s : State ι C N Op R T}

/-- A thread goes on, with the same lock or without one. -/
theorem Inv.setPhase (h : Inv o s) {t : T} {p : Phase C Op R} (hp : p.held = (s.phases t).held)
    (hfound : ∀ op c, p = .found op c → s.shared.cells (o.part op) = c) :
    Inv o (s.setPhase t p) where
  owner i t' := by
    by_cases ht : t' = t
    · subst ht
      rw [State.setPhase_self, hp]
      exact h.owner i t'
    · rw [State.setPhase_of_ne ht]
      exact h.owner i t'
  found t' op c hc := by
    by_cases ht : t' = t
    · subst ht
      rw [State.setPhase_self] at hc
      exact hfound op c hc
    · rw [State.setPhase_of_ne ht] at hc
      exact h.found t' op c hc

variable [DecidableEq ι]

/-- A thread writes the part that it has locked. -/
theorem Inv.setCell (h : Inv o s) {t : T} {op : Op} (ht : (s.phases t).held = some op) (c : C)
    (r : R) : Inv o ((s.setCell (o.part op) c).setPhase t (.written op r)) where
  owner := (h.setPhase (p := .written op r) ht.symm nofun).owner
  found t' op' c' hc := by
    have hne : t' ≠ t := by
      rintro rfl
      rw [State.setPhase_self] at hc
      exact absurd hc nofun
    have hc' : s.phases t' = .found op' c' := by rwa [State.setPhase_of_ne hne] at hc
    have hother : o.part op' ≠ o.part op := fun hpart =>
      hne (h.eq_of_held (by rw [hc']; rfl) ht hpart)
    show Function.update s.shared.cells (o.part op) c (o.part op') = c'
    rw [Function.update_of_ne hother]
    exact h.found t' op' c' hc'

theorem Inv.lock (h : Inv o s) {t : T} {op : Op} (ht : (s.phases t).held = none)
    (hfree : s.owner (o.part op) = none) :
    Inv o ((s.setOwner (o.part op) (some t)).setPhase t (.holding op)) where
  owner i t' := by
    show Function.update s.owner (o.part op) (some t) i = some t' ↔ _
    by_cases htt : t' = t
    · subst htt
      rw [State.setPhase_self]
      by_cases hi : i = o.part op
      · rw [hi, Function.update_self]
        exact ⟨fun _ => ⟨op, rfl, rfl⟩, fun _ => rfl⟩
      · rw [Function.update_of_ne hi, h.owner]
        refine iff_of_false (fun ⟨op', hheld, _⟩ => ?_) fun ⟨op', hheld, hpart⟩ => ?_
        · rw [ht] at hheld
          exact absurd hheld nofun
        · obtain rfl := Option.some.inj hheld
          exact hi hpart.symm
    · rw [State.setPhase_of_ne htt]
      show _ ↔ ∃ op, (s.phases t').held = some op ∧ _
      rw [← h.owner]
      by_cases hi : i = o.part op
      · rw [hi, Function.update_self, hfree]
        exact iff_of_false (fun heq => htt (Option.some.inj heq).symm) nofun
      · rw [Function.update_of_ne hi]
  found t' op' c hc := by
    by_cases htt : t' = t
    · subst htt
      rw [State.setPhase_self] at hc
      exact absurd hc nofun
    · rw [State.setPhase_of_ne htt] at hc
      exact h.found t' op' c hc

theorem Inv.unlock (h : Inv o s) {t : T} {op : Op} (ht : (s.phases t).held = some op) :
    Inv o ((s.setOwner (o.part op) none).setPhase t .idle) where
  owner i t' := by
    show Function.update s.owner (o.part op) none i = some t' ↔ _
    have howner := h.owner_of_held ht
    by_cases htt : t' = t
    · subst htt
      rw [State.setPhase_self]
      refine iff_of_false (fun hi => ?_) fun ⟨_, hheld, _⟩ => absurd hheld nofun
      by_cases hpart : i = o.part op
      · rw [hpart, Function.update_self] at hi
        exact absurd hi nofun
      · rw [Function.update_of_ne hpart] at hi
        obtain ⟨op', hheld, rfl⟩ := (h.owner i t').mp hi
        obtain rfl := Option.some.inj (ht.symm.trans hheld)
        exact hpart rfl
    · rw [State.setPhase_of_ne htt]
      show _ ↔ ∃ op, (s.phases t').held = some op ∧ _
      rw [← h.owner]
      by_cases hi : i = o.part op
      · rw [hi, Function.update_self, howner]
        exact iff_of_false nofun fun heq => htt (Option.some.inj heq).symm
      · rw [Function.update_of_ne hi]
  found t' op' c hc := by
    by_cases htt : t' = t
    · subst htt
      rw [State.setPhase_self] at hc
      exact absurd hc nofun
    · rw [State.setPhase_of_ne htt] at hc
      exact h.found t' op' c hc

end

/-! ## Steps -/

variable [DecidableEq ι] [DecidableEq T] (o : Object ι C N Op R)

def step [DecidableEq R] (s : State ι C N Op R T) : Action Op R T → Option (State ι C N Op R T)
  | .call t op =>
    match s.phases t with
    | .idle => some (s.setPhase t (.called op))
    | _ => none
  | .lock t =>
    match s.phases t with
    | .called op =>
      if (s.owner (o.part op)).isNone then
        some ((s.setOwner (o.part op) (some t)).setPhase t (.holding op))
      else none
    | _ => none
  | .find t =>
    match s.phases t with
    | .holding op => some (s.setPhase t (.found op (s.shared.cells (o.part op))))
    | _ => none
  | .count t =>
    match s.phases t with
    | .found op c =>
      match o.act op c with
      | some (.count k) => (k (o.next s.shared.counter)).map fun (r, c) =>
        (s.setCounter (o.next s.shared.counter)).setPhase t (.ready op r c)
      | _ => none
    | _ => none
  | .write t =>
    match s.phases t with
    | .found op c =>
      match o.act op c with
      | some (.done r c) => some ((s.setCell (o.part op) c).setPhase t (.written op r))
      | _ => none
    | .ready op r c => some ((s.setCell (o.part op) c).setPhase t (.written op r))
    | _ => none
  | .ret t r =>
    match s.phases t with
    | .written op r' =>
      if r = r' then some ((s.setOwner (o.part op) none).setPhase t .idle) else none
    | _ => none

variable {o} {s s' : State ι C N Op R T}

/-- A step is one of seven. -/
inductive Moves (o : Object ι C N Op R) (s : State ι C N Op R T) :
    Action Op R T → State ι C N Op R T → Prop
  | call {t : T} {op : Op} (h : s.phases t = .idle) :
    Moves o s (.call t op) (s.setPhase t (.called op))
  | lock {t : T} {op : Op} (h : s.phases t = .called op) (hfree : s.owner (o.part op) = none) :
    Moves o s (.lock t) ((s.setOwner (o.part op) (some t)).setPhase t (.holding op))
  | find {t : T} {op : Op} (h : s.phases t = .holding op) :
    Moves o s (.find t) (s.setPhase t (.found op (s.shared.cells (o.part op))))
  | count {t : T} {op : Op} {c c' : C} {r : R} {k : N → Option (R × C)}
    (h : s.phases t = .found op c) (hact : o.act op c = some (.count k))
    (hk : k (o.next s.shared.counter) = some (r, c')) :
    Moves o s (.count t) ((s.setCounter (o.next s.shared.counter)).setPhase t (.ready op r c'))
  | finish {t : T} {op : Op} {c c' : C} {r : R} (h : s.phases t = .found op c)
    (hact : o.act op c = some (.done r c')) :
    Moves o s (.write t) ((s.setCell (o.part op) c').setPhase t (.written op r))
  | write {t : T} {op : Op} {c : C} {r : R} (h : s.phases t = .ready op r c) :
    Moves o s (.write t) ((s.setCell (o.part op) c).setPhase t (.written op r))
  | ret {t : T} {op : Op} {r : R} (h : s.phases t = .written op r) :
    Moves o s (.ret t r) ((s.setOwner (o.part op) none).setPhase t .idle)

theorem moves_of_step [DecidableEq R] {x : Action Op R T} (h : o.step s x = some s') :
    Moves o s x s' := by
  cases x with
  | call t op =>
    rw [step] at h
    split at h
    · next hp => obtain rfl := Option.some.inj h; exact .call hp
    · exact absurd h nofun
  | lock t =>
    rw [step] at h
    split at h
    · next op hp =>
      obtain ⟨hfree, rfl⟩ := eq_of_guarded h
      exact .lock hp (Option.isNone_iff_eq_none.mp hfree)
    · exact absurd h nofun
  | find t =>
    rw [step] at h
    split at h
    · next op hp => obtain rfl := Option.some.inj h; exact .find hp
    · exact absurd h nofun
  | count t =>
    rw [step] at h
    split at h
    · next op c hp =>
      split at h
      · next k hact =>
        obtain ⟨⟨r, c'⟩, hk, rfl⟩ := Option.map_eq_some_iff.mp h
        exact .count hp hact hk
      · exact absurd h nofun
    · exact absurd h nofun
  | write t =>
    rw [step] at h
    split at h
    · next op c hp =>
      split at h
      · next r c' hact => obtain rfl := Option.some.inj h; exact .finish hp hact
      · exact absurd h nofun
    · next op r c hp => obtain rfl := Option.some.inj h; exact .write hp
    · exact absurd h nofun
  | ret t r =>
    rw [step] at h
    split at h
    · next op r' hp =>
      obtain ⟨rfl, rfl⟩ := eq_of_guarded h
      exact .ret hp
    · exact absurd h nofun

theorem Inv.moves (h : Inv o s) {x : Action Op R T} (hx : Moves o s x s') : Inv o s' := by
  cases hx with
  | call ht => exact h.setPhase (by rw [ht]; rfl) nofun
  | lock ht hfree => exact h.lock (by rw [ht]; rfl) hfree
  | find ht =>
    refine h.setPhase (by rw [ht]; rfl) fun op' c hc => ?_
    obtain ⟨rfl, rfl⟩ := Phase.found.inj hc
    rfl
  | @count t op c c' r k ht hact hk =>
    have hphase := h.setPhase (t := t) (p := .ready op r c') (by rw [ht]; rfl) nofun
    exact ⟨hphase.owner, hphase.found⟩
  | finish ht _ => exact h.setCell (by rw [ht]; rfl) _ _
  | write ht => exact h.setCell (by rw [ht]; rfl) _ _
  | ret ht => exact h.unlock (by rw [ht]; rfl)

/-! ## Every operation takes effect at one point -/

section View

variable {t : T} {i₀ : ι} {p : Phase C Op R}

omit [DecidableEq ι] in
theorem view_setPhase (hp : p.draft = (s.phases t).draft) : (s.setPhase t p).view = s.view := by
  have hdraft (t' : T) : ((s.setPhase t p).phases t').draft = (s.phases t').draft := by
    by_cases ht : t' = t
    · rw [ht, State.setPhase_self, hp]
    · rw [State.setPhase_of_ne ht]
  rw [State.view, State.view]
  simp only [hdraft]
  rfl

/-- A step of a thread that is inside one part shows in that part only. -/
theorem view_cells (hphases : s'.phases = Function.update s.phases t p)
    (hothers : ∀ i, i ≠ i₀ → s.owner i ≠ some t ∧ s'.owner i = s.owner i ∧
      s'.shared.cells i = s.shared.cells i) :
    s'.view.cells = Function.update s.view.cells i₀ (s'.view.cells i₀) := by
  funext i
  by_cases hi : i = i₀
  · rw [hi, Function.update_self]
  · obtain ⟨hother, howner, hcells⟩ := hothers i hi
    rw [Function.update_of_ne hi]
    cases hfree : s.owner i with
    | none => rw [view_free hfree, view_free (howner.trans hfree), hcells]
    | some t' =>
      have hne : t' ≠ t := fun heq => hother (heq ▸ hfree)
      rw [view_owned hfree, view_owned (howner.trans hfree), hphases, Function.update_of_ne hne,
        hcells]

/-- A step of a thread in its part changes what is seen of the part as `hview` says. -/
theorem view_eq (h : Inv o s) {op : Op} {c : C} (hheld : (s.phases t).held = some op)
    (hphases : s'.phases = Function.update s.phases t p)
    (hothers : ∀ i, i ≠ o.part op → s'.owner i = s.owner i ∧ s'.shared.cells i = s.shared.cells i)
    (hview : s'.view.cells (o.part op) = c) :
    s'.view = ⟨Function.update s.view.cells (o.part op) c, s'.shared.counter⟩ := by
  have hcells := view_cells hphases fun i hi => ⟨h.owner_ne hheld hi, hothers i hi⟩
  rw [hview] at hcells
  rw [← hcells]
  rfl

end View

variable {σ : Type u} {perform' : Op → σ → Option (R × σ)} {f : Shared ι C N → σ}

/-- The atomic object that callers see. -/
def abs (f : Shared ι C N → σ) (s : State ι C N Op R T) : Atomic.State σ Op R T :=
  ⟨f s.view, fun t => (s.phases t).call⟩

/-- What a step is of the atomic object: nothing, or a step that takes effect. -/
def image (s : State ι C N Op R T) : Action Op R T → List (Atomic.Action Op R T)
  | .call t op => [.call t op]
  | .lock _ => []
  | .find _ => []
  | .count t => [.commit t]
  | .write t =>
    match s.phases t with
    | .found _ _ => [.commit t]
    | _ => []
  | .ret t r => [.ret t r]

omit [DecidableEq ι] in
theorem calls_setPhase (s : State ι C N Op R T) (t : T) (p : Phase C Op R) :
    (fun t' => ((s.setPhase t p).phases t').call) =
      Function.update (fun t' => (s.phases t').call) t p.call := by
  funext t'
  by_cases ht : t' = t
  · rw [ht, State.setPhase_self, Function.update_self]
  · rw [State.setPhase_of_ne ht, Function.update_of_ne ht]

omit [DecidableEq ι] in
/-- Nothing to see from outside. -/
theorem abs_setPhase {t : T} {p : Phase C Op R} (hdraft : p.draft = (s.phases t).draft)
    (hcall : p.call = (s.phases t).call) : abs f (s.setPhase t p) = abs f s := by
  rw [abs, abs, view_setPhase hdraft, calls_setPhase, hcall, Function.update_eq_self]

section Simulation

variable {t : T} {op : Op} {c c' : C} {r : R}

theorem view_lock (h : Inv o s) (hnot : (s.phases t).held = none)
    (hfree : s.owner (o.part op) = none) :
    ((s.setOwner (o.part op) (some t)).setPhase t (.holding op)).view = s.view := by
  set s' := (s.setOwner (o.part op) (some t)).setPhase t (.holding op)
  have howner : s'.owner (o.part op) = some t := Function.update_self _ _ _
  have hphase : s'.phases t = .holding op := State.setPhase_self _ _ _
  have hcell : s'.view.cells (o.part op) = s.view.cells (o.part op) := by
    rw [view_owned howner, hphase, view_free hfree]
    rfl
  have hcells : s'.view.cells =
      Function.update s.view.cells (o.part op) (s'.view.cells (o.part op)) :=
    view_cells rfl fun i hi => ⟨h.owner_ne_of_not_held hnot i, Function.update_of_ne hi _ _, rfl⟩
  rw [hcell, Function.update_eq_self] at hcells
  rw [State.view, State.view, Shared.mk.injEq]
  exact ⟨hcells, rfl⟩

section Held

variable (h : Inv o s) (hheld : (s.phases t).held = some op)
include h hheld

theorem view_count (n : N) :
    ((s.setCounter n).setPhase t (.ready op r c)).view =
      ⟨Function.update s.view.cells (o.part op) c, n⟩ := by
  set s' := (s.setCounter n).setPhase t (.ready op r c)
  have howner : s'.owner (o.part op) = some t := h.owner_of_held hheld
  have hphase : s'.phases t = .ready op r c := State.setPhase_self _ _ _
  exact view_eq h hheld rfl (fun _ _ => ⟨rfl, rfl⟩) (by rw [view_owned howner, hphase]; rfl)

theorem view_write :
    ((s.setCell (o.part op) c).setPhase t (.written op r)).view =
      ⟨Function.update s.view.cells (o.part op) c, s.shared.counter⟩ := by
  set s' := (s.setCell (o.part op) c).setPhase t (.written op r)
  have howner : s'.owner (o.part op) = some t := h.owner_of_held hheld
  have hphase : s'.phases t = .written op r := State.setPhase_self _ _ _
  have hcell : s'.shared.cells (o.part op) = c := Function.update_self _ _ _
  exact view_eq h hheld rfl (fun i hi => ⟨rfl, Function.update_of_ne hi _ _⟩)
    (by rw [view_owned howner, hphase, hcell]; rfl)

theorem view_unlock (hdraft : (s.phases t).draft = none) :
    ((s.setOwner (o.part op) none).setPhase t .idle).view = s.view := by
  set s' := (s.setOwner (o.part op) none).setPhase t .idle
  have howner : s'.owner (o.part op) = none := Function.update_self _ _ _
  have hcell : s.view.cells (o.part op) = s.shared.cells (o.part op) := by
    rw [view_owned (h.owner_of_held hheld), hdraft]
    rfl
  have hview : s'.view = _ := view_eq h hheld rfl
    (fun i hi => ⟨Function.update_of_ne hi _ _, rfl⟩) ((view_free howner).trans hcell.symm)
  rw [hview, Function.update_eq_self]
  rfl

end Held

variable [DecidableEq R] {x : Action Op R T}

/-- The operation takes effect now. -/
theorem step_commit (hperform : ∀ op shared, perform' op (f shared) =
      (o.perform op shared).map fun p => (p.1, f p.2))
    (hcall : (s.phases t).call = .called op) {shared : Shared ι C N}
    (hdone : o.perform op s.view = some (r, shared)) :
    run (Atomic.step perform') (abs f s) [.commit t] =
      some ⟨f shared, Function.update (fun t => (s.phases t).call) t (.finished r)⟩ := by
  rw [run_cons, Atomic.step]
  simp only [abs, hcall, hperform, hdone]
  rfl

/-- One step of the locked object is at most one of the atomic one, and shows the same. -/
theorem simulates (hperform : ∀ op shared, perform' op (f shared) =
      (o.perform op shared).map fun p => (p.1, f p.2))
    (h : Inv o s) (hx : Moves o s x s') :
    run (Atomic.step perform') (abs f s) (image s x) = some (abs f s') ∧
      (image s x).filterMap Atomic.Action.event = [x].filterMap Action.event := by
  cases hx with
  | @call t op ht =>
    refine ⟨?_, rfl⟩
    have hcall : (abs f s).calls t = .idle := by rw [abs]; simp only [ht]; rfl
    rw [image, run_cons, Atomic.step, hcall, abs, abs, view_setPhase (by rw [ht]; rfl),
      calls_setPhase]
    rfl
  | @lock t op ht hfree =>
    refine ⟨?_, rfl⟩
    have hcalls : (Phase.holding op : Phase C Op R).call = (s.phases t).call := by rw [ht]; rfl
    rw [abs, abs, view_lock h (by rw [ht]; rfl) hfree, calls_setPhase, hcalls]
    exact congrArg (fun calls => some (Atomic.State.mk _ calls)) (Function.update_eq_self _ _).symm
  | @find t op ht =>
    refine ⟨congrArg some (abs_setPhase ?_ ?_).symm, rfl⟩
    · rw [ht]
      rfl
    · rw [ht]
      rfl
  | @count t op c c' r k ht hact hk =>
    refine ⟨?_, rfl⟩
    have hview := view_count (r := r) (c := c') h (by rw [ht]; rfl) (o.next s.shared.counter)
    have hdone : o.perform op s.view = some (r, ⟨Function.update s.view.cells (o.part op) c',
        o.next s.shared.counter⟩) := by
      rw [perform, view_found h ht, hact, Option.bind_eq_bind, Option.bind_some]
      show (k (o.next s.shared.counter)).bind _ = _
      rw [hk]
      rfl
    rw [image, step_commit hperform (by rw [ht]; rfl) hdone, abs, hview, calls_setPhase]
    rfl
  | @finish t op c c' r ht hact =>
    have himage : image s (.write t) = [Atomic.Action.commit t] := by rw [image, ht]
    have hview := view_write (r := r) (c := c') h (by rw [ht]; rfl)
    have hdone : o.perform op s.view = some (r, ⟨Function.update s.view.cells (o.part op) c',
        s.shared.counter⟩) := by
      rw [perform, view_found h ht, hact, Option.bind_eq_bind, Option.bind_some]
      rfl
    refine ⟨?_, by rw [himage]; rfl⟩
    rw [himage, step_commit hperform (by rw [ht]; rfl) hdone, abs, hview, calls_setPhase]
    rfl
  | @write t op c r ht =>
    have himage : image s (.write t) = [] := by rw [image, ht]
    have hheld : (s.phases t).held = some op := by rw [ht]; rfl
    have hcell : s.view.cells (o.part op) = c := by
      rw [view_owned (h.owner_of_held hheld), ht]
      rfl
    have hview := view_write (r := r) (c := c) h hheld
    have hcalls : (Phase.written op r : Phase C Op R).call = (s.phases t).call := by rw [ht]; rfl
    rw [← hcell, Function.update_eq_self, hcell] at hview
    refine ⟨?_, by rw [himage]; rfl⟩
    rw [himage, abs, abs, hview, calls_setPhase, hcalls]
    exact congrArg (fun calls => some (Atomic.State.mk _ calls)) (Function.update_eq_self _ _).symm
  | @ret t op r ht =>
    refine ⟨?_, rfl⟩
    have hheld : (s.phases t).held = some op := by rw [ht]; rfl
    have hdraft : (s.phases t).draft = none := by rw [ht]; rfl
    have hview := view_unlock h hheld hdraft
    have hcall : (abs f s).calls t = .finished r := by rw [abs]; simp only [ht]; rfl
    rw [image, run_cons, Atomic.step, hcall]
    dsimp only
    rw [if_pos rfl, Option.bind_some, run, abs, abs, hview, calls_setPhase]
    rfl

variable (perform' f) in
/-- Every run of the locked object shows what a run of the atomic one shows. -/
theorem run_simulates (hperform : ∀ op shared, perform' op (f shared) =
      (o.perform op shared).map fun p => (p.1, f p.2))
    (h : Inv o s) {xs : List (Action Op R T)} (hxs : run o.step s xs = some s') :
    ∃ ys, run (Atomic.step perform') (abs f s) ys = some (abs f s') ∧
      ys.filterMap Atomic.Action.event = xs.filterMap Action.event ∧ Inv o s' := by
  induction xs generalizing s with
  | nil =>
    obtain rfl := Option.some.inj hxs
    exact ⟨[], rfl, rfl, h⟩
  | cons x xs ih =>
    obtain ⟨m, hm, hrest⟩ := (run_cons_some o.step).mp hxs
    have hmoves := moves_of_step hm
    obtain ⟨hfirst, hevent⟩ := simulates hperform h hmoves
    obtain ⟨ys, hys, hevents, hinv⟩ := ih (h.moves hmoves) hrest
    refine ⟨image s x ++ ys, ?_, ?_, hinv⟩
    · rw [run_append, hfirst, Option.bind_some, hys]
    · rw [List.filterMap_append, hevent, hevents, ← List.filterMap_append]
      rfl

/-- The thread is about to fail. -/
def Aborts (o : Object ι C N Op R) (s : State ι C N Op R T) (t : T) : Prop :=
  ∃ op c, s.phases t = .found op c ∧ (o.act op c = none ∨
    ∃ k, o.act op c = some (.count k) ∧ k (o.next s.shared.counter) = none)

/-- A thread that is about to fail has no step. -/
theorem Aborts.step_none (h : Aborts o s t) {x : Action Op R T} (hx : x.thread = t) :
    o.step s x = none := by
  obtain ⟨op, c, hfound, hfails⟩ := h
  subst hx
  cases x with
  | call t op => rw [step, show s.phases t = .found _ c from hfound]
  | lock t => rw [step, show s.phases t = .found _ c from hfound]
  | find t => rw [step, show s.phases t = .found _ c from hfound]
  | count t =>
    rw [step, show s.phases t = .found op c from hfound]
    rcases hfails with hnone | ⟨k, hcount, hk⟩
    · simp only [hnone]
    · simp only [hcount, hk, Option.map_none]
  | write t =>
    rw [step, show s.phases t = .found op c from hfound]
    rcases hfails with hnone | ⟨k, hcount, hk⟩
    · simp only [hnone]
    · simp only [hcount]
  | ret t r => rw [step, show s.phases t = .found _ c from hfound]

/-- A step inside an operation, or back from it. -/
def CanGoOn (o : Object ι C N Op R) (s : State ι C N Op R T) : Prop :=
  ∃ x, (∀ t op, x ≠ Action.call t op) ∧ (o.step s x).isSome = true

/-- A thread that has a lock does not wait for anything. -/
theorem canGoOn_of_held (hheld : (s.phases t).held = some op) : CanGoOn o s ∨ Aborts o s t := by
  cases hp : s.phases t with
  | idle => rw [hp] at hheld; exact absurd hheld nofun
  | called op' => rw [hp] at hheld; exact absurd hheld nofun
  | holding op' => exact .inl ⟨.find t, nofun, by rw [step, hp]; rfl⟩
  | found op' c =>
    cases hact : o.act op' c with
    | none => exact .inr ⟨op', c, hp, .inl hact⟩
    | some a =>
      cases a with
      | done r c' => exact .inl ⟨.write t, nofun, by rw [step, hp]; simp only [hact]; rfl⟩
      | count k =>
        cases hk : k (o.next s.shared.counter) with
        | none => exact .inr ⟨op', c, hp, .inr ⟨k, hact, hk⟩⟩
        | some p => exact .inl ⟨.count t, nofun, by rw [step, hp]; simp only [hact, hk]; rfl⟩
  | ready op' r c => exact .inl ⟨.write t, nofun, by rw [step, hp]; rfl⟩
  | written op' r => exact .inl ⟨.ret t r, nofun, by rw [step, hp]; simp⟩

/-- As long as a thread is inside an operation, there is one that can go on. -/
theorem canGoOn (h : Inv o s) (hbusy : s.phases t ≠ .idle) :
    CanGoOn o s ∨ ∃ t, Aborts o s t := by
  cases hheld : (s.phases t).held with
  | some op => exact (canGoOn_of_held hheld).imp_right fun habort => ⟨t, habort⟩
  | none =>
    cases hp : s.phases t with
    | idle => exact absurd hp hbusy
    | called op =>
      cases howner : s.owner (o.part op) with
      | none => exact .inl ⟨.lock t, nofun, by rw [step, hp]; simp [howner]⟩
      | some t' =>
        obtain ⟨op', hheld', -⟩ := (h.owner _ t').mp howner
        exact (canGoOn_of_held hheld').imp_right fun habort => ⟨t', habort⟩
    | holding op => rw [hp] at hheld; exact absurd hheld nofun
    | found op c => rw [hp] at hheld; exact absurd hheld nofun
    | ready op r c => rw [hp] at hheld; exact absurd hheld nofun
    | written op r => rw [hp] at hheld; exact absurd hheld nofun

omit [DecidableEq ι] [DecidableEq T] [DecidableEq R] in
/-- With nobody inside, the parts are as they are seen. -/
theorem view_quiet (hquiet : ∀ t, s.phases t = .idle) : s.view = s.shared := by
  have hdraft (t : T) : (s.phases t).draft = none := by rw [hquiet]; rfl
  have hcells : s.view.cells = s.shared.cells := by
    funext i
    cases hi : s.owner i with
    | none => exact view_free hi
    | some t => rw [view_owned hi, hdraft]; rfl
  calc s.view = ⟨s.view.cells, s.shared.counter⟩ := rfl
    _ = s.shared := by rw [hcells]

end Simulation

end Object

end Cnet.Support
