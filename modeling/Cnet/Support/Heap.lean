import Mathlib.Data.List.Perm.Basic

/-!
# A heap whose addresses are reused

A pointer carries the identity of the object it was made for, next to the address.
Comparing pointers compares addresses only, but a dereference succeeds only while
the object itself is there, so a use of a freed object is seen even when another
object has its address. `Owns` says that a list of pointers holds each live object
exactly once.
-/

namespace Cnet.Support

universe u
variable {β : Type u}

/-- An address, and the identity of the object the pointer was made for. -/
structure Pointer where
  addr : Nat
  object : Nat
deriving DecidableEq, Repr

/-- The objects, by address. -/
abbrev Heap (β : Type u) := Nat → Option β

namespace Heap

/-- The object `p` was made for, if it is still there. -/
def deref (ident : β → Nat) (h : Heap β) (p : Pointer) : Option β :=
  match h p.addr with
  | some x => if ident x = p.object then some x else none
  | none => none

/-- The heap with `x` at the address of `p`. -/
def store (h : Heap β) (p : Pointer) (x : β) : Heap β :=
  fun a => if a = p.addr then some x else h a

/-- The heap with nothing at the address of `p`. -/
def free (h : Heap β) (p : Pointer) : Heap β :=
  fun a => if a = p.addr then none else h a

variable {ident : β → Nat} {h : Heap β} {p q : Pointer} {x : β}

theorem deref_eq_some : h.deref ident p = some x ↔ h p.addr = some x ∧ ident x = p.object := by
  rw [deref]
  cases h p.addr with
  | none => simp
  | some y =>
    by_cases hy : ident y = p.object
    · simp only [if_pos hy, Option.some.injEq]
      exact ⟨fun e => ⟨e, e ▸ hy⟩, And.left⟩
    · simp only [if_neg hy, Option.some.injEq]
      exact ⟨nofun, fun ⟨e, hx⟩ => absurd (e ▸ hx) hy⟩

theorem deref_store_self (hx : ident x = p.object) : (h.store p x).deref ident p = some x :=
  deref_eq_some.mpr ⟨if_pos rfl, hx⟩

theorem deref_store_ne (hq : q.addr ≠ p.addr) :
    (h.store p x).deref ident q = h.deref ident q := by
  rw [deref, deref, store, if_neg hq]

theorem deref_free_ne (hq : q.addr ≠ p.addr) : (h.free p).deref ident q = h.deref ident q := by
  rw [deref, deref, free, if_neg hq]

theorem deref_of_free {y : β} (hq : (h.free p).deref ident q = some y) :
    h.deref ident q = some y := by
  by_cases haddr : q.addr = p.addr
  · rw [deref, free, if_pos haddr] at hq
    exact nomatch hq
  · rw [deref_free_ne haddr] at hq
    exact hq

/-- What is found after a store is the stored object, at its address, or was there before. -/
theorem deref_of_store {y : β} (hq : (h.store p x).deref ident q = some y) :
    (q.addr = p.addr ∧ y = x ∧ ident x = q.object) ∨ h.deref ident q = some y := by
  by_cases haddr : q.addr = p.addr
  · obtain ⟨hstored, hident⟩ := deref_eq_some.mp hq
    rw [store, if_pos haddr] at hstored
    obtain rfl := Option.some.inj hstored
    exact .inl ⟨haddr, rfl, hident⟩
  · rw [deref_store_ne haddr] at hq
    exact .inr hq

/-- `held` has every live object once, and nothing else. -/
structure Owns (ident : β → Nat) (h : Heap β) (held : List Pointer) : Prop where
  live : ∀ p ∈ held, ∃ x, h.deref ident p = some x
  owned : ∀ a x, h a = some x → ⟨a, ident x⟩ ∈ held
  nodup : held.Nodup

namespace Owns

variable {held held' : List Pointer}

theorem perm (ho : Owns ident h held) (hp : held.Perm held') : Owns ident h held' where
  live := fun p hm => ho.live p (hp.mem_iff.mpr hm)
  owned := fun a x hx => hp.mem_iff.mp (ho.owned a x hx)
  nodup := hp.nodup_iff.mp ho.nodup

/-- Two objects that are both held have different addresses. -/
theorem addr_ne (ho : Owns ident h held) (hp : p ∈ held) (hq : q ∈ held) (hne : q ≠ p) :
    q.addr ≠ p.addr := by
  intro ha
  obtain ⟨x, hx⟩ := ho.live p hp
  obtain ⟨y, hy⟩ := ho.live q hq
  obtain ⟨hxa, hxi⟩ := deref_eq_some.mp hx
  obtain ⟨hya, hyi⟩ := deref_eq_some.mp hy
  rw [ha, hxa] at hya
  obtain rfl := Option.some.inj hya
  apply hne
  cases p
  cases q
  simp_all

/-- An object that is not held is not there. -/
theorem dead (ho : Owns ident h held) (hp : p ∉ held) : h.deref ident p = none := by
  cases hd : h.deref ident p with
  | none => rfl
  | some x =>
    obtain ⟨hx, hi⟩ := deref_eq_some.mp hd
    refine absurd (ho.owned _ _ hx) ?_
    rw [hi]
    exact hp

/-- A new object at an address nothing is at. -/
theorem alloc (ho : Owns ident h held) (hnone : h p.addr = none) (hx : ident x = p.object) :
    Owns ident (h.store p x) (p :: held) := by
  have hne : ∀ q ∈ held, q.addr ≠ p.addr := by
    intro q hq ha
    obtain ⟨y, hy⟩ := ho.live q hq
    have := (deref_eq_some.mp hy).1
    rw [ha, hnone] at this
    exact nomatch this
  refine ⟨fun q hq => ?_, fun a y hy => ?_, List.nodup_cons.mpr ⟨fun hp => hne p hp rfl, ho.nodup⟩⟩
  · rcases List.mem_cons.mp hq with rfl | hq
    · exact ⟨x, deref_store_self hx⟩
    · rw [deref_store_ne (hne q hq)]
      exact ho.live q hq
  · rw [store] at hy
    by_cases ha : a = p.addr
    · rw [if_pos ha] at hy
      obtain rfl := Option.some.inj hy
      rw [ha, hx]
      exact List.mem_cons_self
    · rw [if_neg ha] at hy
      exact List.mem_cons_of_mem _ (ho.owned a y hy)

/-- A held object is changed in place. -/
theorem store (ho : Owns ident h held) (hp : p ∈ held) (hx : ident x = p.object) :
    Owns ident (h.store p x) held := by
  refine ⟨fun q hq => ?_, fun a y hy => ?_, ho.nodup⟩
  · by_cases hqp : q = p
    · rw [hqp]
      exact ⟨x, deref_store_self hx⟩
    · rw [deref_store_ne (ho.addr_ne hp hq hqp)]
      exact ho.live q hq
  · rw [Heap.store] at hy
    by_cases ha : a = p.addr
    · rw [if_pos ha] at hy
      obtain rfl := Option.some.inj hy
      rw [ha, hx]
      exact hp
    · rw [if_neg ha] at hy
      exact ho.owned a y hy

/-- A held object is freed, and no longer held. -/
theorem free (ho : Owns ident h (p :: held)) : Owns ident (h.free p) held := by
  obtain ⟨hp, hnodup⟩ := List.nodup_cons.mp ho.nodup
  refine ⟨fun q hq => ?_, fun a y hy => ?_, hnodup⟩
  · have hne : q ≠ p := fun e => hp (e ▸ hq)
    rw [deref_free_ne (ho.addr_ne List.mem_cons_self (List.mem_cons_of_mem _ hq) hne)]
    exact ho.live q (List.mem_cons_of_mem _ hq)
  · rw [Heap.free] at hy
    by_cases ha : a = p.addr
    · rw [if_pos ha] at hy
      exact nomatch hy
    · rw [if_neg ha] at hy
      exact (List.mem_cons.mp (ho.owned a y hy)).resolve_left fun e => ha (congrArg Pointer.addr e)

end Owns

end Heap

end Cnet.Support
