import Cnet.Support.Runs

/-!
# Condition variables

A thread that waits is woken by a signal, or by nothing at all, and then only competes for
the lock with those that come along: it is ready, and tests its condition again. One signal
for each thing that becomes available is enough for threads that each take one. What says
so is that the ready threads are as many as the things, as soon as there is one that waits.
-/

namespace Cnet.Support

universe u
variable {φ : Type u}

/-- A condition variable, by the phases of the threads that use it. -/
structure Condition (φ : Type u) where
  waiting : φ → Bool
  ready : φ → Bool
  wake : φ → φ
  ready_wake : ∀ t, waiting t = true → ready (wake t) = true
  waiting_wake : ∀ t, waiting t = true → waiting (wake t) = false
  not_ready : ∀ t, waiting t = true → ready t = false

namespace Condition

variable (c : Condition φ) {threads threads' : List φ} {n : Nat}

/-- A signal wakes one of the threads that wait, if there is one. -/
def notify (choice : Option Nat) (threads : List φ) : Option (List φ) :=
  match choice with
  | some i =>
    (threads[i]?).bind fun t =>
      if c.waiting t = true then some (threads.set i (c.wake t)) else none
  | none => if threads.any c.waiting = true then none else some threads

def notifyAll (threads : List φ) : List φ :=
  threads.map fun t => if c.waiting t then c.wake t else t

def SomeWaits (threads : List φ) : Prop := ∃ t ∈ threads, c.waiting t = true

/-- As soon as one waits, there is a ready thread for each of the `n` things. -/
def Served (n : Nat) (threads : List φ) : Prop := c.SomeWaits threads → n ≤ threads.countP c.ready

/-- Inside the function that waits. -/
def inside (t : φ) : Bool := c.ready t || c.waiting t

/-- There is something to take, there are threads that want it, and all of them wait. -/
def Stuck (n : Nat) (threads : List φ) : Prop :=
  0 < n ∧ (∃ t ∈ threads, c.inside t = true) ∧
    ∀ t ∈ threads, c.inside t = true → c.waiting t = true

theorem notify_cases {choice : Option Nat} (h : c.notify choice threads = some threads') :
    (threads' = threads ∧ ¬ c.SomeWaits threads) ∨
    ∃ i t, threads[i]? = some t ∧ c.waiting t = true ∧ threads' = threads.set i (c.wake t) := by
  cases choice with
  | none =>
    rw [notify, Option.ite_none_left_eq_some] at h
    obtain ⟨hnone, hthreads⟩ := h
    refine .inl ⟨(Option.some.inj hthreads).symm, ?_⟩
    rintro ⟨t, ht, hwaiting⟩
    exact hnone (List.any_eq_true.mpr ⟨t, ht, hwaiting⟩)
  | some i =>
    rw [notify, Option.bind_eq_some_iff] at h
    obtain ⟨t, hi, h⟩ := h
    obtain ⟨hwaiting, hthreads⟩ := eq_of_guarded h
    exact .inr ⟨i, t, hi, hwaiting, hthreads.symm⟩

theorem length_notify {choice : Option Nat} (h : c.notify choice threads = some threads') :
    threads'.length = threads.length := by
  rcases c.notify_cases h with ⟨rfl, -⟩ | ⟨i, t, -, -, rfl⟩
  · rfl
  · exact List.length_set

/-- What a thread counts for, before and after it moves. -/
theorem countP_set_add (p : φ → Bool) {i : Nat} {t : φ} (hi : threads[i]? = some t) (t' : φ) :
    (threads.set i t').countP p + (if p t then 1 else 0) =
      threads.countP p + (if p t' then 1 else 0) := by
  obtain ⟨hlt, hget⟩ := List.getElem?_eq_some_iff.mp hi
  have hmem : t ∈ threads := List.mem_of_getElem? hi
  rw [List.countP_set hlt, hget]
  by_cases ht : p t = true
  · have hpos : 0 < threads.countP p := List.countP_pos_iff.mpr ⟨t, hmem, ht⟩
    rw [if_pos ht]
    omega
  · rw [if_neg ht]
    omega

theorem someWaits_of_set {i : Nat} {t' : φ} (hquiet : c.waiting t' = false)
    (h : c.SomeWaits (threads.set i t')) : c.SomeWaits threads := by
  obtain ⟨x, hx, hwaiting⟩ := h
  rcases List.mem_or_eq_of_mem_set hx with hx | rfl
  · exact ⟨x, hx, hwaiting⟩
  · rw [hquiet] at hwaiting
    exact absurd hwaiting (by decide)

/-- A signal takes one of the waiting threads out of the wait. -/
theorem countP_waiting_notify {choice : Option Nat} (h : c.notify choice threads = some threads') :
    threads'.countP c.waiting = threads.countP c.waiting - 1 := by
  rcases c.notify_cases h with ⟨rfl, hnone⟩ | ⟨i, t, hi, hwaiting, rfl⟩
  · rw [Nat.eq_zero_of_not_pos fun hpos => hnone (List.countP_pos_iff.mp hpos)]
  · have hcount := countP_set_add c.waiting hi (c.wake t)
    rw [if_pos hwaiting, c.waiting_wake t hwaiting, if_neg Bool.false_ne_true] at hcount
    exact Nat.eq_sub_of_add_eq hcount

theorem inside_of_waiting {t : φ} (h : c.waiting t = true) : c.inside t = true := by
  rw [inside, h, Bool.or_true]

theorem inside_wake {t : φ} (h : c.waiting t = true) : c.inside (c.wake t) = true := by
  rw [inside, c.ready_wake t h, Bool.true_or]

/-- A thread that is woken is still inside. -/
theorem countP_inside_notify {choice : Option Nat} (h : c.notify choice threads = some threads') :
    threads'.countP c.inside = threads.countP c.inside := by
  rcases c.notify_cases h with ⟨rfl, -⟩ | ⟨i, t, hi, hwaiting, rfl⟩
  · rfl
  · have hcount := countP_set_add c.inside hi (c.wake t)
    rw [c.inside_of_waiting hwaiting, c.inside_wake hwaiting] at hcount
    exact Nat.add_right_cancel hcount

theorem countP_inside_notifyAll (threads : List φ) :
    (c.notifyAll threads).countP c.inside = threads.countP c.inside := by
  rw [notifyAll, List.countP_map]
  refine List.countP_congr fun t _ => ?_
  rw [Function.comp_apply]
  by_cases hwaiting : c.waiting t = true
  · rw [if_pos hwaiting, c.inside_wake hwaiting, c.inside_of_waiting hwaiting]
  · rw [if_neg hwaiting]

theorem served_zero (threads : List φ) : c.Served 0 threads := fun _ => Nat.zero_le _

variable {c}

theorem Served.mono (h : c.Served n threads) {m : Nat} (hm : m ≤ n) : c.Served m threads :=
  fun hwaits => Nat.le_trans hm (h hwaits)

/-- A thread moves, and does not wait. If it was ready and is so no more, it takes one of the
things. -/
theorem Served.move {i k : Nat} {t t' : φ} (h : c.Served (n + k) threads)
    (hi : threads[i]? = some t) (hquiet : c.waiting t' = false)
    (hready : c.ready t = true → c.ready t' = true ∨ 1 ≤ k) : c.Served n (threads.set i t') := by
  intro hwaits
  have hcount := countP_set_add c.ready hi t'
  have hle := h (c.someWaits_of_set hquiet hwaits)
  by_cases ht : c.ready t = true
  · rw [if_pos ht] at hcount
    rcases hready ht with ht' | hk
    · rw [if_pos ht'] at hcount
      omega
    · omega
  · rw [if_neg ht] at hcount
    omega

/-- A thread is woken: there is one more that is ready. -/
theorem Served.wake {i : Nat} {t : φ} (h : c.Served n threads) (hi : threads[i]? = some t)
    (hwaiting : c.waiting t = true) : c.Served (n + 1) (threads.set i (c.wake t)) := by
  intro _
  have hcount := countP_set_add c.ready hi (c.wake t)
  have hle := h ⟨t, List.mem_of_getElem? hi, hwaiting⟩
  rw [if_pos (c.ready_wake t hwaiting), c.not_ready t hwaiting, if_neg (by decide)] at hcount
  omega

/-- One more thing, and one signal. -/
theorem Served.notify {choice : Option Nat} (h : c.Served n threads)
    (hs : c.notify choice threads = some threads') : c.Served (n + 1) threads' := by
  rcases c.notify_cases hs with ⟨rfl, hnone⟩ | ⟨i, t, hi, hwaiting, rfl⟩
  · exact fun hwaits => absurd hwaits hnone
  · exact h.wake hi hwaiting

theorem Served.exists_ready (h : c.Served n threads) (hn : 0 < n) (hwaits : c.SomeWaits threads) :
    ∃ t ∈ threads, c.ready t = true :=
  List.countP_pos_iff.mp (Nat.lt_of_lt_of_le hn (h hwaits))

theorem Served.not_stuck (h : c.Served n threads) : ¬ c.Stuck n threads := by
  rintro ⟨hn, ⟨t, ht, hinside⟩, hall⟩
  obtain ⟨x, hx, hready⟩ := h.exists_ready hn ⟨t, ht, hall t ht hinside⟩
  have hwaiting := hall x hx (by rw [inside, hready, Bool.true_or])
  rw [c.not_ready x hwaiting] at hready
  exact absurd hready (by decide)

end Condition

/-- Where a thread is that calls a function which waits, with the argument of the call. -/
inductive Phase (α : Type u)
  | outside
  /-- About to take the lock. -/
  | ready (a : α)
  /-- In the `wait` of a condition variable. -/
  | waiting (a : α)
deriving DecidableEq

namespace Phase

variable {α : Type u}

def isReady : Phase α → Bool
  | ready _ => true
  | _ => false

def isWaiting : Phase α → Bool
  | waiting _ => true
  | _ => false

def wake : Phase α → Phase α
  | waiting a => ready a
  | t => t

theorem eq_waiting {t : Phase α} (h : t.isWaiting = true) : ∃ a, t = waiting a := by
  cases t with
  | outside => exact absurd h Bool.false_ne_true
  | ready a => exact absurd h Bool.false_ne_true
  | waiting a => exact ⟨a, rfl⟩

/-- Thread `i` calls the function. -/
def call (i : Nat) (a : α) (threads : List (Phase α)) : Option (List (Phase α)) :=
  match threads[i]? with
  | some outside => some (threads.set i (ready a))
  | _ => none

theorem call_eq {i : Nat} {a : α} {threads threads' : List (Phase α)}
    (h : call i a threads = some threads') :
    threads[i]? = some outside ∧ threads' = threads.set i (ready a) := by
  rw [call] at h
  split at h
  · case h_1 hi => exact ⟨hi, (Option.some.inj h).symm⟩
  · exact absurd h.symm (Option.some_ne_none _)

/-- The condition variable that such a function waits on. -/
def condition (α : Type u) : Condition (Phase α) where
  waiting := isWaiting
  ready := isReady
  wake := wake
  ready_wake := by
    intro t h
    obtain ⟨a, rfl⟩ := eq_waiting h
    rfl
  waiting_wake := by
    intro t h
    obtain ⟨a, rfl⟩ := eq_waiting h
    rfl
  not_ready := by
    intro t h
    obtain ⟨a, rfl⟩ := eq_waiting h
    rfl

/-- At first nobody is inside. -/
theorem not_someWaits_replicate (n : Nat) :
    ¬ (condition α).SomeWaits (.replicate n outside) := by
  rintro ⟨t, ht, hwaiting⟩
  obtain rfl := List.eq_of_mem_replicate ht
  exact absurd hwaiting Bool.false_ne_true

theorem served_call {i n : Nat} {a : α} {threads threads' : List (Phase α)}
    (h : (condition α).Served n threads) (hc : call i a threads = some threads') :
    (condition α).Served n threads' := by
  obtain ⟨hi, rfl⟩ := call_eq hc
  exact Condition.Served.move (k := 0) h hi rfl fun _ => .inl rfl

/-- A ready thread that takes one of the things leaves. -/
theorem served_leave {i n : Nat} {a : α} {threads : List (Phase α)}
    (h : (condition α).Served (n + 1) threads) (hi : threads[i]? = some (ready a)) :
    (condition α).Served n (threads.set i outside) :=
  Condition.Served.move (k := 1) h hi rfl fun _ => .inr (Nat.le_refl _)

end Phase

end Cnet.Support
