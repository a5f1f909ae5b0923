import Cnet.Base.ThreadPool

/-!
# The queue of the thread pool

While the pool runs, the ready workers are as many as the queued tasks as soon as one of
them waits, and the ready callers as many as the free places; so nobody waits for what is
there.
-/

namespace Cnet.Base.ThreadPool

open Cnet.Support

variable {τ : Type} {w w' : World τ}

/-- What holds between two steps, with `n` threads. -/
structure Inv (n : Nat) (w : World τ) : Prop where
  threads : w.threads_.length = n
  order : w.accepted = w.taken ++ w.queue_
  bounded : 0 < w.maxQueueSize_ → w.queue_.length ≤ w.maxQueueSize_
  notEmpty : w.running_ = true → Worker.notEmpty_.Served w.queue_.length w.threads_
  notFull : 0 < w.maxQueueSize_ →
    (notFull_ τ).Served (w.maxQueueSize_ - w.queue_.length) w.producers
  unlimited : w.maxQueueSize_ = 0 → ¬ (notFull_ τ).SomeWaits w.producers

theorem isFull_iff : w.isFull = true ↔ 0 < w.maxQueueSize_ ∧ w.maxQueueSize_ ≤ w.queue_.length := by
  rw [World.isFull, Bool.and_eq_true, decide_eq_true_iff, decide_eq_true_iff]

theorem inv_start (maxSize : Nat) (init : Bool) (n producers : Nat) :
    Inv n (start τ maxSize init n producers) where
  threads := List.length_replicate
  order := rfl
  bounded _ := Nat.zero_le _
  notEmpty _ := Condition.served_zero _ _
  notFull _ hwaits := absurd hwaits (Phase.not_someWaits_replicate producers)
  unlimited _ := Phase.not_someWaits_replicate producers

/-- A worker moves without waiting and leaves nothing behind that it was ready for. -/
theorem Inv.moveWorker {n k : Nat} {t t' : Worker} (h : Inv n w) (hk : w.threads_[k]? = some t)
    (hquiet : t' ≠ .waiting) (hready : t = .taking → t' = .taking) :
    Inv n { w with threads_ := w.threads_.set k t' } where
  threads := List.length_set.trans h.threads
  order := h.order
  bounded := h.bounded
  notEmpty hrunning :=
    Condition.Served.move (k := 0) (h.notEmpty hrunning) hk (beq_eq_false_iff_ne.mpr hquiet)
      fun ht => .inl (beq_iff_eq.mpr (hready (eq_of_beq ht)))
  notFull := h.notFull
  unlimited := h.unlimited

theorem Inv.call {n p : Nat} {task : Task τ} (h : Inv n w) (hs : call p task w = some w') :
    Inv n w' := by
  obtain ⟨producers, hcall, rfl⟩ := Option.map_eq_some_iff.mp hs
  split
  · exact h
  · refine ⟨h.threads, h.order, h.bounded, h.notEmpty, ?_, ?_⟩
    · exact fun hmax => Phase.served_call (h.notFull hmax) hcall
    · intro hmax hwaits
      obtain ⟨-, rfl⟩ := Phase.call_eq hcall
      exact h.unlimited hmax (Condition.someWaits_of_set _ rfl hwaits)

theorem Inv.run {n p : Nat} {wake : Option Nat} (h : Inv n w) (hs : run p wake w = some w') :
    Inv n w' := by
  cases runs_of_run hs with
  | waits _ hfull =>
    obtain ⟨hmax, hle⟩ := isFull_iff.mp hfull
    refine ⟨h.threads, h.order, h.bounded, h.notEmpty, fun _ => ?_, fun hzero => ?_⟩
    · show (notFull_ τ).Served (w.maxQueueSize_ - w.queue_.length) _
      rw [Nat.sub_eq_zero_of_le hle]
      exact Condition.served_zero _ _
    · have hzero' : w.maxQueueSize_ = 0 := hzero
      omega
  | @puts task _ threads hp hfull hnotify =>
    have hroom : 0 < w.maxQueueSize_ → w.queue_.length < w.maxQueueSize_ := by
      intro hmax
      by_contra hge
      exact hfull (isFull_iff.mpr ⟨hmax, Nat.le_of_not_lt hge⟩)
    have hlength : (w.queue_ ++ [task]).length = w.queue_.length + 1 := by
      rw [List.length_append, List.length_singleton]
    refine ⟨(Condition.length_notify _ hnotify).trans h.threads, ?_, ?_, ?_, ?_, ?_⟩
    · show w.accepted ++ [task] = w.taken ++ (w.queue_ ++ [task])
      rw [h.order, List.append_assoc]
    · intro hmax
      show (w.queue_ ++ [task]).length ≤ w.maxQueueSize_
      rw [hlength]
      exact hroom hmax
    · intro hrunning
      show Worker.notEmpty_.Served (w.queue_ ++ [task]).length threads
      rw [hlength]
      exact (h.notEmpty hrunning).notify hnotify
    · intro hmax
      have hlt := hroom hmax
      have hplaces : w.maxQueueSize_ - w.queue_.length =
          w.maxQueueSize_ - (w.queue_.length + 1) + 1 := by omega
      have hnotFull := h.notFull hmax
      rw [hplaces] at hnotFull
      show (notFull_ τ).Served (w.maxQueueSize_ - (w.queue_ ++ [task]).length) _
      rw [hlength]
      exact Phase.served_leave hnotFull hp
    · exact fun hzero hwaits => h.unlimited hzero (Condition.someWaits_of_set _ rfl hwaits)

theorem afterTake_quiet (task : Task τ) : Worker.notEmpty_.waiting (afterTake task) = false := by
  cases task <;> rfl

theorem Inv.take {n k : Nat} {wake : Option Nat} (h : Inv n w) (hs : take k wake w = some w') :
    Inv n w' := by
  cases takes_of_take hs with
  | waits _ hempty _ =>
    refine ⟨List.length_set.trans h.threads, h.order, h.bounded, fun _ => ?_, h.notFull,
      h.unlimited⟩
    show Worker.notEmpty_.Served w.queue_.length _
    rw [hempty]
    exact Condition.served_zero _ _
  | gone _ _ hstopped =>
    exact ⟨List.length_set.trans h.threads, h.order, h.bounded,
      fun hrunning => absurd hrunning hstopped, h.notFull, h.unlimited⟩
  | @takes task queue producers hk hcons hproducers =>
    have hlength : w.queue_.length = queue.length + 1 := by rw [hcons, List.length_cons]
    refine ⟨List.length_set.trans h.threads, ?_, ?_, ?_, ?_, ?_⟩
    · show w.accepted = w.taken ++ [task] ++ queue
      rw [h.order, hcons, List.append_assoc, List.singleton_append]
    · intro hmax
      show queue.length ≤ w.maxQueueSize_
      have hle := h.bounded hmax
      omega
    · intro hrunning
      have hserved := h.notEmpty hrunning
      rw [hlength] at hserved
      exact Condition.Served.move (k := 1) hserved hk (afterTake_quiet task)
        fun _ => .inr (Nat.le_refl _)
    · intro hmax
      have hmax' : 0 < w.maxQueueSize_ := hmax
      obtain ⟨-, wake, hnotify⟩ := hproducers.resolve_right fun hzero => by omega
      have hle := h.bounded hmax'
      have hplaces : w.maxQueueSize_ - queue.length =
          w.maxQueueSize_ - w.queue_.length + 1 := by omega
      show (notFull_ τ).Served (w.maxQueueSize_ - queue.length) producers
      rw [hplaces]
      exact (h.notFull hmax').notify hnotify
    · intro hzero
      have hzero' : w.maxQueueSize_ = 0 := hzero
      obtain ⟨-, rfl⟩ := hproducers.resolve_left fun hmax => by omega
      exact h.unlimited hzero'

theorem Inv.step {n : Nat} {a : Step τ} (h : Inv n w) (hs : ThreadPool.step w a = some w') :
    Inv n w' := by
  cases a with
  | call p task => exact h.call hs
  | run p wake => exact h.run hs
  | test k =>
    obtain ⟨hk, rfl⟩ := eq_of_guarded hs
    refine h.moveWorker hk ?_ fun ht => absurd ht (by decide)
    split <;> decide
  | take k wake => exact h.take hs
  | returns k =>
    obtain ⟨hk, rfl⟩ := eq_of_guarded hs
    exact h.moveWorker hk (by decide) fun ht => absurd ht (by decide)
  | throws k =>
    obtain ⟨hk, rfl⟩ := eq_of_guarded hs
    exact h.moveWorker hk (by decide) fun ht => absurd ht (by decide)
  | stop =>
    obtain rfl := Option.some.inj hs
    exact ⟨(List.length_map _).trans h.threads, h.order, h.bounded,
      fun hrunning => absurd hrunning Bool.false_ne_true, h.notFull, h.unlimited⟩
  | wakeProducer p =>
    obtain ⟨producers, hnotify, rfl⟩ := Option.map_eq_some_iff.mp hs
    refine ⟨h.threads, h.order, h.bounded, h.notEmpty, ?_, ?_⟩
    · exact fun hmax => ((h.notFull hmax).notify hnotify).mono (Nat.le_succ _)
    · intro hzero hwaits
      rcases Condition.notify_cases _ hnotify with ⟨rfl, -⟩ | ⟨i, t, hi, hwaiting, -⟩
      · exact h.unlimited hzero hwaits
      · exact h.unlimited hzero ⟨t, List.mem_of_getElem? hi, hwaiting⟩
  | wakeWorker k =>
    obtain ⟨threads, hnotify, rfl⟩ := Option.map_eq_some_iff.mp hs
    exact ⟨(Condition.length_notify _ hnotify).trans h.threads, h.order, h.bounded,
      fun hrunning => ((h.notEmpty hrunning).notify hnotify).mono (Nat.le_succ _), h.notFull,
      h.unlimited⟩

/-- Tasks are taken in the order they were accepted in, each once, and nobody waits for what
is there. -/
structure Correct (w : World τ) : Prop where
  inOrder : w.taken <+: w.accepted
  kept : w.accepted = w.taken ++ w.queue_
  bounded : 0 < w.maxQueueSize_ → w.queue_.length ≤ w.maxQueueSize_
  workers : w.running_ = true → ¬ (w.queue_ ≠ [] ∧ ∀ t ∈ w.threads_, t = .waiting)
  producers : w.running_ = true → ¬ (w.isFull = false ∧
    (∃ p ∈ w.producers, (notFull_ τ).inside p = true) ∧
    ∀ p ∈ w.producers, (notFull_ τ).inside p = true → (notFull_ τ).waiting p = true)

theorem Inv.correct {n : Nat} (h : Inv n w) (hn : 0 < n) : Correct w where
  inOrder := ⟨w.queue_, h.order.symm⟩
  kept := h.order
  bounded := h.bounded
  workers := by
    rintro hrunning ⟨hqueue, hall⟩
    obtain ⟨t, ht⟩ := List.exists_mem_of_length_pos (h.threads ▸ hn)
    have hwaiting : Worker.notEmpty_.waiting t = true := beq_iff_eq.mpr (hall t ht)
    refine (h.notEmpty hrunning).not_stuck ⟨List.length_pos_iff.mpr hqueue, ⟨t, ht, ?_⟩, ?_⟩
    · rw [Condition.inside, hwaiting, Bool.or_true]
    · exact fun t ht _ => beq_iff_eq.mpr (hall t ht)
  producers := by
    rintro - ⟨hroom, hsome, hall⟩
    by_cases hmax : 0 < w.maxQueueSize_
    · refine (h.notFull hmax).not_stuck ⟨?_, hsome, hall⟩
      have hlt : ¬ w.maxQueueSize_ ≤ w.queue_.length := by
        intro hle
        rw [isFull_iff.mpr ⟨hmax, hle⟩] at hroom
        exact Bool.false_ne_true hroom.symm
      omega
    · obtain ⟨p, hp, hinside⟩ := hsome
      exact h.unlimited (Nat.eq_zero_of_not_pos hmax) ⟨p, hp, hall p hp hinside⟩

/-- With at least one worker, in every state that any order of the steps leads to. -/
theorem queue_correct (τ : Type) (maxSize : Nat) (init : Bool) (numThreads producers : Nat)
    (hn : 0 < numThreads) (w : World τ)
    (hr : Reaches step (start τ maxSize init numThreads producers) w) : Correct w := by
  have hstep : ∀ w a w', Inv numThreads w → step w a = some w' → Inv numThreads (τ := τ) w' :=
    fun _ _ _ h hs => h.step hs
  exact (reaches_invariant step hstep (inv_start maxSize init numThreads producers) hr).correct hn

/-- A worker waits, a task is queued, a second one waits for room, and both are taken. -/
theorem queue_correct_one : Correct (τ := Nat)
    ⟨1, true, [], [.calling], [.outside, .outside], [some 7, some 8], [some 7, some 8]⟩ :=
  queue_correct Nat 1 false 1 2 (by decide) _
    ⟨[.test 0, .take 0 none, .call 0 (some 7), .call 1 (some 8), .run 0 (some 0), .run 1 none,
      .take 0 (some 1), .run 1 none, .returns 0, .test 0, .take 0 none], rfl⟩

end Cnet.Base.ThreadPool
