import Cnet.Base.ThreadPoolQueue

/-!
# Stopping the thread pool

`stop` wakes the workers, but not the callers that wait for room in `run`, and these do not
look at `running_`. A worker inside `take` takes one more task, if there is one, signals one
caller, and leaves; the other workers leave. So the pool serves as many of the waiting callers
as it still takes tasks out, and no more: the others wait for ever.
-/

namespace Cnet.Base.ThreadPool

open Cnet.Support

variable {τ : Type} {w w' : World τ}

namespace World

def AllLeft (w : World τ) : Prop := ∀ t ∈ w.threads_, t = .left

/-- Nobody is left to wake a thread that waits in `run` or in `take`. -/
def Stranded (w : World τ) : Prop :=
  w.running_ = false ∧ w.AllLeft ∧
    ((notFull_ τ).SomeWaits w.producers ∨ Worker.notEmpty_.SomeWaits w.threads_)

/-- The callers that wait for room. -/
def waiting (w : World τ) : Nat := w.producers.countP (notFull_ τ).waiting

/-- The tasks that are still taken out after `stop`, by the workers inside `take`. -/
def stillTaken (w : World τ) : Nat :=
  min (w.threads_.countP Worker.notEmpty_.inside) w.queue_.length

/-- At `stop` no more callers wait than tasks are still taken out, and none adds itself to
these later, when it finds the queue full. -/
def InTime (w : World τ) : Step τ → Prop
  | .stop => w.waiting ≤ w.stillTaken
  | .run _ _ => w.running_ = false → w.isFull = true → w.waiting < w.stillTaken
  | _ => True

instance decidableInTime (w : World τ) : ∀ a, Decidable (w.InTime a)
  | .stop => inferInstanceAs (Decidable (w.waiting ≤ w.stillTaken))
  | .run _ _ =>
    inferInstanceAs (Decidable (w.running_ = false → w.isFull = true → w.waiting < w.stillTaken))
  | .call _ _ => isTrue True.intro
  | .test _ => isTrue True.intro
  | .take _ _ => isTrue True.intro
  | .returns _ => isTrue True.intro
  | .throws _ => isTrue True.intro
  | .wakeProducer _ => isTrue True.intro
  | .wakeWorker _ => isTrue True.intro

/-- After `stop`, a task is still taken out for every caller that waits. -/
def Covered (w : World τ) : Prop := w.running_ = false → w.waiting ≤ w.stillTaken

end World

theorem afterTake_outside (task : Task τ) : Worker.notEmpty_.inside (afterTake task) = false := by
  cases task with
  | none => rfl
  | some _ => rfl

/-- Where all workers have left, none waits. -/
theorem stranded_iff : w.Stranded ↔ w.running_ = false ∧ w.AllLeft ∧ 0 < w.waiting := by
  rw [World.waiting, List.countP_pos_iff]
  refine ⟨?_, fun ⟨hstopped, hleft, hwaits⟩ => ⟨hstopped, hleft, .inl hwaits⟩⟩
  rintro ⟨hstopped, hleft, hwaits | ⟨t, ht, hwaiting⟩⟩
  · exact ⟨hstopped, hleft, hwaits⟩
  · obtain rfl := hleft t ht
    exact absurd hwaiting Bool.false_ne_true

theorem stillTaken_of_allLeft (h : w.AllLeft) : w.stillTaken = 0 := by
  have hnone : w.threads_.countP Worker.notEmpty_.inside = 0 := by
    refine List.countP_eq_zero.mpr fun t ht hinside => ?_
    obtain rfl := h t ht
    exact absurd hinside (by decide)
  rw [World.stillTaken, hnone, Nat.zero_min]

/-- A worker comes out of `take`. -/
theorem countP_inside_leaves {k : Nat} {t : Worker} (hk : w.threads_[k]? = some .taking)
    (ht : Worker.notEmpty_.inside t = false) :
    w.threads_.countP Worker.notEmpty_.inside =
      (w.threads_.set k t).countP Worker.notEmpty_.inside + 1 := by
  have hcount := Condition.countP_set_add Worker.notEmpty_.inside hk t
  have htaking : Worker.notEmpty_.inside .taking = true := rfl
  rw [ht, htaking, if_neg Bool.false_ne_true, if_pos rfl] at hcount
  exact hcount.symm

theorem Inv.waiting_of_unlimited {n : Nat} (h : Inv n w) (hzero : w.maxQueueSize_ = 0) :
    w.waiting = 0 :=
  Nat.eq_zero_of_not_pos fun hpos => h.unlimited hzero (List.countP_pos_iff.mp hpos)

namespace World.Covered

theorem not_stranded (h : w.Covered) : ¬ w.Stranded := by
  rw [stranded_iff]
  rintro ⟨hstopped, hleft, hwaits⟩
  have hle := h hstopped
  rw [stillTaken_of_allLeft hleft] at hle
  omega

/-- A worker moves outside `take`, or into it. -/
theorem moveWorker {k : Nat} {t t' : Worker} (h : w.Covered) (hk : w.threads_[k]? = some t)
    (ht : Worker.notEmpty_.inside t = false) :
    World.Covered { w with threads_ := w.threads_.set k t' } := by
  intro hstopped
  have hle := h hstopped
  have hcount := Condition.countP_set_add Worker.notEmpty_.inside hk t'
  simp only [ht, Bool.false_eq_true, if_false, Nat.add_zero] at hcount
  simp only [World.waiting, World.stillTaken] at hle ⊢
  omega

/-- A caller moves and does not wait. -/
theorem moveProducer {p : Nat} {t' : Phase (Task τ)} (h : w.Covered)
    (hquiet : (notFull_ τ).waiting t' = false) :
    World.Covered { w with producers := w.producers.set p t' } := by
  intro hstopped
  refine Nat.le_trans ?_ (h hstopped)
  by_cases hp : p < w.producers.length
  · have hcount := Condition.countP_set_add (notFull_ τ).waiting
      (List.getElem?_eq_getElem hp) t'
    simp only [hquiet, Bool.false_eq_true, if_false, Nat.add_zero] at hcount
    simp only [World.waiting]
    omega
  · rw [World.waiting, List.set_eq_of_length_le (Nat.le_of_not_lt hp)]
    exact Nat.le_refl _

theorem run {p : Nat} {wake : Option Nat} (h : w.Covered)
    (hok : w.running_ = false → w.isFull = true → w.waiting < w.stillTaken)
    (hs : ThreadPool.run p wake w = some w') : w'.Covered := by
  intro hstopped
  cases runs_of_run hs with
  | @waits task hp hfull =>
    have hlt := hok hstopped hfull
    have hcount := Condition.countP_set_add (notFull_ τ).waiting hp (.waiting task)
    have hready : (notFull_ τ).waiting (.ready task) = false := rfl
    have hwaiting : (notFull_ τ).waiting (.waiting task) = true := rfl
    rw [hready, hwaiting, if_neg Bool.false_ne_true, if_pos rfl] at hcount
    simp only [World.waiting, World.stillTaken] at hlt ⊢
    omega
  | @puts task _ threads hp _ hnotify =>
    have hle := h hstopped
    have hcount := Condition.countP_set_add (notFull_ τ).waiting hp .outside
    have hready : (notFull_ τ).waiting (.ready task) = false := rfl
    have hquiet : (notFull_ τ).waiting (.outside : Phase (Task τ)) = false := rfl
    rw [hready, hquiet] at hcount
    have hinside := Condition.countP_inside_notify _ hnotify
    simp only [World.waiting, World.stillTaken, List.length_append] at hle ⊢
    omega

/-- The worker that takes a task out signals a caller. -/
theorem take {n k : Nat} {wake : Option Nat} (hinv : Inv n w) (h : w.Covered)
    (hs : ThreadPool.take k wake w = some w') : w'.Covered := by
  intro hstopped
  cases takes_of_take hs with
  | waits _ _ hrunning => exact absurd (hstopped.symm.trans hrunning) Bool.false_ne_true
  | gone hk hempty =>
    have hle := h hstopped
    simp only [World.waiting, World.stillTaken, hempty, List.length_nil, Nat.min_zero] at hle ⊢
    exact hle
  | @takes task queue producers hk hcons hproducers =>
    have hle := h hstopped
    have hcount := countP_inside_leaves hk (afterTake_outside task)
    have hwaiting : producers.countP (notFull_ τ).waiting = w.waiting - 1 := by
      rcases hproducers with ⟨-, wake', hnotify⟩ | ⟨hzero, rfl⟩
      · exact Condition.countP_waiting_notify _ hnotify
      · rw [hinv.waiting_of_unlimited hzero]
        exact hinv.waiting_of_unlimited hzero
    rw [World.stillTaken, hcons, List.length_cons, hcount] at hle
    show producers.countP (notFull_ τ).waiting ≤
      min ((w.threads_.set k (afterTake task)).countP Worker.notEmpty_.inside) queue.length
    rw [hwaiting]
    omega

theorem step {n : Nat} {a : Step τ} (hinv : Inv n w) (h : w.Covered) (hok : w.InTime a)
    (hs : ThreadPool.step w a = some w') : w'.Covered := by
  cases a with
  | call p task =>
    obtain ⟨producers, hcall, rfl⟩ := Option.map_eq_some_iff.mp hs
    obtain ⟨-, rfl⟩ := Phase.call_eq hcall
    split
    · exact h
    · exact h.moveProducer rfl
  | run p wake => exact h.run hok hs
  | test k =>
    obtain ⟨hk, rfl⟩ := eq_of_guarded hs
    exact h.moveWorker hk rfl
  | take k wake => exact h.take hinv hs
  | returns k =>
    obtain ⟨hk, rfl⟩ := eq_of_guarded hs
    exact h.moveWorker hk rfl
  | throws k =>
    obtain ⟨hk, rfl⟩ := eq_of_guarded hs
    exact h.moveWorker hk rfl
  | stop =>
    obtain rfl := Option.some.inj hs
    intro _
    rw [World.stillTaken, ThreadPool.stop, Condition.countP_inside_notifyAll]
    exact hok
  | wakeProducer p =>
    obtain ⟨producers, hnotify, rfl⟩ := Option.map_eq_some_iff.mp hs
    intro hstopped
    rw [World.waiting, Condition.countP_waiting_notify _ hnotify]
    exact Nat.le_trans (Nat.sub_le _ _) (h hstopped)
  | wakeWorker k =>
    obtain ⟨threads, hnotify, rfl⟩ := Option.map_eq_some_iff.mp hs
    intro hstopped
    rw [World.stillTaken, Condition.countP_inside_notify _ hnotify]
    exact h hstopped

end World.Covered

/-! ### Who is left behind -/

/-- How far a worker is from leaving, once `running_` is false. -/
def toLeave : Worker → Nat
  | .waiting => 3
  | .taking => 2
  | .calling | .testing => 1
  | .left => 0

def ahead : List Worker → Nat
  | [] => 0
  | t :: threads => toLeave t + ahead threads

/-- What a worker does by itself. Of the user's code nothing is asked but that it ends. -/
def Step.ofWorker : Step τ → Bool
  | .test _ | .take _ _ | .throws _ | .wakeWorker _ => true
  | _ => false

theorem ahead_set {k : Nat} {threads : List Worker} {t : Worker} (hk : threads[k]? = some t)
    (t' : Worker) : ahead (threads.set k t') + toLeave t = ahead threads + toLeave t' := by
  induction threads generalizing k with
  | nil => exact absurd hk (by simp)
  | cons x threads ih =>
    cases k with
    | zero =>
      obtain rfl : x = t := Option.some.inj hk
      simp only [List.set_cons_zero, ahead]
      omega
    | succ k =>
      have hrest := ih hk
      simp only [List.set_cons_succ, ahead]
      omega

/-- A worker that takes a task out, where callers wait: one of them is signalled. -/
theorem take_of_less {k : Nat} (hk : w.threads_[k]? = some .taking)
    (hstopped : w.running_ = false) (hless : w.stillTaken < w.waiting) :
    ∃ wake w', take k wake w = some w' ∧ w'.running_ = false ∧ w'.stillTaken < w'.waiting ∧
      ∃ task : Task τ, w'.threads_ = w.threads_.set k (afterTake task) := by
  cases hq : w.queue_ with
  | nil =>
    have hs : take k none w =
        some { w with threads_ := w.threads_.set k (afterTake (none : Task τ)) } := by
      rw [take, if_pos hk, hq, hstopped, if_neg Bool.false_ne_true]
    refine ⟨none, _, hs, hstopped, ?_, none, rfl⟩
    rw [World.stillTaken, hq, List.length_nil, Nat.min_zero] at hless ⊢
    exact hless
  | cons task queue =>
    have hcount := countP_inside_leaves hk (afterTake_outside task)
    rw [World.stillTaken, hq, List.length_cons, hcount, Nat.add_min_add_right] at hless
    by_cases hmax : w.maxQueueSize_ > 0
    · obtain ⟨t, ht, hwaiting⟩ := List.countP_pos_iff.mp (Nat.zero_lt_of_lt hless)
      obtain ⟨p, hp⟩ := List.getElem?_of_mem ht
      have hnotify : (notFull_ τ).notify (some p) w.producers =
          some (w.producers.set p ((notFull_ τ).wake t)) := by
        rw [Condition.notify, hp, Option.bind_some, if_pos hwaiting]
      have hone := Condition.countP_waiting_notify _ hnotify
      refine ⟨some p, { w with
        queue_ := queue
        threads_ := w.threads_.set k (afterTake task)
        producers := w.producers.set p ((notFull_ τ).wake t)
        taken := w.taken ++ [task] }, ?_, hstopped, ?_, task, rfl⟩
      · simp only [take, if_pos hk, hq, if_pos hmax, hnotify, Option.map_some]
      · rw [World.waiting, hone]
        exact Nat.lt_sub_of_add_lt hless
    · refine ⟨none, { w with
        queue_ := queue
        threads_ := w.threads_.set k (afterTake task)
        taken := w.taken ++ [task] }, ?_, hstopped, ?_, task, rfl⟩
      · simp only [take, if_pos hk, hq, if_neg hmax]
      · exact Nat.lt_of_succ_lt hless

theorem exists_ofWorker {k : Nat} {t : Worker} (hk : w.threads_[k]? = some t) (ht : t ≠ .left)
    (hstopped : w.running_ = false) (hless : w.stillTaken < w.waiting) :
    ∃ a w', a.ofWorker = true ∧ step w a = some w' ∧ w'.running_ = false ∧
      w'.stillTaken < w'.waiting ∧ ahead w'.threads_ < ahead w.threads_ := by
  have hmoves : ∀ t', toLeave t' < toLeave t →
      ahead (w.threads_.set k t') < ahead w.threads_ := by
    intro t' hlt
    have hset := ahead_set hk t'
    omega
  have hstays : ∀ t', Worker.notEmpty_.inside t' = Worker.notEmpty_.inside t →
      (w.threads_.set k t').countP Worker.notEmpty_.inside =
        w.threads_.countP Worker.notEmpty_.inside := by
    intro t' hinside
    have hcount := Condition.countP_set_add Worker.notEmpty_.inside hk t'
    rw [hinside] at hcount
    exact Nat.add_right_cancel hcount
  cases t with
  | left => exact absurd rfl ht
  | testing =>
    have hs : test k w = some { w with threads_ := w.threads_.set k .left } := by
      rw [test, if_pos hk, hstopped, if_neg Bool.false_ne_true]
    refine ⟨.test k, _, rfl, hs, hstopped, ?_, hmoves .left (by decide)⟩
    rw [World.stillTaken, hstays .left rfl]
    exact hless
  | calling =>
    have hs : callEnds k .left w = some { w with threads_ := w.threads_.set k .left } := if_pos hk
    refine ⟨.throws k, _, rfl, hs, hstopped, ?_, hmoves .left (by decide)⟩
    rw [World.stillTaken, hstays .left rfl]
    exact hless
  | waiting =>
    have hs : step w (.wakeWorker k) =
        some { w with threads_ := w.threads_.set k .taking } := by
      rw [step, Condition.notify, hk]
      rfl
    refine ⟨.wakeWorker k, _, rfl, hs, hstopped, ?_, hmoves .taking (by decide)⟩
    rw [World.stillTaken, hstays .taking rfl]
    exact hless
  | taking =>
    obtain ⟨wake, w', hs, hstopped', hless', task, hthreads⟩ := take_of_less hk hstopped hless
    refine ⟨.take k wake, w', rfl, hs, hstopped', hless', ?_⟩
    rw [hthreads]
    refine hmoves _ ?_
    cases task with
    | none => exact (by decide : toLeave .testing < toLeave .taking)
    | some _ => exact (by decide : toLeave .calling < toLeave .taking)

/-- Where more callers wait than tasks are still taken out, the workers leave one after the
other, and a caller stays behind. -/
theorem strands_of_less (hstopped : w.running_ = false) (hless : w.stillTaken < w.waiting) :
    ∃ bs, (∀ b ∈ bs, b.ofWorker = true) ∧ ∃ w', Support.run step w bs = some w' ∧ w'.Stranded := by
  induction hn : ahead w.threads_ using Nat.strongRecOn generalizing w with
  | ind n ih =>
    by_cases hleft : w.AllLeft
    · refine ⟨[], fun b hb => absurd hb List.not_mem_nil, w, rfl, ?_⟩
      exact stranded_iff.mpr ⟨hstopped, hleft, Nat.zero_lt_of_lt hless⟩
    · rw [World.AllLeft] at hleft
      push Not at hleft
      obtain ⟨t, ht, hne⟩ := hleft
      obtain ⟨k, hk⟩ := List.getElem?_of_mem ht
      obtain ⟨a, v, ha, hs, hstopped', hless', hlt⟩ := exists_ofWorker hk hne hstopped hless
      obtain ⟨bs, hbs, w', hr, hstranded⟩ := ih (ahead v.threads_) (hn ▸ hlt) hstopped' hless' rfl
      refine ⟨a :: bs, ?_, w', (run_cons_some step).mpr ⟨v, hs, hr⟩, hstranded⟩
      exact List.forall_mem_cons.mpr ⟨ha, hbs⟩

/-- Whatever the workers do by themselves from here on, nobody is stranded. -/
def World.LeavesNobody (w : World τ) : Prop :=
  ∀ bs, (∀ b ∈ bs, b.ofWorker = true) → ∀ w', Support.run step w bs = some w' → ¬ w'.Stranded

theorem inTime_of_ofWorker {a : Step τ} (h : a.ofWorker = true) (w : World τ) : w.InTime a := by
  cases a with
  | test | take | throws | wakeWorker => exact True.intro
  | call | run | returns | stop | wakeProducer => exact absurd h Bool.false_ne_true

theorem World.Covered.leavesNobody {n : Nat} (hinv : Inv n w) (h : w.Covered) :
    w.LeavesNobody := by
  intro bs hbs w' hr
  induction bs generalizing w with
  | nil =>
    obtain rfl := Option.some.inj hr
    exact h.not_stranded
  | cons b bs ih =>
    obtain ⟨v, hs, hr⟩ := (run_cons_some ThreadPool.step).mp hr
    obtain ⟨hb, hbs⟩ := List.forall_mem_cons.mp hbs
    exact ih (hinv.step hs) (h.step hinv (inTime_of_ofWorker hb w) hs) hbs hr

/-- A step that is not in time leaves more callers waiting than tasks are still taken out. -/
theorem less_of_not_inTime {a : Step τ} (hno : ¬ w.InTime a) (hs : step w a = some w') :
    w'.running_ = false ∧ w'.stillTaken < w'.waiting := by
  cases a with
  | stop =>
    obtain rfl := Option.some.inj hs
    refine ⟨rfl, ?_⟩
    rw [World.stillTaken, ThreadPool.stop, Condition.countP_inside_notifyAll]
    exact Nat.lt_of_not_le hno
  | run p wake =>
    obtain ⟨hstopped, hno⟩ := Classical.not_imp.mp hno
    obtain ⟨hfull, hno⟩ := Classical.not_imp.mp hno
    cases runs_of_run hs with
    | puts _ hroom => exact absurd hfull hroom
    | @waits task hp =>
      refine ⟨hstopped, ?_⟩
      have hcount := Condition.countP_set_add (notFull_ τ).waiting hp (.waiting task)
      have hready : (notFull_ τ).waiting (.ready task) = false := rfl
      have hwaiting : (notFull_ τ).waiting (.waiting task) = true := rfl
      rw [hready, hwaiting, if_neg Bool.false_ne_true, if_pos rfl] at hcount
      simp only [World.waiting, World.stillTaken] at hno ⊢
      omega
  | call | test | take | returns | throws | wakeProducer | wakeWorker =>
    exact absurd True.intro hno

theorem covered_start (maxSize : Nat) (init : Bool) (numThreads producers : Nat) :
    (start τ maxSize init numThreads producers).Covered :=
  fun hstopped => absurd hstopped.symm Bool.false_ne_true

/-- The condition is exact: where a step fails it, the workers by themselves can leave a caller
behind. -/
theorem leavesNobody_iff (maxSize : Nat) (init : Bool) (numThreads producers : Nat)
    (as : List (Step τ)) (hr : Support.run step (start τ maxSize init numThreads producers) as =
      some w) :
    EveryState step World.LeavesNobody (start τ maxSize init numThreads producers) as ↔
      StepsMeet step World.InTime (start τ maxSize init numThreads producers) as := by
  have hleaves : ∀ w : World τ, (Inv numThreads w ∧ w.Covered) → w.LeavesNobody :=
    fun _ h => h.2.leavesNobody h.1
  have hgood : ∀ (w : World τ) a w', (Inv numThreads w ∧ w.Covered) → (step w a).isSome = true →
      w.InTime a → step w a = some w' → Inv numThreads w' ∧ w'.Covered :=
    fun _ _ _ h _ hok hs => ⟨h.1.step hs, h.2.step h.1 hok hs⟩
  have hbad : ∀ (w : World τ) a, (Inv numThreads w ∧ w.Covered) → (step w a).isSome = true →
      ¬ w.InTime a → ∃ w', step w a = some w' ∧ ¬ w'.LeavesNobody := by
    intro w a _ henabled hno
    obtain ⟨w', hs⟩ := Option.isSome_iff_exists.mp henabled
    obtain ⟨hstopped, hless⟩ := less_of_not_inTime hno hs
    obtain ⟨bs, hbs, v, hr, hstranded⟩ := strands_of_less hstopped hless
    exact ⟨w', hs, fun hleaves => hleaves bs hbs v hr hstranded⟩
  exact everyState_iff step hleaves hgood hbad ⟨inv_start _ _ _ _, covered_start _ _ _ _⟩
    (stepsMeet_enabled step hr)

/-- Without a limit on the queue nobody waits for room, so every run is in time. -/
theorem inTime_of_unlimited {n : Nat} (h : Inv n w) (hzero : w.maxQueueSize_ = 0) (a : Step τ) :
    w.InTime a := by
  cases a with
  | stop => exact Nat.le_trans (Nat.le_of_eq (h.waiting_of_unlimited hzero)) (Nat.zero_le _)
  | run p wake => exact fun _ hfull => absurd (isFull_iff.mp hfull).1 (by omega)
  | call | test | take | returns | throws | wakeProducer | wakeWorker => exact True.intro

/-- In a run whose steps are all in time, nobody is ever stranded. -/
theorem stop_strands_nobody (τ : Type) (maxSize : Nat) (init : Bool) (numThreads producers : Nat)
    (as : List (Step τ)) (hmeet : StepsMeet step World.InTime
      (start τ maxSize init numThreads producers) as) :
    EveryState step (fun w => ¬ w.Stranded) (start τ maxSize init numThreads producers) as := by
  have hInv : ∀ w : World τ, (Inv numThreads w ∧ w.Covered) → ¬ w.Stranded :=
    fun _ h => h.2.not_stranded
  have hstep : ∀ (w : World τ) a w', (Inv numThreads w ∧ w.Covered) → w.InTime a →
      step w a = some w' → Inv numThreads w' ∧ w'.Covered :=
    fun _ _ _ h hok hs => ⟨h.1.step hs, h.2.step h.1 hok hs⟩
  exact everyState_invariant step hInv hstep ⟨inv_start _ _ _ _, covered_start _ _ _ _⟩ hmeet

/-- The queue is full and a caller waits, but the worker is in `take` when `stop()` is called:
it signals the caller, who then finds room, and leaves after its task. -/
def stoppedInTime : List (Step Nat) :=
  [.call 0 (some 1), .run 0 none, .call 0 (some 2), .run 0 none, .test 0, .stop, .take 0 (some 0),
    .run 0 none, .returns 0, .test 0]

theorem stop_strands_nobody_callerWaits :
    StepsMeet step World.InTime (start Nat 1 false 1 1) stoppedInTime ∧
      EveryState step (fun w => ¬ w.Stranded) (start Nat 1 false 1 1) stoppedInTime ∧
      Support.run step (start Nat 1 false 1 1) stoppedInTime =
        some ⟨1, false, [some 2], [.left], [.outside], [some 1, some 2], [some 1]⟩ :=
  ⟨by decide, stop_strands_nobody Nat 1 false 1 1 stoppedInTime (by decide), rfl⟩

/-- The worker is in a task, a second task fills the queue, and a caller waits with a third;
`stop()` is called, and the worker leaves. -/
def stoppedTooEarly : List (Step Nat) :=
  [.call 0 (some 1), .run 0 none, .test 0, .take 0 none, .call 0 (some 2), .run 0 none,
    .call 0 (some 3), .run 0 none, .stop, .returns 0, .test 0]

/-- The caller waits for ever. -/
theorem stop_strands_caller :
    ∃ w, Support.run step (start Nat 1 false 1 1) stoppedTooEarly = some w ∧ w.Stranded := by
  refine ⟨⟨1, false, [some 2], [.left], [.waiting (some 3)], [some 1, some 2], [some 1]⟩, rfl,
    rfl, ?_, .inl ⟨.waiting (some 3), List.mem_singleton.mpr rfl, rfl⟩⟩
  intro t ht
  exact List.mem_singleton.mp ht

end Cnet.Base.ThreadPool
