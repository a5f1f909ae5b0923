import Cnet.Support.Runs
import Cnet.Net.FunctorQueue

/-!
# No lost wakeup

`queueInLoop` skips `wakeup()` in the loop thread unless `callingPendingFunctors_` is
set. That is right in a handler, since `doPendingFunctors` follows, and in a functor,
where the flag is set. It is wrong before `loop()`: the flag is not set there, and the
first `poll` follows. In `Prompt` runs the loop thread does not queue alone there.
-/

namespace Cnet.Net.Loops

open Cnet.Support

variable {φ : Type}

/-- `callingPendingFunctors_` is set in `doPendingFunctors`. -/
def Position.inDoPendingFunctors : Position φ → Bool
  | .swap | .functors _ | .inFunctor _ => true
  | _ => false

/-- What is queued here waits for a later call of `doPendingFunctors`, behind a `poll`. -/
def Position.beforePoll : Position φ → Bool
  | .poll | .functors _ | .inFunctor _ => true
  | _ => false

/-- The `while` has still to be tested. -/
def Position.beforeTest : Position φ → Bool
  | .outside | .test => true
  | _ => false

namespace World

/-- In `poll`, a functor in the queue has its wakeup written or on the way. -/
def NoLostWakeup (w : World φ) : Prop :=
  w.isPolling = true → w.pendingFunctors_ ≠ [] →
    0 < w.wakeupFd_ ∨ ∃ t ∈ w.waking, t.isInLoopThread = false

/-- The condition on a step: when the loop thread queues outside `loop()`, the flag is set,
the loop has been quit, or a wakeup is there for another reason. -/
def Prompt (w : World φ) : Step φ → Prop
  | .queueInLoop .loop _ =>
      w.isOutside = true → w.quit_ ≠ .QUITED →
        w.callingPendingFunctors_ = true ∨ 0 < w.wakeupFd_ ∨ w.waking ≠ []
  | _ => True

instance (w : World φ) (s : Step φ) : Decidable (w.Prompt s) := by
  unfold Prompt
  split <;> infer_instance

/-- Nothing is queued, or a wakeup is written or on the way. -/
def Covered (w : World φ) : Prop :=
  w.pendingFunctors_ = [] ∨ 0 < w.wakeupFd_ ∨ w.waking ≠ []

structure WakeInv (w : World φ) : Prop where
  /-- The loop thread is on the way to `wakeup()` in user code only. -/
  loop : .loop ∈ w.waking → w.inUserCode = true
  flag : w.position.inDoPendingFunctors = true → w.callingPendingFunctors_ = true
  poll : w.position.beforePoll = true → w.Covered
  test : w.position.beforeTest = true → w.quit_ ≠ .QUITED → w.Covered

theorem WakeInv.noLostWakeup {w : World φ} (h : w.WakeInv) : w.NoLostWakeup := by
  intro hp hpending
  have hpos := isPolling_iff.mp hp
  rcases h.poll (by rw [hpos]; rfl) with hnone | hcounter | hwaking
  · exact absurd hnone hpending
  · exact .inl hcounter
  · obtain ⟨t, ht⟩ := List.exists_mem_of_ne_nil _ hwaking
    refine .inr ⟨t, ht, ?_⟩
    cases t with
    | loop =>
      have huser := h.loop ht
      rw [inUserCode, hpos] at huser
      exact absurd huser Bool.false_ne_true
    | other n => rfl

theorem wakeInv_new (calling : Bool) : (new calling : World φ).WakeInv where
  loop := fun h => absurd h List.not_mem_nil
  flag := fun h => absurd h Bool.false_ne_true
  poll := fun h => absurd h Bool.false_ne_true
  test := fun _ _ => .inl rfl

variable {w w' : World φ}

theorem wakeup_pos (w : World φ) : 0 < w.wakeup.wakeupFd_ := by
  show 0 < if w.wakeupFd_ < eventfdMax then w.wakeupFd_ + 1 else w.wakeupFd_
  split
  · exact Nat.succ_pos _
  next hfull =>
    rw [eventfdMax] at hfull
    omega

/-- A written wakeup covers whatever is queued. -/
theorem WakeInv.wakeup (h : w.WakeInv) {waking quitting : List Thread}
    (hsub : waking ⊆ w.waking) :
    WakeInv { w.wakeup with waking := waking, quitting := quitting } where
  loop := fun ht => h.loop (hsub ht)
  flag := h.flag
  poll := fun _ => .inr (.inl (wakeup_pos w))
  test := fun _ _ => .inr (.inl (wakeup_pos w))

/-- A push: the pusher is on the way to `wakeup()`, or skips it where that is right. -/
theorem WakeInv.queueInLoop (h : w.WakeInv) {t : Thread} {cb : φ} (hcall : w.mayCall t = true)
    (hs : w.Prompt (.queueInLoop t cb)) : (w.queueInLoop t cb).WakeInv := by
  simp only [mayCall, Bool.and_eq_true, Bool.or_eq_true] at hcall
  rw [World.queueInLoop]
  by_cases hwakes : (!t.isInLoopThread || w.callingPendingFunctors_) = true
  · rw [if_pos (by exact hwakes)]
    refine ⟨fun ht => ?_, h.flag, fun _ => .inr (.inr (List.cons_ne_nil _ _)),
      fun _ _ => .inr (.inr (List.cons_ne_nil _ _))⟩
    rcases List.mem_cons.mp ht with rfl | ht
    · exact hcall.2.resolve_left Bool.false_ne_true
    · exact h.loop ht
  · rw [if_neg (by exact hwakes)]
    simp only [Bool.or_eq_true, not_or, Bool.not_eq_true] at hwakes
    obtain ⟨hloop, hflag⟩ := hwakes
    cases t with
    | other n => exact absurd hloop (by simp [Thread.isInLoopThread])
    | loop =>
      have huser := hcall.2.resolve_left Bool.false_ne_true
      refine ⟨h.loop, h.flag, fun hp => ?_, fun hp hquit => ?_⟩
      · -- the only user code before a poll is a functor, where the flag is set
        have hdo : w.position.inDoPendingFunctors = true := by
          change w.position.beforePoll = true at hp
          cases hpos : w.position <;>
            simp [hpos, inUserCode, Position.beforePoll, Position.inDoPendingFunctors] at hp huser ⊢
        exact absurd (hflag.symm.trans (h.flag hdo)) Bool.false_ne_true
      · have hout : w.isOutside = true := by
          change w.position.beforeTest = true at hp
          cases hpos : w.position <;>
            simp [hpos, inUserCode, isOutside, Position.beforeTest] at hp huser ⊢
        rcases hs hout hquit with hcalling | hcounter | hwaking
        · exact absurd (hflag.symm.trans hcalling) Bool.false_ne_true
        · exact .inr (.inl hcounter)
        · exact .inr (.inr hwaking)

/-- A position that asks for nothing, reached by the loop thread on its own. -/
theorem WakeInv.atRest (hloop : .loop ∉ w.waking)
    (hflag : w.position.inDoPendingFunctors = true → w.callingPendingFunctors_ = true)
    (hpoll : w.position.beforePoll = false) (htest : w.position.beforeTest = false) :
    w.WakeInv where
  loop := fun ht => absurd ht hloop
  flag := hflag
  poll := fun hp => absurd (hpoll.symm.trans hp) Bool.false_ne_true
  test := fun ht => absurd (htest.symm.trans ht) Bool.false_ne_true

theorem WakeInv.next (h : w.WakeInv) (hloop : .loop ∉ w.waking) (hn : w.next = some w') :
    w'.WakeInv := by
  have hcovered : w.position.beforePoll = true → w.Covered := h.poll
  rw [World.next] at hn
  cases hp : w.position with
  | outside | poll =>
    rw [hp] at hn
    exact absurd hn.symm (Option.some_ne_none w')
  | test =>
    rw [hp] at hn
    have htest := h.test (by rw [hp]; rfl)
    by_cases hrun : w.quit_ = .RUNNING
    · rw [if_pos hrun] at hn
      obtain rfl := Option.some.inj hn
      refine ⟨fun ht => absurd ht hloop, fun hd => absurd hd Bool.false_ne_true, fun _ => ?_,
        fun ht => absurd ht Bool.false_ne_true⟩
      exact htest (by rw [hrun]; decide)
    · rw [if_neg hrun] at hn
      obtain rfl := Option.some.inj hn
      exact ⟨fun ht => absurd ht hloop, fun hd => absurd hd Bool.false_ne_true,
        fun hd => absurd hd Bool.false_ne_true, fun _ => htest⟩
  | handlers active =>
    rw [hp] at hn
    cases active with
    | nil =>
      obtain rfl := Option.some.inj hn
      exact atRest hloop (fun _ => rfl) rfl rfl
    | cons c active =>
      cases c with
      | wakeupChannel | other =>
        obtain rfl := Option.some.inj hn
        exact atRest hloop (fun hd => absurd hd Bool.false_ne_true) rfl rfl
  | inHandler active =>
    rw [hp] at hn
    obtain rfl := Option.some.inj hn
    exact atRest hloop (fun hd => absurd hd Bool.false_ne_true) rfl rfl
  | swap =>
    -- the batch has everything: nothing is queued
    rw [hp] at hn
    obtain rfl := Option.some.inj hn
    exact ⟨fun ht => absurd ht hloop, fun _ => h.flag (by rw [hp]; rfl), fun _ => .inl rfl,
      fun ht => absurd ht Bool.false_ne_true⟩
  | functors batch =>
    rw [hp] at hn hcovered
    cases batch with
    | nil =>
      obtain rfl := Option.some.inj hn
      exact ⟨fun ht => absurd ht hloop, fun hd => absurd hd Bool.false_ne_true,
        fun hd => absurd hd Bool.false_ne_true, fun _ _ => hcovered rfl⟩
    | cons cb batch =>
      obtain rfl := Option.some.inj hn
      exact ⟨fun ht => absurd ht hloop, fun _ => h.flag (by rw [hp]; rfl), fun _ => hcovered rfl,
        fun ht => absurd ht Bool.false_ne_true⟩
  | inFunctor batch =>
    rw [hp] at hn hcovered
    obtain rfl := Option.some.inj hn
    exact ⟨fun ht => absurd ht hloop, fun _ => h.flag (by rw [hp]; rfl), fun _ => hcovered rfl,
      fun ht => absurd ht Bool.false_ne_true⟩

/-- Every prompt step keeps the invariant. -/
theorem wakeInv_step (w : World φ) (s : Step φ) (w' : World φ) (h : w.WakeInv) (hs : w.Prompt s)
    (hstep : step w s = some w') : w'.WakeInv := by
  cases s with
  | queueInLoop t cb =>
    obtain ⟨hcall, rfl⟩ := eq_of_guarded hstep
    exact h.queueInLoop hcall hs
  | runInLoop t cb =>
    obtain ⟨hcall, rfl⟩ := eq_of_guarded hstep
    cases t with
    | loop => exact h
    | other n => exact h.queueInLoop hcall trivial
  | quit t =>
    obtain ⟨-, rfl⟩ := eq_of_guarded hstep
    rw [quit]
    split
    · exact ⟨h.loop, h.flag, h.poll, fun _ hq => absurd rfl hq⟩
    · exact ⟨h.loop, h.flag, h.poll, fun _ hq => absurd rfl hq⟩
  | wakeup t =>
    obtain ⟨-, rfl⟩ := eq_of_guarded hstep
    exact h.wakeup List.erase_subset
  | quitWakeup t =>
    obtain ⟨-, rfl⟩ := eq_of_guarded hstep
    exact h.wakeup (List.Subset.refl _)
  | loop =>
    obtain ⟨hc, rfl⟩ := eq_of_guarded hstep
    simp only [Bool.and_eq_true, mayCall, decide_eq_true_eq] at hc
    have hpos := isOutside_iff.mp hc.1
    refine ⟨fun ht => absurd ht hc.2.1.1, fun hd => absurd hd Bool.false_ne_true,
      fun hd => absurd hd Bool.false_ne_true, fun _ hq => ?_⟩
    refine h.test (by rw [hpos]; rfl) fun hquit => hq ?_
    show (if w.quit_ = .CREATED then _ else w.quit_) = _
    rw [hquit]
    rfl
  | pollReturn active =>
    obtain ⟨hc, rfl⟩ := eq_of_guarded hstep
    simp only [Bool.and_eq_true] at hc
    have hpos := isPolling_iff.mp hc.1.1
    refine WakeInv.atRest (fun ht => ?_) (fun hd => absurd hd Bool.false_ne_true) rfl rfl
    have huser := h.loop ht
    rw [inUserCode, hpos] at huser
    exact absurd huser Bool.false_ne_true
  | next =>
    rw [step, Option.ite_none_right_eq_some] at hstep
    exact h.next hstep.1 hstep.2

/-- In every prompt run `poll` is never entered with a functor nobody wakes it for. -/
theorem no_lost_wakeup_of_prompt (calling : Bool) (steps : List (Step φ))
    (hok : StepsMeet step Prompt (new calling) steps) :
    ∀ w ∈ run step (new calling) steps, w.NoLostWakeup :=
  fun _ hw => (run_invariant step wakeInv_step (wakeInv_new calling) hok hw).noLostWakeup

/-- Functors queued in a handler, in a functor and by another thread. -/
def queuedEverywhere : List (Step Nat) :=
  [.queueInLoop (.other 0) 1, .queueInLoop .loop 2, .loop, .next, .wakeup (.other 0),
    .pollReturn [.wakeupChannel, .other], .next, .next, .queueInLoop .loop 3, .next, .next, .next,
    .next, .queueInLoop .loop 4, .wakeup .loop, .next, .next, .next, .next, .next, .next, .next]

theorem no_lost_wakeup_of_prompt_everywhere :
    StepsMeet step Prompt (new false) queuedEverywhere ∧
      ∃ w ∈ run step (new false) queuedEverywhere,
        w.isPolling = true ∧ w.pendingFunctors_ = [4] ∧ w.NoLostWakeup := by
  have hok : StepsMeet step Prompt (new false) queuedEverywhere := by decide
  have hrun : ∃ w ∈ run step (new false) queuedEverywhere,
      w.isPolling = true ∧ w.pendingFunctors_ = [4] := by decide
  obtain ⟨w, hw, hpoll, hpending⟩ := hrun
  exact ⟨hok, w, hw, hpoll, hpending, no_lost_wakeup_of_prompt false queuedEverywhere hok w hw⟩

/-- A step that is not prompt loses a wakeup, once `loop()` is called. -/
theorem lost_of_not_prompt {cb : φ} (hcall : w.mayCall .loop = true)
    (h : ¬ w.Prompt (.queueInLoop .loop cb)) :
    ∃ w' ∈ run step w [.queueInLoop .loop cb, .loop, .next], ¬ w'.NoLostWakeup := by
  simp only [Prompt, Classical.not_imp, not_or, Bool.not_eq_true, Nat.not_lt, Nat.le_zero,
    not_not] at h
  obtain ⟨hout, hquit, hflag, hcounter, hwaking⟩ := h
  have hpos := isOutside_iff.mp hout
  let w₁ := record (.entered cb) { w with pendingFunctors_ := w.pendingFunctors_ ++ [cb] }
  have hqueue : step w (.queueInLoop .loop cb) = some w₁ := by
    rw [step, if_pos hcall, queueInLoop, if_neg (by simp [record, hflag, Thread.isInLoopThread])]
  have hloop : step w₁ .loop = some w₁.loop := by
    rw [step, if_pos]
    rw [Bool.and_eq_true]
    exact ⟨hout, hcall⟩
  have hrunning : w₁.loop.quit_ = .RUNNING := by
    show (if w.quit_ = .CREATED then LoopState.RUNNING else w.quit_) = _
    cases hq : w.quit_ with
    | CREATED | RUNNING => rfl
    | QUITED => exact absurd hq hquit
  have hnext : step w₁.loop .next = some { w₁.loop with position := .poll } := by
    have hnot : Thread.loop ∉ w₁.loop.waking := by
      show Thread.loop ∉ w.waking
      rw [hwaking]
      exact List.not_mem_nil
    rw [step, if_pos hnot]
    exact if_pos hrunning
  refine ⟨{ w₁.loop with position := .poll }, ?_, fun hno => ?_⟩
  · rw [run_cons, hqueue, Option.bind_some, run_cons, hloop, Option.bind_some, run_cons, hnext]
    rfl
  · rcases hno rfl (List.append_ne_nil_of_right_ne_nil _ (List.cons_ne_nil _ _)) with
      hc | ⟨t, ht, -⟩
    · exact absurd (hcounter ▸ hc) (Nat.lt_irrefl 0)
    · exact absurd (hwaking ▸ ht) List.not_mem_nil

/-- The loop thread queues a functor and calls `loop()`. -/
theorem no_lost_wakeup_fails_beforeLoop :
    ¬ ∀ calling, ∀ steps : List (Step Nat), ∀ w ∈ run step (new calling) steps,
      w.NoLostWakeup := by
  intro h
  have hrun : ∃ w ∈ run step (new false) [.queueInLoop .loop 1, .loop, .next],
      w.isPolling = true ∧ w.pendingFunctors_ = [1] ∧ w.wakeupFd_ = 0 ∧ w.waking = [] := by decide
  obtain ⟨w, hw, hpoll, hpending, hcounter, hwaking⟩ := hrun
  rcases h _ _ w hw hpoll (by rw [hpending]; exact List.cons_ne_nil _ _) with hpos | ⟨t, ht, -⟩
  · exact absurd (hcounter ▸ hpos) (Nat.lt_irrefl 0)
  · exact absurd (hwaking ▸ ht) List.not_mem_nil

end World

end Cnet.Net.Loops
