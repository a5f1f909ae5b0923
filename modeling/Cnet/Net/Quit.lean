import Cnet.Support.Runs
import Cnet.Support.Memory
import Cnet.Net.EventLoop

/-!
# Quitting a loop that is starting

`loop()` tests `quit_` and overwrites it in a second step. `World` is an event loop whose
`loop()` takes those two steps, and every other access to `quit_`, one by one; other
threads go on meanwhile. A `quit()` that writes between the two steps is overwritten, and
the loop goes on as if nobody had called it; no other placement of `quit()` is lost.
-/

namespace Cnet.Net.Quits

open Cnet.Support
open Cnet.Net.Loops (LoopState)

/-- In `loop()`, before the `while`. -/
inductive Starting
  /-- At `if (quit_ == CREATED)`. -/
  | test
  /-- At `quit_ = RUNNING`. -/
  | assign
deriving DecidableEq, Repr

structure World (φ : Type) where
  eventLoop : Loops.World φ
  starting : Option Starting
  /-- Some `quit()` has returned. -/
  hasQuit : Bool
deriving DecidableEq, Repr

inductive Step (φ : Type)
  /-- The loop thread calls `loop()`. -/
  | loop
  /-- It reads `quit_` before the `while`. -/
  | readQuit
  /-- It writes `RUNNING`. -/
  | writeRunning
  /-- `quit()`: the write, and the return as well in the loop thread. -/
  | quit (t : Thread)
  /-- Another thread's `quit()` has called `wakeup()`, and returns. -/
  | quitWakeup (t : Thread)
  /-- Any other step of the event loop. -/
  | other (s : Loops.Step φ)
deriving DecidableEq, Repr

/-- The loop thread calls a member function. -/
def isLoopCall {φ : Type} : Loops.Step φ → Bool
  | .queueInLoop t _ | .runInLoop t _ | .quit t => t.isInLoopThread
  | .loop => true
  | _ => false

/-- A step that is one of its own in `Step`. -/
def isQuit {φ : Type} : Loops.Step φ → Bool
  | .quit _ | .quitWakeup _ | .loop => true
  | _ => false

namespace World

variable {φ : Type}

def new (calling : Bool) : World φ where
  eventLoop := Loops.World.new calling
  starting := none
  hasQuit := false

/-- The loop thread comes to the `while`. -/
def toWhile (quit : LoopState) (w : World φ) : World φ :=
  { w with eventLoop := { w.eventLoop with quit_ := quit, position := .test }, starting := none }

/-- While `loop()` is starting, the loop thread calls nothing else. -/
def step (w : World φ) : Step φ → Option (World φ)
  | .loop =>
      if w.starting = none ∧ w.eventLoop.isOutside ∧ w.eventLoop.mayCall .loop then do
        assert (w.eventLoop.looping_ = false)
        some { w with
          eventLoop := { w.eventLoop with looping_ := true }
          starting := some .test }
      else none
  | .readQuit =>
      if w.starting = some .test then
        if w.eventLoop.quit_ = .CREATED then some { w with starting := some .assign }
        else some (w.toWhile w.eventLoop.quit_)
      else none
  | .writeRunning => if w.starting = some .assign then some (w.toWhile .RUNNING) else none
  | .quit t =>
      if w.starting ≠ none ∧ t.isInLoopThread then none
      else (w.eventLoop.step (.quit t)).map fun eventLoop =>
        { w with eventLoop := eventLoop, hasQuit := w.hasQuit || t.isInLoopThread }
  | .quitWakeup t =>
      (w.eventLoop.step (.quitWakeup t)).map fun eventLoop =>
        { w with eventLoop := eventLoop, hasQuit := true }
  | .other s =>
      if isQuit s ∨ w.starting ≠ none ∧ isLoopCall s then none
      else (w.eventLoop.step s).map fun eventLoop => { w with eventLoop := eventLoop }

section start

variable {w : World φ}

/-- Undisturbed, the steps of `loop()` are `loop` of the event loop. -/
theorem run_start (hnone : w.starting = none) (houtside : w.eventLoop.isOutside = true)
    (hcall : w.eventLoop.mayCall .loop = true) (hlooping : w.eventLoop.looping_ = false) :
    ∃ steps : List (Step φ), run step w steps = some { w with eventLoop := w.eventLoop.loop } := by
  let entered : World φ :=
    { w with eventLoop := { w.eventLoop with looping_ := true }, starting := some .test }
  have hloop : w.step .loop = some entered := by
    rw [step, if_pos ⟨hnone, houtside, hcall⟩, assert_pos hlooping]
    rfl
  by_cases hcreated : w.eventLoop.quit_ = .CREATED
  · refine ⟨[.loop, .readQuit, .writeRunning], ?_⟩
    have hread : entered.step .readQuit = some { entered with starting := some .assign } := by
      rw [step, if_pos rfl]
      exact if_pos hcreated
    rw [run_cons, hloop, Option.bind_some, run_cons, hread, Option.bind_some]
    simp [run, step, toWhile, entered, Loops.World.loop, hcreated, hnone]
  · refine ⟨[.loop, .readQuit], ?_⟩
    have hread : entered.step .readQuit = some (entered.toWhile w.eventLoop.quit_) := by
      rw [step, if_pos rfl]
      exact if_neg hcreated
    rw [run_cons, hloop, Option.bind_some, run_cons, hread]
    simp [run, toWhile, entered, Loops.World.loop, hcreated, hnone]

end start

/-- No `quit()` that has returned is without effect. -/
def NoLostQuit (w : World φ) : Prop := w.hasQuit = true → w.eventLoop.quit_ ≠ .RUNNING

/-- The condition on a step: `quit()` does not write `quit_` between the test and the write
of `loop()`. -/
def InTime (w : World φ) : Step φ → Prop
  | .quit _ => w.starting ≠ some .assign
  | _ => True

instance (w : World φ) (s : Step φ) : Decidable (w.InTime s) := by
  unfold InTime
  split <;> infer_instance

/-- `quit_` and the calls of `quit()` under way are left alone by the other steps. -/
theorem step_other {v v' : Loops.World φ} {s : Loops.Step φ} (hs : isQuit s = false)
    (hstep : v.step s = some v') : v'.quit_ = v.quit_ ∧ v'.quitting = v.quitting := by
  cases s with
  | quit t | quitWakeup t | loop => exact absurd hs Bool.noConfusion
  | queueInLoop t cb =>
    obtain ⟨-, rfl⟩ := eq_of_guarded hstep
    rw [Loops.World.queueInLoop]
    split <;> exact ⟨rfl, rfl⟩
  | runInLoop t cb =>
    obtain ⟨-, rfl⟩ := eq_of_guarded hstep
    rw [Loops.World.runInLoop]
    split
    · exact ⟨rfl, rfl⟩
    · rw [Loops.World.queueInLoop]
      split <;> exact ⟨rfl, rfl⟩
  | wakeup t | pollReturn active =>
    obtain ⟨-, rfl⟩ := eq_of_guarded hstep
    exact ⟨rfl, rfl⟩
  | next =>
    obtain ⟨-, hnext⟩ := Option.ite_none_right_eq_some.mp hstep
    rw [Loops.World.next] at hnext
    split at hnext
    case h_3 =>
      split at hnext <;> obtain rfl := Option.some.inj hnext <;> exact ⟨rfl, rfl⟩
    all_goals first
      | exact absurd hnext.symm (Option.some_ne_none _)
      | obtain rfl := Option.some.inj hnext
        exact ⟨rfl, rfl⟩

structure Inv (w : World φ) : Prop where
  /-- A `quit()` that has written `quit_` has done so for good. -/
  quited : w.hasQuit = true ∨ w.eventLoop.quitting ≠ [] → w.eventLoop.quit_ = .QUITED
  /-- Between the test and the write of `loop()` nobody has written. -/
  created : w.starting = some .assign → w.eventLoop.quit_ = .CREATED

theorem inv_new (calling : Bool) : (new calling : World φ).Inv where
  quited := fun h => h.elim (fun h => absurd h Bool.noConfusion) fun h => absurd rfl h
  created := fun h => absurd h.symm (Option.some_ne_none _)

variable {w w' : World φ}

theorem Inv.noLostQuit (h : w.Inv) : w.NoLostQuit := by
  intro hquit hrunning
  have hquited := h.quited (.inl hquit)
  rw [hrunning] at hquited
  exact LoopState.noConfusion hquited

/-- Every step in time keeps the invariant. -/
theorem inv_step (w : World φ) (s : Step φ) (w' : World φ) (h : w.Inv) (hs : w.InTime s)
    (hstep : w.step s = some w') : w'.Inv := by
  cases s with
  | loop =>
    obtain ⟨⟨hnone, -, -⟩, hstep⟩ := Option.ite_none_right_eq_some.mp hstep
    obtain ⟨-, hstep⟩ := bind_assert.mp hstep
    obtain rfl := Option.some.inj hstep
    exact ⟨h.quited, fun hassign => nomatch hassign⟩
  | readQuit =>
    obtain ⟨-, hstep⟩ := Option.ite_none_right_eq_some.mp hstep
    split at hstep
    next hcreated =>
      obtain rfl := Option.some.inj hstep
      exact ⟨h.quited, fun _ => hcreated⟩
    next =>
      obtain rfl := Option.some.inj hstep
      exact ⟨h.quited, fun hassign => nomatch hassign⟩
  | writeRunning =>
    obtain ⟨hassign, rfl⟩ := eq_of_guarded hstep
    refine ⟨fun hquit => ?_, fun hassign => nomatch hassign⟩
    -- nobody has called `quit()` so far
    have hquited := h.quited hquit
    rw [h.created hassign] at hquited
    exact LoopState.noConfusion hquited
  | quit t =>
    obtain ⟨-, hstep⟩ := Option.ite_none_left_eq_some.mp hstep
    obtain ⟨v, hv, rfl⟩ := Option.map_eq_some_iff.mp hstep
    obtain ⟨-, rfl⟩ := eq_of_guarded hv
    refine ⟨fun _ => ?_, fun hassign => absurd hassign hs⟩
    show (w.eventLoop.quit t).quit_ = .QUITED
    rw [Loops.World.quit]
    split <;> rfl
  | quitWakeup t =>
    obtain ⟨v, hv, rfl⟩ := Option.map_eq_some_iff.mp hstep
    obtain ⟨ht, rfl⟩ := eq_of_guarded hv
    refine ⟨fun _ => ?_, h.created⟩
    exact h.quited (.inr (List.ne_nil_of_mem ht))
  | other s =>
    obtain ⟨hnot, hstep⟩ := Option.ite_none_left_eq_some.mp hstep
    obtain ⟨v, hv, rfl⟩ := Option.map_eq_some_iff.mp hstep
    have hother : isQuit s = false := Bool.not_eq_true _ ▸ (not_or.mp hnot).1
    obtain ⟨hquit, hquitting⟩ := step_other hother hv
    exact ⟨fun hq => hquit.trans (h.quited (hquitting ▸ hq)),
      fun hassign => hquit.trans (h.created hassign)⟩

/-- In every run in which no `quit()` writes between the test and the write of `loop()`, no
`quit()` is lost. -/
theorem no_lost_quit_of_inTime (calling : Bool) (steps : List (Step φ))
    (hok : StepsMeet step InTime (new calling) steps) :
    ∀ w ∈ run step (new calling) steps, w.NoLostQuit :=
  fun _ hw => (run_invariant step inv_step (inv_new calling) hok hw).noLostQuit

/-- `quit()` is called before the test, and `loop()` returns at once. -/
def quitsBeforeTest : List (Step Nat) :=
  [.loop, .quit (.other 0), .readQuit, .quitWakeup (.other 0), .other .next]

theorem no_lost_quit_of_inTime_beforeTest :
    StepsMeet step InTime (new false) quitsBeforeTest ∧
      ∃ w ∈ run step (new false) quitsBeforeTest,
        w.hasQuit = true ∧ w.eventLoop.isOutside = true ∧ w.NoLostQuit := by
  have hok : StepsMeet step InTime (new false) quitsBeforeTest := by decide
  have hrun : ∃ w ∈ run step (new false) quitsBeforeTest,
      w.hasQuit = true ∧ w.eventLoop.isOutside = true := by decide
  obtain ⟨w, hw, hquit, houtside⟩ := hrun
  exact ⟨hok, w, hw, hquit, houtside, no_lost_quit_of_inTime false quitsBeforeTest hok w hw⟩

/-- A `quit()` of another thread that writes between the two is lost. -/
theorem lost_of_not_inTime {t : Thread} (hcall : w.eventLoop.mayCall t = true)
    (ht : t.isInLoopThread = false) (h : ¬ w.InTime (.quit t)) :
    ∃ w' ∈ run step w [.quit t, .quitWakeup t, .writeRunning], ¬ w'.NoLostQuit := by
  have hassign : w.starting = some .assign := not_not.mp h
  let asked : World φ := { w with
    eventLoop := w.eventLoop.quit t, hasQuit := w.hasQuit || t.isInLoopThread }
  let returned : World φ := { asked with
    eventLoop := { asked.eventLoop.wakeup with quitting := asked.eventLoop.quitting.erase t }
    hasQuit := true }
  have hquit : w.step (.quit t) = some asked := by
    rw [step, if_neg (by simp [ht]), Loops.World.step, if_pos hcall]
    rfl
  have hmem : t ∈ asked.eventLoop.quitting := by
    show t ∈ (w.eventLoop.quit t).quitting
    rw [Loops.World.quit, ht]
    exact List.mem_cons_self
  have hwakeup : asked.step (.quitWakeup t) = some returned := by
    rw [step, Loops.World.step, if_pos hmem]
    rfl
  have hwrite : returned.step .writeRunning = some (returned.toWhile .RUNNING) := if_pos hassign
  refine ⟨returned.toWhile .RUNNING, ?_, fun hno => hno rfl rfl⟩
  rw [run_cons, hquit, Option.bind_some, run_cons, hwakeup, Option.bind_some, run_cons, hwrite]
  rfl

/-- Another thread quits a loop that has just tested `quit_`. -/
def quitsBeforeWrite : List (Step Nat) :=
  [.loop, .readQuit, .quit (.other 0), .quitWakeup (.other 0), .writeRunning]

theorem no_lost_quit_fails_beforeWrite :
    ¬ ∀ calling, ∀ steps : List (Step Nat), ∀ w ∈ run step (new calling) steps, w.NoLostQuit := by
  intro h
  have hrun : ∃ w ∈ run step (new false) quitsBeforeWrite,
      w.hasQuit = true ∧ w.eventLoop.quit_ = .RUNNING := by decide
  obtain ⟨w, hw, hquit, hrunning⟩ := hrun
  exact h false quitsBeforeWrite w hw hquit hrunning

end World

end Cnet.Net.Quits
