import Cnet.Support.Runs
import Cnet.Support.History
import Cnet.Net.EventLoop

/-!
# The functor queue is first in, first out

Whatever the threads do, a step of the loop pushes one functor, takes the whole queue
as the batch of a call of `doPendingFunctors`, begins the first functor left in the
batch, or ends a call whose batch is done. The order and the batches follow from that.
-/

namespace Cnet.Net.Loops

open Cnet.Support

variable {φ : Type}

/-- The functors that entered `pendingFunctors_`, in order. -/
def enteredOf (trace : List (Event φ)) : List φ :=
  trace.filterMap fun
    | .entered cb => some cb
    | _ => none

/-- The functors that `doPendingFunctors` has begun, in order. -/
def executedOf (trace : List (Event φ)) : List φ :=
  trace.filterMap fun
    | .executed cb => some cb
    | _ => none

/-- The event begins or ends a batch. -/
def Event.isMark : Event φ → Bool
  | .swap | .returned => true
  | _ => false

/-- A call of `doPendingFunctors` is running; `before` is the history before its swap. -/
def InCall (trace before : List (Event φ)) : Prop :=
  ∃ since, trace = before ++ .swap :: since ∧ ∀ e ∈ since, e.isMark = false

/-- A call runs what entered before its swap, and returns when all of that has run. -/
def Event.ok (trace : List (Event φ)) : Event φ → Prop
  | .executed cb => ∃ before, InCall trace before ∧ executedOf trace ++ [cb] <+: enteredOf before
  | .returned => ∃ before, InCall trace before ∧ executedOf trace = enteredOf before
  | _ => True

/-- What is left of the batch, while a call is running. -/
def Position.batch : Position φ → Option (List φ)
  | .functors batch | .inFunctor batch => some batch
  | _ => none

namespace World

/-- The functors that have entered and have not begun. -/
def waiting (w : World φ) : List φ := w.position.batch.getD [] ++ w.pendingFunctors_

structure FirstInFirstOut (w : World φ) : Prop where
  inOrder : executedOf w.trace <+: enteredOf w.trace
  kept : enteredOf w.trace = executedOf w.trace ++ w.waiting
  calls : Justified Event.ok w.trace

/-- What a step does to the queue. -/
inductive QueueStep (w w' : World φ) : Prop
  | same (hbatch : w'.position.batch = w.position.batch)
      (hpending : w'.pendingFunctors_ = w.pendingFunctors_) (htrace : w'.trace = w.trace)
  | push (cb : φ) (hbatch : w'.position.batch = w.position.batch)
      (hpending : w'.pendingFunctors_ = w.pendingFunctors_ ++ [cb])
      (htrace : w'.trace = w.trace ++ [.entered cb])
  | swap (hnone : w.position.batch = none)
      (hbatch : w'.position.batch = some w.pendingFunctors_)
      (hpending : w'.pendingFunctors_ = []) (htrace : w'.trace = w.trace ++ [.swap])
  | execute (cb : φ) (batch : List φ) (hcons : w.position.batch = some (cb :: batch))
      (hbatch : w'.position.batch = some batch)
      (hpending : w'.pendingFunctors_ = w.pendingFunctors_)
      (htrace : w'.trace = w.trace ++ [.executed cb])
  | finish (hnil : w.position.batch = some []) (hbatch : w'.position.batch = none)
      (hpending : w'.pendingFunctors_ = w.pendingFunctors_)
      (htrace : w'.trace = w.trace ++ [.returned])

theorem queueInLoop_queueStep (t : Thread) (cb : φ) (w : World φ) :
    w.QueueStep (w.queueInLoop t cb) := by
  rw [queueInLoop]
  split
  · exact .push cb rfl rfl rfl
  · exact .push cb rfl rfl rfl

theorem next_queueStep {w w' : World φ} (h : w.next = some w') : w.QueueStep w' := by
  rw [next] at h
  cases hp : w.position with
  | outside | poll =>
    rw [hp] at h
    exact nomatch h
  | test =>
    rw [hp] at h
    dsimp only at h
    split at h
    · obtain rfl := Option.some.inj h
      exact .same (by rw [hp]; rfl) rfl rfl
    · obtain rfl := Option.some.inj h
      exact .same (by rw [hp]; rfl) rfl rfl
  | handlers active =>
    rw [hp] at h
    cases active with
    | nil =>
      obtain rfl := Option.some.inj h
      exact .same (by rw [hp]; rfl) rfl rfl
    | cons c active =>
      cases c with
      | wakeupChannel | other =>
        obtain rfl := Option.some.inj h
        exact .same (by rw [hp]; rfl) rfl rfl
  | inHandler active =>
    rw [hp] at h
    obtain rfl := Option.some.inj h
    exact .same (by rw [hp]; rfl) rfl rfl
  | swap =>
    rw [hp] at h
    obtain rfl := Option.some.inj h
    exact .swap (by rw [hp]; rfl) rfl rfl rfl
  | functors batch =>
    rw [hp] at h
    cases batch with
    | nil =>
      obtain rfl := Option.some.inj h
      exact .finish (by rw [hp]; rfl) rfl rfl rfl
    | cons cb batch =>
      obtain rfl := Option.some.inj h
      exact .execute cb batch (by rw [hp]; rfl) rfl rfl rfl
  | inFunctor batch =>
    rw [hp] at h
    obtain rfl := Option.some.inj h
    exact .same (by rw [hp]; rfl) rfl rfl

theorem queueStep_of_step {w w' : World φ} {s : Step φ} (h : step w s = some w') :
    w.QueueStep w' := by
  cases s with
  | queueInLoop t cb =>
    obtain ⟨-, rfl⟩ := eq_of_guarded h
    exact queueInLoop_queueStep t cb w
  | runInLoop t cb =>
    obtain ⟨-, rfl⟩ := eq_of_guarded h
    rw [runInLoop]
    split
    · exact .same rfl rfl rfl
    · exact queueInLoop_queueStep t cb w
  | quit t =>
    obtain ⟨-, rfl⟩ := eq_of_guarded h
    rw [quit]
    split
    · exact .same rfl rfl rfl
    · exact .same rfl rfl rfl
  | wakeup t =>
    obtain ⟨-, rfl⟩ := eq_of_guarded h
    exact .same rfl rfl rfl
  | quitWakeup t =>
    obtain ⟨-, rfl⟩ := eq_of_guarded h
    exact .same rfl rfl rfl
  | loop =>
    obtain ⟨hc, rfl⟩ := eq_of_guarded h
    have hp := isOutside_iff.mp (Bool.and_eq_true_iff.mp hc).1
    exact .same (by rw [hp]; rfl) rfl rfl
  | pollReturn active =>
    obtain ⟨hc, rfl⟩ := eq_of_guarded h
    simp only [Bool.and_eq_true] at hc
    have hp := isPolling_iff.mp hc.1.1
    exact .same (by rw [hp]; rfl) rfl rfl
  | next =>
    rw [step, Option.ite_none_right_eq_some] at h
    exact next_queueStep h.2

end World

theorem enteredOf_append (trace trace' : List (Event φ)) :
    enteredOf (trace ++ trace') = enteredOf trace ++ enteredOf trace' := List.filterMap_append

theorem executedOf_append (trace trace' : List (Event φ)) :
    executedOf (trace ++ trace') = executedOf trace ++ executedOf trace' := List.filterMap_append

theorem InCall.append {trace before : List (Event φ)} (h : InCall trace before) {e : Event φ}
    (he : e.isMark = false) : InCall (trace ++ [e]) before := by
  obtain ⟨since, rfl, hsince⟩ := h
  refine ⟨since ++ [e], by rw [List.append_assoc, List.cons_append], fun e' he' => ?_⟩
  rcases List.mem_append.mp he' with he' | he'
  · exact hsince e' he'
  · rw [List.mem_singleton.mp he']
    exact he

namespace World

/-- The queue while it is used: the order, the calls so far, and the running call. -/
structure QueueInv (w : World φ) : Prop where
  kept : enteredOf w.trace = executedOf w.trace ++ w.waiting
  calls : Justified Event.ok w.trace
  running : ∀ batch ∈ w.position.batch,
    ∃ before, InCall w.trace before ∧ executedOf w.trace ++ batch = enteredOf before

theorem QueueInv.firstInFirstOut {w : World φ} (h : w.QueueInv) : w.FirstInFirstOut :=
  ⟨⟨w.waiting, h.kept.symm⟩, h.kept, h.calls⟩

theorem queueInv_new (calling : Bool) : (new calling : World φ).QueueInv :=
  ⟨rfl, .nil, fun _ h => nomatch h⟩

theorem QueueInv.step {w w' : World φ} (h : w.QueueInv) (hs : w.QueueStep w') : w'.QueueInv := by
  have hkept := h.kept
  rw [waiting] at hkept
  cases hs with
  | same hbatch hpending htrace =>
    refine ⟨?_, htrace ▸ h.calls, ?_⟩
    · rw [waiting, hbatch, hpending, htrace]
      exact h.kept
    · rw [hbatch, htrace]
      exact h.running
  | push cb hbatch hpending htrace =>
    refine ⟨?_, htrace ▸ h.calls.append_singleton trivial, ?_⟩
    · rw [waiting, hbatch, hpending, htrace, enteredOf_append, executedOf_append, hkept]
      simp [enteredOf, executedOf]
    · rw [hbatch, htrace]
      intro batch hb
      obtain ⟨before, hcall, heq⟩ := h.running batch hb
      refine ⟨before, hcall.append rfl, ?_⟩
      rw [executedOf_append, ← heq]
      simp [executedOf]
  | swap hnone hbatch hpending htrace =>
    rw [hnone] at hkept
    refine ⟨?_, htrace ▸ h.calls.append_singleton trivial, ?_⟩
    · rw [waiting, hbatch, hpending, htrace, enteredOf_append, executedOf_append, hkept]
      simp [enteredOf, executedOf]
    · rw [hbatch, htrace]
      rintro batch ⟨rfl⟩
      refine ⟨w.trace, ⟨[], rfl, List.forall_mem_nil _⟩, ?_⟩
      rw [executedOf_append, hkept]
      simp [executedOf]
  | execute cb batch hcons hbatch hpending htrace =>
    rw [hcons] at hkept
    obtain ⟨before, hcall, heq⟩ := h.running _ hcons
    have hok : Event.ok w.trace (.executed cb) := by
      refine ⟨before, hcall, batch, ?_⟩
      rw [← heq, List.append_assoc, List.singleton_append]
    refine ⟨?_, htrace ▸ h.calls.append_singleton hok, ?_⟩
    · rw [waiting, hbatch, hpending, htrace, enteredOf_append, executedOf_append, hkept]
      simp [enteredOf, executedOf]
    · rw [hbatch, htrace]
      rintro batch' ⟨rfl⟩
      refine ⟨before, hcall.append rfl, ?_⟩
      rw [executedOf_append, ← heq]
      simp [executedOf]
  | finish hnil hbatch hpending htrace =>
    rw [hnil] at hkept
    obtain ⟨before, hcall, heq⟩ := h.running _ hnil
    rw [List.append_nil] at heq
    refine ⟨?_, htrace ▸ h.calls.append_singleton ⟨before, hcall, heq⟩, ?_⟩
    · rw [waiting, hbatch, hpending, htrace, enteredOf_append, executedOf_append, hkept]
      simp [enteredOf, executedOf]
    · rw [hbatch]
      exact fun _ hb => nomatch hb

/-- The functor queue of a loop, over every run of any number of threads. -/
theorem functors_firstInFirstOut (calling : Bool) (steps : List (Step φ)) :
    ∀ w ∈ run step (new calling) steps, w.FirstInFirstOut := by
  intro w hw
  have hinv : w.QueueInv := reaches_invariant step
    (fun _ _ _ h hs => h.step (queueStep_of_step hs)) (queueInv_new calling) ⟨steps, hw⟩
  exact hinv.firstInFirstOut

/-- Another thread queues functor 1, which queues functor 2 while its batch is running. -/
def functorQueuesFunctor : List (Step Nat) :=
  [.loop, .next, .queueInLoop (.other 0) 1, .wakeup (.other 0), .pollReturn [.wakeupChannel], .next,
    .next, .next, .next, .queueInLoop .loop 2, .wakeup .loop, .next, .next, .next,
    .pollReturn [.wakeupChannel], .next, .next, .next, .next]

theorem functors_firstInFirstOut_nested :
    ∃ w ∈ run step (new false) functorQueuesFunctor,
      w.trace = [.entered 1, .swap, .executed 1, .entered 2, .returned, .swap, .executed 2] ∧
        w.FirstInFirstOut := by
  have hrun : ∃ w ∈ run step (new false) functorQueuesFunctor,
      w.trace = [.entered 1, .swap, .executed 1, .entered 2, .returned, .swap, .executed 2] := by
    decide
  obtain ⟨w, hw, htrace⟩ := hrun
  exact ⟨w, hw, htrace, functors_firstInFirstOut false functorQueuesFunctor w hw⟩

end World

end Cnet.Net.Loops
