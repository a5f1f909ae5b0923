import Mathlib.Data.List.Nodup
import Cnet.Base.LogConservation

/-!
# What `stop()` leaves behind

`stop()` clears a flag that the thread tests once per iteration, before the lock. What
waits when the flag falls is written if the thread is between that test and the swap, and
stays where it is otherwise.
-/

namespace Cnet.Base

open Cnet.Support

namespace World

variable {w w' : World} {l : Line}

/-- The line waits, and the thread is not about to take it. -/
def Left (l : Line) (w : World) : Prop :=
  w.position ≠ .lock ∧ w.position ≠ .waiting ∧ l ∈ w.waiting

/-- After `stop()`. -/
structure Stopped (w : World) : Prop where
  inv : w.Inv
  running : w.running_ = false
  started : w.position ≠ .unstarted

theorem position_swapBuffers (hs : w.swapBuffers = some w') :
    w'.position = .swapped ∧ w'.running_ = w.running_ := by
  obtain ⟨-, -, rfl⟩ := Option.map_eq_some_iff.mp hs
  exact ⟨rfl, rfl⟩

/-- The swap takes all that waits. -/
theorem waiting_swapBuffers (h : w.Inv) (hposition : w.position = .lock ∨ w.position = .waiting)
    (hs : w.swapBuffers = some w') : w'.waiting = [] := by
  have hplace := h.place
  rw [Place] at hplace
  obtain ⟨-, -, rfl⟩ := Option.map_eq_some_iff.mp hs
  rcases hposition with hp | hp <;>
  · simp only [hp] at hplace
    rw [waiting]
    dsimp only
    rw [hplace.1, hplace.2.2]
    rfl

theorem not_left_of_position (hposition : w.position = .lock ∨ w.position = .waiting) :
    ¬ w.Left l :=
  fun h => hposition.elim h.1 h.2.1

/-- `append` adds another line than `l`. -/
theorem left_append (h : w.Inv) (hold : l.seq < w.appended.length) {logline : List UInt8}
    (hshort : logline.length < kLargeBuffer) (hs : w.append logline = some w') :
    w'.Left l ↔ w.Left l := by
  obtain ⟨hwaiting, -, -, -, -, heq⟩ := append_spec h hshort hs
  have hposition : w'.position = w.position := by rw [heq]
  have hother : l ≠ ⟨w.appended.length, logline⟩ := by
    rintro rfl
    exact Nat.lt_irrefl _ hold
  rw [Left, Left, hposition, hwaiting, List.mem_append, List.mem_singleton, or_iff_left hother]

theorem left_next (h : w.Stopped) {now : String} (hs : w.next now = some w') :
    w'.running_ = false ∧ w'.position ≠ .unstarted ∧ (w'.Left l ↔ w.Left l) := by
  rcases next_cases hs with
    ⟨hposition, rfl | hswap⟩ | ⟨hlock, hwait, hshared, hstarted, hwait', hlock'⟩
  · exact ⟨h.running, by simp, iff_of_false (not_left_of_position (.inr rfl))
      (not_left_of_position hposition)⟩
  · obtain ⟨hposition', hrunning⟩ := position_swapBuffers hswap
    have hnothing : ¬ w'.Left l := by
      rintro ⟨-, -, hl⟩
      rw [waiting_swapBuffers h.inv hposition hswap] at hl
      exact List.not_mem_nil hl
    exact ⟨hrunning.trans h.running, hposition' ▸ by decide,
      iff_of_false hnothing (not_left_of_position hposition)⟩
  · have hrunning : w'.running_ = false := (congrArg (·.1) hshared).trans h.running
    have hnot : w'.position ≠ .lock := by
      intro hp
      exact Bool.false_ne_true (h.running.symm.trans (hlock' hp))
    have hwaiting : w'.waiting = w.waiting := by
      rw [waiting, waiting, show w'.buffers_ = w.buffers_ from congrArg (·.2.2.2.1) hshared,
        show w'.currentBuffer_ = w.currentBuffer_ from congrArg (·.2.1) hshared]
    refine ⟨hrunning, hstarted, ?_⟩
    rw [Left, Left, hwaiting]
    exact ⟨fun hl => ⟨hlock, hwait, hl.2.2⟩, fun hl => ⟨hnot, hwait', hl.2.2⟩⟩

theorem Inv.seq_lt (h : w.Inv) (hl : l ∈ w.appended) : l.seq < w.appended.length := by
  rw [← List.mem_range, ← h.numbered]
  exact List.mem_map_of_mem hl

/-- The step lemma: after `stop()` no step takes a line that is left, or leaves another. -/
theorem Stopped.step (h : w.Stopped) (hl : l ∈ w.appended) {s : Step} (hshort : w.Short s)
    (hs : w.step s = some w') : w'.Stopped ∧ (w'.Left l ↔ w.Left l) := by
  have hinv := h.inv.step hshort hs
  cases s with
  | append logline =>
    have heq := (append_spec h.inv hshort hs).2.2.2.2.2
    exact ⟨⟨hinv, heq ▸ h.running, heq ▸ h.started⟩,
      left_append h.inv (h.inv.seq_lt hl) hshort hs⟩
  | start => exact absurd (eq_of_guarded hs).1 h.started
  | stop =>
    obtain ⟨⟨-, -, hrunning⟩, -⟩ := eq_of_guarded hs
    exact absurd (h.running.symm.trans hrunning) Bool.false_ne_true
  | next now =>
    obtain ⟨hrunning, hstarted, hleft⟩ := left_next h hs
    exact ⟨⟨hinv, hrunning, hstarted⟩, hleft⟩

/-- The run lemma. -/
theorem Stopped.run (h : w.Stopped) (hl : l ∈ w.appended) {steps : List Step}
    (hshort : StepsMeet World.step Short w steps) (hrun : run World.step w steps = some w') :
    w'.Inv ∧ l ∈ w'.appended ∧ (w'.Left l ↔ w.Left l) := by
  have hstep : ∀ (v : World) (s : Step) (v' : World),
      (v.Stopped ∧ l ∈ v.appended ∧ (v.Left l ↔ w.Left l)) → v.Short s → v.step s = some v' →
        v'.Stopped ∧ l ∈ v'.appended ∧ (v'.Left l ↔ w.Left l) := by
    rintro v s v' ⟨hv, hmem, hleft⟩ hok hs
    obtain ⟨hv', hleft'⟩ := hv.step hmem hok hs
    obtain ⟨lines, happended, -⟩ := step_appended hs
    exact ⟨hv', happended ▸ List.mem_append_left lines hmem, hleft'.trans hleft⟩
  obtain ⟨hv, hmem, hleft⟩ := run_invariant World.step hstep ⟨h, hl, Iff.rfl⟩ hshort hrun
  exact ⟨hv.inv, hmem, hleft⟩

theorem Inv.nodup (h : w.Inv) : w.appended.Nodup :=
  List.Nodup.of_map Line.seq (by rw [h.numbered]; exact List.nodup_range)

/-- When the thread has exited, a line is written or erased exactly if it is not left. -/
theorem Inv.written_iff (h : w.Inv) (hexited : w.position = .exited) (hl : l ∈ w.appended) :
    (l ∉ linesOf w.erased → l ∈ w.written) ↔ ¬ w.Left l := by
  have hledger := h.ledger
  rw [unwritten, hexited, List.nil_append] at hledger
  have hleft : w.Left l ↔ l ∈ w.waiting := by
    rw [Left, hexited]
    exact ⟨fun hleft => hleft.2.2, fun hmem => ⟨by decide, by decide, hmem⟩⟩
  have hnodup := hledger.nodup h.nodup
  rw [hleft]
  constructor
  · intro hwritten hwaiting
    have herased : l ∉ linesOf w.erased :=
      fun hmem => (List.nodup_append.mp hnodup).2.2 l (List.mem_append_right _ hwaiting) l hmem rfl
    have hkept := (List.nodup_append.mp hnodup).1
    exact (List.nodup_append.mp hkept).2.2 l (hwritten herased) l hwaiting rfl
  · intro hwaiting herased
    have hmem := hledger.mem_iff.mp hl
    rw [List.mem_append] at hmem
    rcases hmem with (hwritten | hmem) | hmem
    · exact hwritten
    · exact absurd hmem hwaiting
    · exact absurd hmem herased

/-- The lines appended before have been passed to `LogFile::append`, but for those of a
batch that was cut. -/
def Drained (before w : World) : Prop :=
  ∀ l ∈ before.appended, l ∉ linesOf w.erased → l ∈ w.written

/-- The condition on the call: the thread is about to swap, or nothing waits. -/
def Taken (w : World) : Prop :=
  w.position = .lock ∨ w.position = .waiting ∨ w.waiting = []

theorem taken_iff (h : w.Inv) : w.Taken ↔ ∀ l ∈ w.appended, ¬ w.Left l := by
  constructor
  · rintro htaken l - ⟨hlock, hwait, hl⟩
    rcases htaken with hp | hp | hnone
    · exact hlock hp
    · exact hwait hp
    · exact List.not_mem_nil (hnone ▸ hl)
  · intro hleft
    rw [Taken]
    by_contra hno
    obtain ⟨hlock, hno⟩ := not_or.mp hno
    obtain ⟨hwait, hsome⟩ := not_or.mp hno
    obtain ⟨l, hl⟩ := List.exists_mem_of_ne_nil _ hsome
    have happended : l ∈ w.appended :=
      h.ledger.ordered.subset (List.mem_append_right _ (List.mem_append_right _ hl))
    exact hleft l happended ⟨hlock, hwait, hl⟩

theorem Inv.stop (h : w.Inv) (hs : w.step .stop = some w') :
    w'.Stopped ∧ w'.appended = w.appended ∧ ∀ l, w'.Left l ↔ w.Left l := by
  have hinv := h.step (s := .stop) True.intro hs
  obtain ⟨⟨hstarted, -, -⟩, rfl⟩ := eq_of_guarded hs
  exact ⟨⟨hinv, rfl, hstarted⟩, rfl, fun _ => Iff.rfl⟩

/-- When `stop()` returns, what was appended before the call is written exactly if the
thread was about to take it when the flag fell. -/
theorem stop_drains_iff (before after : List Step)
    (hbefore : StepsMeet World.step Short new before) :
    ∀ w₁ ∈ run World.step new before, ∀ w₂ ∈ w₁.step .stop,
      StepsMeet World.step Short w₂ after → ∀ w ∈ run World.step w₂ after, w.position = .exited →
        (Drained w₁ w ↔ w₁.Taken) := by
  intro w₁ h₁ w₂ h₂ hafter w hrun hexited
  have hinv := inv_run inv_new hbefore h₁
  obtain ⟨hstopped, happended, hleft⟩ := hinv.stop h₂
  rw [taken_iff hinv, Drained]
  refine forall₂_congr fun l hl => ?_
  obtain ⟨hw, hmem, hkept⟩ := hstopped.run (happended ▸ hl) hafter hrun
  rw [hw.written_iff hexited hmem, hkept, hleft]

/-- A line is appended while the thread waits. -/
def appendedWaiting : List Step :=
  [.start, .next "", .next "", .next "", .append [104, 105]]

/-- The thread swaps, writes the line, and exits. -/
def writesAndExits : List Step :=
  [.next "", .next "", .next "", .next "", .next "", .next ""]

theorem stop_drains_iff_waiting :
    ∃ w₁ ∈ run World.step new appendedWaiting, w₁.waiting.map Line.data = [[104, 105]] ∧
      ∃ w₂ ∈ w₁.step .stop, ∃ w ∈ run World.step w₂ writesAndExits,
        w.position = .exited ∧ Drained w₁ w := by
  have hbefore : StepsMeet World.step Short new appendedWaiting := by decide
  have hrun : ∃ w₁ ∈ run World.step new appendedWaiting,
      (w₁.waiting.map Line.data = [[104, 105]] ∧ w₁.position = .waiting) ∧
        ∃ w₂ ∈ w₁.step .stop, StepsMeet World.step Short w₂ writesAndExits ∧
          ∃ w ∈ run World.step w₂ writesAndExits, w.position = .exited := by decide
  obtain ⟨w₁, h₁, ⟨hwaiting, hposition⟩, w₂, h₂, hafter, w, hw, hexited⟩ := hrun
  have hiff :=
    stop_drains_iff appendedWaiting writesAndExits hbefore w₁ h₁ w₂ h₂ hafter w hw hexited
  exact ⟨w₁, h₁, hwaiting, w₂, h₂, w, hw, hexited, hiff.mpr (.inr (.inl hposition))⟩

/-- `start()`, `append`, and `stop()` before the thread comes to its loop. -/
theorem stop_drains_fails_beforeLoop :
    ¬ ∀ before after : List Step, StepsMeet World.step Short new before →
      ∀ w₁ ∈ run World.step new before, ∀ w₂ ∈ w₁.step .stop,
        StepsMeet World.step Short w₂ after → ∀ w ∈ run World.step w₂ after, w.position = .exited →
          Drained w₁ w := by
  intro h
  have hrun : ∃ w₁ ∈ run World.step new [.start, .next "", .append [104, 105]],
      ∃ w₂ ∈ w₁.step .stop, ∃ w ∈ run World.step w₂ [.next ""], w.position = .exited ∧
        ∃ l ∈ w₁.appended, l ∉ linesOf w.erased ∧ l ∉ w.written := by decide
  obtain ⟨w₁, h₁, w₂, h₂, w, hw, hexited, l, hl, herased, hlost⟩ := hrun
  have hshort : StepsMeet World.step Short new [.start, .next "", .append [104, 105]] := by decide
  have hafter : StepsMeet World.step Short w₂ [.next ""] := ⟨True.intro, fun _ _ => True.intro⟩
  exact hlost (h _ _ hshort w₁ h₁ w₂ h₂ hafter w hw hexited l hl herased)

end World

end Cnet.Base
