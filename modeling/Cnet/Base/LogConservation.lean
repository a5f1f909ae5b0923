import Cnet.Support.Ledger
import Cnet.Support.Runs
import Cnet.Base.AsyncLogging

/-!
# Nothing is lost, and nothing overtaken

The lines appended are, in order, those written, those of the batch still to be written,
those in `buffers_` and those in `currentBuffer_`, but for the batches that were cut. The
spare buffers come back: while `nextBuffer_` is missing `buffers_` is not empty, so a
batch has a buffer for each spare that the thread has given away.
-/

namespace Cnet.Base

open Cnet.Support

theorem linesOf_append (a b : List FixedBuffer) : linesOf (a ++ b) = linesOf a ++ linesOf b :=
  List.flatMap_append

/-- The lines that a call of `LogFile::append` writes. -/
def Output.lines : Output → List Line
  | .buffer b => b.lines
  | .notice _ => []

namespace World

/-- The lines passed to `LogFile::append`. -/
def written (w : World) : List Line := w.output.flatMap Output.lines

/-- The lines of the batch that are still to be written. -/
def unwritten (w : World) : List Line :=
  match w.position with
  | .swapped => linesOf w.buffersToWrite
  | .write i => linesOf (w.buffersToWrite.drop i)
  | _ => []

/-- The lines in `buffers_` and `currentBuffer_`. -/
def waiting (w : World) : List Line :=
  linesOf w.buffers_ ++ w.currentBuffer_.elim [] FixedBuffer.lines

structure NothingLost (w : World) : Prop where
  conserved : (∀ n ∈ w.swaps, n ≤ 25) → w.written ++ (w.unwritten ++ w.waiting) = w.appended
  current : w.currentBuffer_ ≠ none
  /-- At the top of an iteration. -/
  spares : w.position = .test ∨ w.position = .lock →
    w.newBuffer1 = some .empty ∧ w.newBuffer2 = some .empty ∧ w.buffersToWrite = []
  /-- Wherever the thread is, its asserts hold and it uses no null pointer. -/
  asserts : w.position ≠ .unstarted → w.position ≠ .exited → ∀ now, (w.next now).isSome = true

/-- The condition on a call: the line is shorter than a buffer. -/
def Short (_ : World) : Step → Prop
  | .append logline => logline.length < kLargeBuffer
  | _ => True

instance (w : World) (s : Step) : Decidable (w.Short s) := by
  unfold Short
  split <;> infer_instance

/-- The batch has a buffer for `newBuffer1`, and one for `newBuffer2` if that is missing. -/
def Refillable (w : World) : Prop :=
  w.newBuffer1 = none ∧
    (w.newBuffer2 = some .empty ∧ 1 ≤ w.buffersToWrite.length ∨
      w.newBuffer2 = none ∧ 2 ≤ w.buffersToWrite.length)

/-- What the thread has in hand where it is. -/
def Place (w : World) : Prop :=
  match w.position with
  | .unstarted => w.buffersToWrite = []
  | .entry => w.running_ = true ∧ w.buffersToWrite = []
  | .test | .lock | .waiting =>
      w.newBuffer1 = some .empty ∧ w.newBuffer2 = some .empty ∧ w.buffersToWrite = []
  | .swapped => w.Refillable ∧ w.buffersToWrite.length ∈ w.swaps
  | .write _ | .refill => w.Refillable
  | .exited => True

structure Inv (w : World) : Prop where
  current : ∃ b, w.currentBuffer_ = some b
  spare : ∀ b ∈ w.nextBuffer_, b = .empty
  lent : w.nextBuffer_ = none → w.buffers_ ≠ []
  place : w.Place
  ledger : Ledger (w.written ++ (w.unwritten ++ w.waiting)) (linesOf w.erased) w.appended
  uncut : (∀ n ∈ w.swaps, n ≤ 25) → w.erased = []
  numbered : w.appended.map Line.seq = List.range w.appended.length

theorem inv_new : new.Inv where
  current := ⟨_, rfl⟩
  spare := by
    rintro b ⟨rfl⟩
    rfl
  lent := nofun
  place := rfl
  ledger := .nil
  uncut := fun _ => rfl
  numbered := rfl

variable {w w' : World}

theorem append_lines {b : FixedBuffer} {l : Line} (h : l.length < b.avail) :
    (b.append l).lines = b.lines ++ [l] := by
  rw [FixedBuffer.append, dif_pos h]

theorem append_empty {l : Line} (h : l.length < kLargeBuffer) :
    (FixedBuffer.append .empty l).lines = [l] :=
  append_lines (b := .empty) h

/-- What `append` changes: a line more waits, and a missing `nextBuffer_` leaves a buffer
in `buffers_`. -/
theorem append_spec (h : w.Inv) {logline : List UInt8} (hshort : logline.length < kLargeBuffer)
    (happend : w.append logline = some w') :
    w'.waiting = w.waiting ++ [⟨w.appended.length, logline⟩] ∧
      w'.appended = w.appended ++ [⟨w.appended.length, logline⟩] ∧
      (∃ b, w'.currentBuffer_ = some b) ∧ (∀ b ∈ w'.nextBuffer_, b = .empty) ∧
      (w'.nextBuffer_ = none → w'.buffers_ ≠ []) ∧
      w' = { w with
        appended := w'.appended
        currentBuffer_ := w'.currentBuffer_
        nextBuffer_ := w'.nextBuffer_
        buffers_ := w'.buffers_ } := by
  obtain ⟨current, hcurrent⟩ := h.current
  rw [World.append] at happend
  simp only [hcurrent, Option.map_some] at happend
  by_cases hfits : (⟨w.appended.length, logline⟩ : Line).length < current.avail
  · rw [if_pos hfits] at happend
    obtain rfl := Option.some.inj happend
    refine ⟨?_, rfl, ⟨_, rfl⟩, h.spare, h.lent, rfl⟩
    rw [waiting, waiting, hcurrent, List.append_assoc]
    exact congrArg (linesOf w.buffers_ ++ ·) (append_lines hfits)
  · rw [if_neg hfits] at happend
    obtain rfl := Option.some.inj happend
    have hspare : w.nextBuffer_.getD .empty = .empty := by
      cases hn : w.nextBuffer_ with
      | none => rfl
      | some b => exact h.spare b hn
    refine ⟨?_, rfl, ⟨_, rfl⟩, (fun _ hb => nomatch hb),
      fun _ => List.append_ne_nil_of_right_ne_nil _ (List.cons_ne_nil _ _), rfl⟩
    rw [waiting, waiting, hcurrent, hspare, linesOf_append, Option.elim_some,
      append_empty (by exact hshort)]
    simp [linesOf]

theorem Inv.append (h : w.Inv) {logline : List UInt8} (hshort : logline.length < kLargeBuffer)
    (happend : w.append logline = some w') : w'.Inv := by
  obtain ⟨hwaiting, happended, hcurrent, hspare, hlent, heq⟩ := append_spec h hshort happend
  refine ⟨hcurrent, hspare, hlent, ?_, ?_, ?_, ?_⟩
  · rw [heq]
    exact h.place
  · have hledger := h.ledger.append ⟨w.appended.length, logline⟩
    rw [List.append_assoc, List.append_assoc, ← hwaiting, ← happended] at hledger
    have hwritten : w'.written = w.written := by rw [heq]; rfl
    have hunwritten : w'.unwritten = w.unwritten := by rw [heq]; rfl
    have herased : w'.erased = w.erased := by rw [heq]
    rw [hwritten, hunwritten, herased]
    exact hledger
  · rw [heq]
    exact h.uncut
  · rw [happended, List.map_append, List.length_append, List.length_singleton, List.range_succ,
      h.numbered]
    rfl

/-- The swap: what waits becomes the batch, and the spare buffers take its place. -/
theorem Inv.swapBuffers (h : w.Inv) (h1 : w.newBuffer1 = some .empty)
    (h2 : w.newBuffer2 = some .empty) (hbatch : w.buffersToWrite = []) (hnone : w.unwritten = []) :
    ∃ w', w.swapBuffers = some w' ∧ w'.Inv := by
  obtain ⟨current, hcurrent⟩ := h.current
  refine ⟨_, by rw [World.swapBuffers, hcurrent, Option.map_some], ?_⟩
  have hwaiting : w.waiting = linesOf (w.buffers_ ++ [current]) := by
    rw [waiting, hcurrent, linesOf_append]
    simp [linesOf]
  have hlen : (w.buffers_ ++ [current]).length = w.buffers_.length + 1 := by simp
  refine ⟨⟨_, h1⟩, ?_, ?_, ⟨⟨rfl, ?_⟩, ?_⟩, ?_, ?_, h.numbered⟩
  · dsimp only
    intro b hb
    split at hb
    · exact (Option.some.inj (h2.symm.trans hb)).symm
    · exact h.spare b hb
  · dsimp only
    intro hmissing
    split at hmissing
    · exact absurd (h2.symm.trans hmissing) (Option.some_ne_none _)
    next hn => exact absurd (Option.isNone_iff_eq_none.mpr hmissing) hn
  · dsimp only
    rw [hlen]
    cases hn : w.nextBuffer_ with
    | none =>
      have hpos := List.length_pos_of_ne_nil (h.lent hn)
      exact .inr ⟨rfl, by omega⟩
    | some b => exact .inl ⟨h2, by omega⟩
  · exact List.mem_append_right _ (List.mem_singleton.mpr rfl)
  · have hledger := h.ledger
    rw [hnone, List.nil_append, hwaiting] at hledger
    have hnothing : linesOf w.buffersToWrite ++ w.newBuffer1.elim [] FixedBuffer.lines = [] := by
      rw [hbatch, h1]
      rfl
    show Ledger (w.written ++ (linesOf (w.buffers_ ++ [current]) ++
      (linesOf w.buffersToWrite ++ w.newBuffer1.elim [] FixedBuffer.lines))) _ _
    rw [hnothing, List.append_nil]
    exact hledger
  · exact fun hn => h.uncut fun n hmem => hn n (List.mem_append_left _ hmem)

/-- An over-full batch is cut to two buffers. -/
theorem Inv.cut (h : w.Inv) (hplace : w.Refillable) (hsize : w.buffersToWrite.length ∈ w.swaps)
    (hunwritten : w.unwritten = linesOf w.buffersToWrite) (now : String) :
    Inv { w.cut now with position := .write 0 } := by
  rw [World.cut]
  by_cases hover : 25 < w.buffersToWrite.length
  · rw [if_pos hover]
    refine ⟨h.current, h.spare, h.lent, ⟨hplace.1, ?_⟩, ?_, ?_, h.numbered⟩
    · have htake : (w.buffersToWrite.take 2).length = 2 := by
        rw [List.length_take]
        omega
      dsimp only
      rw [htake]
      rcases hplace.2 with ⟨h2, -⟩ | ⟨h2, -⟩
      · exact .inl ⟨h2, by decide⟩
      · exact .inr ⟨h2, by decide⟩
    · have hledger := h.ledger
      rw [hunwritten, ← List.take_append_drop 2 w.buffersToWrite, linesOf_append,
        List.append_assoc (linesOf (w.buffersToWrite.take 2)), ← List.append_assoc] at hledger
      have herased := hledger.erase
      rw [← linesOf_append, List.append_assoc] at herased
      have hwritten : (w.output ++ [Output.notice (dropNotice now w.buffersToWrite.length)]).flatMap
          Output.lines = w.written := by
        rw [List.flatMap_append]
        exact List.append_nil _
      show Ledger ((w.output ++ [Output.notice _]).flatMap Output.lines ++
        (linesOf (w.buffersToWrite.take 2) ++ w.waiting)) _ _
      rw [hwritten]
      exact herased
    · intro hn
      have := hn _ hsize
      omega
  · rw [if_neg hover]
    refine ⟨h.current, h.spare, h.lent, hplace, ?_, h.uncut, h.numbered⟩
    have hledger := h.ledger
    rw [hunwritten] at hledger
    exact hledger

/-- A buffer of the batch is written. -/
theorem Inv.write (h : w.Inv) {i : Nat} (hposition : w.position = .write i) {b : FixedBuffer}
    (hb : w.buffersToWrite[i]? = some b) :
    Inv { w with output := w.output ++ [.buffer b], position := .write (i + 1) } := by
  have hplace := h.place
  rw [Place, hposition] at hplace
  refine ⟨h.current, h.spare, h.lent, hplace, ?_, h.uncut, h.numbered⟩
  have hledger := h.ledger
  obtain ⟨hlt, hget⟩ := List.getElem?_eq_some_iff.mp hb
  rw [unwritten, hposition] at hledger
  have hdrop : linesOf (w.buffersToWrite.drop i) =
      b.lines ++ linesOf (w.buffersToWrite.drop (i + 1)) := by
    rw [List.drop_eq_getElem_cons hlt, hget]
    exact List.flatMap_cons
  dsimp only at hledger
  rw [hdrop] at hledger
  show Ledger ((w.output ++ [Output.buffer b]).flatMap Output.lines ++
    (linesOf (w.buffersToWrite.drop (i + 1)) ++ w.waiting)) _ _
  rw [List.append_assoc b.lines] at hledger
  rw [List.flatMap_append, List.flatMap_singleton, List.append_assoc]
  exact hledger

/-- The spare buffers that were given away are taken back from the batch. -/
theorem Inv.refill (h : w.Inv) (hplace : w.Refillable) (hnone : w.unwritten = []) :
    ∃ w', w.refill = some w' ∧ w'.Inv := by
  have htake : ∀ n, n ≤ 2 → n ≤ w.buffersToWrite.length → n ≤ (w.buffersToWrite.take 2).length := by
    intro n h2 hn
    rw [List.length_take]
    omega
  have hfirst : ∀ batch : List FixedBuffer, batch ≠ [] →
      refillSpare none batch = some (some .empty, batch.dropLast) := by
    intro batch hne
    rw [refillSpare, List.getLast?_eq_some_getLast hne]
    rfl
  obtain ⟨h1, h2⟩ := hplace
  have hledger := h.ledger
  rw [hnone] at hledger
  have hsecond : ∃ batch, refillSpare w.newBuffer2 (w.buffersToWrite.take 2).dropLast =
      some (some .empty, batch) := by
    rcases h2 with ⟨h2, -⟩ | ⟨h2, hlen⟩
    · rw [h2]
      exact ⟨_, rfl⟩
    · have hlen2 := htake 2 (Nat.le_refl 2) hlen
      refine ⟨_, h2 ▸ hfirst _ ?_⟩
      rw [← List.length_pos_iff, List.length_dropLast]
      omega
  have hne : w.buffersToWrite.take 2 ≠ [] := by
    rw [← List.length_pos_iff]
    refine htake 1 (by decide) ?_
    rcases h2 with ⟨-, hlen⟩ | ⟨-, hlen⟩ <;> omega
  obtain ⟨batch, hbatch⟩ := hsecond
  refine ⟨_, by rw [World.refill, h1, hfirst _ hne]; exact congrArg (Option.bind · _) hbatch, ?_⟩
  exact ⟨h.current, h.spare, h.lent, ⟨rfl, rfl, rfl⟩, hledger, h.uncut, h.numbered⟩

theorem isSpare_empty : isSpare (some .empty) = true := rfl

/-- The thread goes on, with what it has in hand and what is left to write as they were. -/
theorem Inv.move (h : w.Inv) {p : Position} (hplace : Place { w with position := p })
    (hunwritten : unwritten { w with position := p } = w.unwritten) :
    Inv { w with position := p } := by
  refine ⟨h.current, h.spare, h.lent, hplace, ?_, h.uncut, h.numbered⟩
  have hledger := h.ledger
  rw [← hunwritten] at hledger
  exact hledger

/-- Wherever the thread is, it goes on, and keeps the invariant. -/
theorem Inv.next (h : w.Inv) (hstarted : w.position ≠ .unstarted) (hexited : w.position ≠ .exited)
    (now : String) : ∃ w', w.next now = some w' ∧ w'.Inv := by
  have hplace := h.place
  rw [World.next]
  rw [Place] at hplace
  cases hp : w.position with
  | unstarted => exact absurd hp hstarted
  | exited => exact absurd hp hexited
  | entry =>
    simp only [hp] at hplace
    have hledger := h.ledger
    rw [unwritten, hp] at hledger
    dsimp only
    rw [assert_pos hplace.1]
    exact ⟨_, rfl, h.current, h.spare, h.lent, ⟨rfl, rfl, hplace.2⟩, hledger, h.uncut, h.numbered⟩
  | test =>
    simp only [hp] at hplace
    have hunwritten : w.unwritten = [] := by rw [unwritten, hp]
    obtain ⟨h1, h2, hbatch⟩ := hplace
    dsimp only
    by_cases hrunning : w.running_ = true
    · rw [if_pos hrunning, assert_pos (h1 ▸ isSpare_empty), assert_pos (h2 ▸ isSpare_empty),
        assert_pos hbatch]
      exact ⟨_, rfl, h.move ⟨h1, h2, hbatch⟩ hunwritten.symm⟩
    · rw [if_neg hrunning]
      exact ⟨_, rfl, h.move True.intro hunwritten.symm⟩
  | lock =>
    simp only [hp] at hplace
    have hunwritten : w.unwritten = [] := by rw [unwritten, hp]
    dsimp only
    by_cases hempty : w.buffers_.isEmpty = true
    · rw [if_pos hempty]
      exact ⟨_, rfl, h.move hplace hunwritten.symm⟩
    · rw [if_neg hempty]
      exact h.swapBuffers hplace.1 hplace.2.1 hplace.2.2 hunwritten
  | waiting =>
    simp only [hp] at hplace
    have hunwritten : w.unwritten = [] := by rw [unwritten, hp]
    exact h.swapBuffers hplace.1 hplace.2.1 hplace.2.2 hunwritten
  | swapped =>
    simp only [hp] at hplace
    have hunwritten : w.unwritten = linesOf w.buffersToWrite := by rw [unwritten, hp]
    have hbatch : w.buffersToWrite ≠ [] := by
      rw [← List.length_pos_iff]
      rcases hplace.1.2 with ⟨-, hlen⟩ | ⟨-, hlen⟩ <;> omega
    dsimp only
    rw [assert_pos hbatch]
    exact ⟨_, rfl, h.cut hplace.1 hplace.2 hunwritten now⟩
  | write i =>
    simp only [hp] at hplace
    dsimp only
    cases hb : w.buffersToWrite[i]? with
    | some b => exact ⟨_, rfl, h.write hp hb⟩
    | none =>
      have hunwritten : w.unwritten = [] := by
        rw [unwritten, hp]
        dsimp only
        rw [List.drop_eq_nil_of_le (List.getElem?_eq_none_iff.mp hb)]
        rfl
      exact ⟨_, rfl, h.move hplace hunwritten.symm⟩
  | refill =>
    simp only [hp] at hplace
    have hunwritten : w.unwritten = [] := by rw [unwritten, hp]
    exact h.refill hplace hunwritten

theorem next_of_stopped (hstopped : w.position = .unstarted ∨ w.position = .exited)
    (now : String) : w.next now = none := by
  rw [World.next]
  rcases hstopped with hp | hp <;> rw [hp]

/-- The step lemma. -/
theorem Inv.step (h : w.Inv) {s : Step} (hshort : w.Short s) (hs : w.step s = some w') :
    w'.Inv := by
  cases s with
  | append logline => exact h.append hshort hs
  | start =>
    obtain ⟨hp, rfl⟩ := eq_of_guarded hs
    have hplace := h.place
    have hledger := h.ledger
    rw [Place, hp] at hplace
    rw [unwritten, hp] at hledger
    exact ⟨h.current, h.spare, h.lent, ⟨rfl, hplace⟩, hledger, h.uncut, h.numbered⟩
  | stop =>
    obtain ⟨⟨-, hentry, -⟩, rfl⟩ := eq_of_guarded hs
    refine ⟨h.current, h.spare, h.lent, ?_, h.ledger, h.uncut, h.numbered⟩
    have hplace := h.place
    rw [Place] at hplace ⊢
    dsimp only
    cases hp : w.position <;> simp only [hp] at hplace ⊢
    case entry => exact absurd hp hentry
    all_goals exact hplace
  | next now =>
    by_cases hstopped : w.position = .unstarted ∨ w.position = .exited
    · exact absurd (hs.symm.trans (next_of_stopped hstopped now)) (Option.some_ne_none _)
    · obtain ⟨hstarted, hexited⟩ := not_or.mp hstopped
      obtain ⟨v, hv, hinv⟩ := h.next hstarted hexited now
      obtain rfl := Option.some.inj (hv.symm.trans hs)
      exact hinv

theorem Inv.nothingLost (h : w.Inv) : w.NothingLost where
  conserved := by
    intro hn
    have hledger := h.ledger
    rw [h.uncut hn] at hledger
    exact hledger.eq_of_nil
  current := by
    obtain ⟨b, hb⟩ := h.current
    exact hb ▸ Option.some_ne_none b
  spares := by
    have hplace := h.place
    rw [Place] at hplace
    rintro (hp | hp) <;> rw [hp] at hplace <;> exact hplace
  asserts := by
    intro hstarted hexited now
    obtain ⟨v, hv, -⟩ := h.next hstarted hexited now
    exact hv ▸ rfl

/-- What the thread shares with its callers, and the lines they have appended. -/
def shared (w : World) :=
  (w.running_, w.currentBuffer_, w.nextBuffer_, w.buffers_, w.appended)

theorem shared_cut (now : String) : (w.cut now).shared = w.shared := by
  rw [World.cut]
  split <;> rfl

theorem refill_spec (hs : w.refill = some w') :
    w'.shared = w.shared ∧ w'.position = .test := by
  obtain ⟨first, -, hs⟩ := Option.bind_eq_some_iff.mp hs
  obtain ⟨second, -, hs⟩ := Option.bind_eq_some_iff.mp hs
  obtain rfl := Option.some.inj hs
  exact ⟨rfl, rfl⟩

/-- What the thread does: before the swap it waits or swaps; elsewhere it touches nothing
that is shared, and comes to the lock only where `running_` is set. -/
theorem next_cases {now : String} (hs : w.next now = some w') :
    (w.position = .lock ∨ w.position = .waiting) ∧
        (w' = { w with position := .waiting } ∨ w.swapBuffers = some w') ∨
      w.position ≠ .lock ∧ w.position ≠ .waiting ∧ w'.shared = w.shared ∧
        w'.position ≠ .unstarted ∧ w'.position ≠ .waiting ∧
          (w'.position = .lock → w.running_ = true) := by
  rw [World.next] at hs
  cases hp : w.position with
  | unstarted => simp [hp] at hs
  | exited => simp [hp] at hs
  | entry =>
    rw [hp] at hs
    obtain ⟨-, -, hs⟩ := Option.bind_eq_some_iff.mp hs
    obtain rfl := Option.some.inj hs
    exact .inr ⟨by decide, by decide, rfl, by simp, by simp, by simp⟩
  | test =>
    rw [hp] at hs
    dsimp only at hs
    split at hs
    next hrunning =>
      obtain ⟨-, -, hs⟩ := Option.bind_eq_some_iff.mp hs
      obtain ⟨-, -, hs⟩ := Option.bind_eq_some_iff.mp hs
      obtain ⟨-, -, hs⟩ := Option.bind_eq_some_iff.mp hs
      obtain rfl := Option.some.inj hs
      exact .inr ⟨by decide, by decide, rfl, by simp, by simp, fun _ => hrunning⟩
    next =>
      obtain rfl := Option.some.inj hs
      exact .inr ⟨by decide, by decide, rfl, by simp, by simp, by simp⟩
  | lock =>
    rw [hp] at hs
    dsimp only at hs
    split at hs
    · exact .inl ⟨.inl rfl, .inl (Option.some.inj hs).symm⟩
    · exact .inl ⟨.inl rfl, .inr hs⟩
  | waiting =>
    rw [hp] at hs
    exact .inl ⟨.inr rfl, .inr hs⟩
  | swapped =>
    rw [hp] at hs
    obtain ⟨-, -, hs⟩ := Option.bind_eq_some_iff.mp hs
    obtain rfl := Option.some.inj hs
    exact .inr ⟨by decide, by decide, shared_cut now, by simp, by simp, by simp⟩
  | write i =>
    rw [hp] at hs
    dsimp only at hs
    split at hs <;> obtain rfl := Option.some.inj hs <;>
      exact .inr ⟨by simp, by simp, rfl, by simp, by simp, by simp⟩
  | refill =>
    rw [hp] at hs
    obtain ⟨hshared, htest⟩ := refill_spec hs
    rw [htest]
    exact .inr ⟨by decide, by decide, hshared, by decide, by decide, by simp⟩

theorem swapBuffers_appended (hs : w.swapBuffers = some w') : w'.appended = w.appended := by
  obtain ⟨-, -, rfl⟩ := Option.map_eq_some_iff.mp hs
  rfl

/-- Only `append` adds a line. -/
theorem next_appended {now : String} (hs : w.next now = some w') : w'.appended = w.appended := by
  rcases next_cases hs with ⟨-, rfl | hswap⟩ | ⟨-, -, hshared, -⟩
  · rfl
  · exact swapBuffers_appended hswap
  · exact congrArg (·.2.2.2.2) hshared

/-- The lines of the `append` calls, in their order. -/
def loglines : List Step → List (List UInt8) :=
  List.filterMap fun
    | .append logline => some logline
    | _ => none

theorem append_appended {logline : List UInt8} (hs : w.append logline = some w') :
    w'.appended = w.appended ++ [⟨w.appended.length, logline⟩] := by
  obtain ⟨-, -, rfl⟩ := Option.map_eq_some_iff.mp hs
  split <;> rfl

theorem step_appended {s : Step} (hs : w.step s = some w') :
    ∃ lines, w'.appended = w.appended ++ lines ∧ lines.map Line.data = loglines [s] := by
  cases s with
  | append logline => exact ⟨_, append_appended hs, rfl⟩
  | start =>
    obtain ⟨-, rfl⟩ := eq_of_guarded hs
    exact ⟨[], (List.append_nil _).symm, rfl⟩
  | stop =>
    obtain ⟨-, rfl⟩ := eq_of_guarded hs
    exact ⟨[], (List.append_nil _).symm, rfl⟩
  | next now => exact ⟨[], (next_appended hs).trans (List.append_nil _).symm, rfl⟩

theorem run_appended {steps : List Step} (hrun : run World.step w steps = some w') :
    w'.appended.map Line.data = w.appended.map Line.data ++ loglines steps := by
  induction steps generalizing w with
  | nil =>
    obtain rfl := Option.some.inj hrun
    exact (List.append_nil _).symm
  | cons s steps ih =>
    obtain ⟨v, hs, hrest⟩ := (run_cons_some World.step).mp hrun
    obtain ⟨lines, happended, hlines⟩ := step_appended hs
    have hsplit : loglines (s :: steps) = loglines [s] ++ loglines steps :=
      List.filterMap_append (l := [s])
    rw [ih hrest, happended, List.map_append, hlines, hsplit, List.append_assoc]

/-- The run lemma. -/
theorem inv_run {steps : List Step} (h : w.Inv) (hshort : StepsMeet World.step Short w steps)
    (hrun : run World.step w steps = some w') : w'.Inv :=
  run_invariant World.step (fun _ _ _ hinv hok hs => hinv.step hok hs) h hshort hrun

/-- In every state of every run, nothing is lost, and nothing overtaken. -/
theorem log_conserved (steps : List Step) (hshort : StepsMeet World.step Short new steps) :
    ∀ w ∈ run World.step new steps, w.NothingLost ∧ w.appended.map Line.data = loglines steps :=
  fun _ hrun => ⟨(inv_run inv_new hshort hrun).nothingLost, run_appended hrun⟩

/-- A line is appended while the thread waits, and another while it writes the first. -/
def twoLines : List Step :=
  [.start, .next "", .next "", .next "", .append [104, 105], .next "", .next "", .append [33],
    .next ""]

theorem log_conserved_twoLines :
    StepsMeet World.step Short new twoLines ∧
      ∃ w ∈ run World.step new twoLines,
        w.written.map Line.data = [[104, 105]] ∧ w.waiting.map Line.data = [[33]] ∧
          w.NothingLost := by
  have hshort : StepsMeet World.step Short new twoLines := by decide
  have hrun : ∃ w ∈ run World.step new twoLines,
      w.written.map Line.data = [[104, 105]] ∧ w.waiting.map Line.data = [[33]] := by decide
  obtain ⟨w, hw, hwritten, hwaiting⟩ := hrun
  exact ⟨hshort, w, hw, hwritten, hwaiting, (log_conserved twoLines hshort w hw).1⟩

end World

end Cnet.Base
