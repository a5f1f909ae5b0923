import Cnet.Support.Runs
import Cnet.Net.OutputStream

/-!
# High-water-mark and write-complete notifications

With both callbacks set, a step queues the first exactly where the pending output
reaches the mark from below, and the second exactly where a write of its own succeeded
and left nothing pending. Both are read off `Flow`, which most functions leave alone.
-/

namespace Cnet.Net

open Cnet.Support

/-- The length that a high-water-mark notification reports. -/
def Functor.mark : Functor → Option Nat
  | .highWaterMarkCallback n => some n
  | _ => none

/-- A `write(2)` that returned no error. -/
def Event.succeeded : Event → Bool
  | .write _ (.count _) => true
  | _ => false

/-- What the notifications depend on: those queued, the writes that succeeded so far, the
messages that `sendInLoop` took so far, and the length of the pending output. -/
structure Flow where
  marks : List Nat
  completes : Nat
  writes : Nat
  sends : Nat
  pending : Nat

def World.flow (w : World) : Flow where
  marks := w.pendingFunctors_.filterMap Functor.mark
  completes := w.pendingFunctors_.count .writeCompleteCallback
  writes := w.trace.countP Event.succeeded
  sends := (processed w.trace).length
  pending := w.outputBuffer_.length

/-- The high-water-mark notification for a change of the pending output. -/
def crossing (mark before after : Nat) : List Nat :=
  if before < mark ∧ mark ≤ after then [after] else []

theorem crossing_of_ge {mark before after : Nat} (h : after ≤ before) :
    crossing mark before after = [] := if_neg (by omega)

/-- What is queued between two flows. Only `sendInLoop` adds output. -/
structure Flow.Notified (mark : Nat) (v v' : Flow) : Prop where
  marks : v'.marks = v.marks ++ crossing mark v.pending v'.pending
  completes : v'.completes =
    v.completes + if v.writes < v'.writes ∧ v'.pending = 0 then 1 else 0
  sends : v.pending < v'.pending → v.sends < v'.sends

theorem Flow.Notified.refl (mark : Nat) (v : Flow) : v.Notified mark v where
  marks := by rw [crossing_of_ge (Nat.le_refl _), List.append_nil]
  completes := by simp
  sends := fun h => absurd h (Nat.lt_irrefl _)

/-- A message was taken, and some of it is left to write. -/
theorem Flow.Notified.kept (mark : Nat) (v : Flow) (writes : Nat) {rest : Nat} (hrest : 0 < rest) :
    v.Notified mark { v with
      sends := v.sends + 1
      writes := writes
      marks := v.marks ++ crossing mark v.pending (v.pending + rest)
      pending := v.pending + rest } where
  marks := rfl
  completes := by
    rw [if_neg (fun h => by have := h.2; dsimp only at this; omega)]
    rfl
  sends := fun _ => Nat.lt_succ_self _

/-- A message was taken, without a write or with one that failed, and nothing of it kept. -/
theorem Flow.Notified.taken (mark : Nat) (v : Flow) :
    v.Notified mark { v with sends := v.sends + 1 } where
  marks := by rw [crossing_of_ge (Nat.le_refl _), List.append_nil]
  completes := by simp
  sends := fun _ => Nat.lt_succ_self _

/-- A message was taken, and written at once with nothing pending before it. -/
theorem Flow.Notified.whole (mark : Nat) {v : Flow} (h : v.pending = 0) :
    v.Notified mark { v with
      sends := v.sends + 1, writes := v.writes + 1, completes := v.completes + 1 } where
  marks := by rw [crossing_of_ge (Nat.le_refl _), List.append_nil]
  completes := by rw [if_pos ⟨Nat.lt_succ_self _, h⟩]
  sends := fun _ => Nat.lt_succ_self _

/-- Some of the pending output was written, or none. -/
theorem Flow.Notified.wrote (mark : Nat) (v : Flow) (writes : Nat) {pending : Nat}
    (h : pending ≤ v.pending) :
    v.Notified mark { v with
      writes := writes
      pending := pending
      completes := v.completes + if v.writes < writes ∧ pending = 0 then 1 else 0 } where
  marks := by rw [crossing_of_ge h, List.append_nil]
  completes := rfl
  sends := fun hlt => absurd h (Nat.not_le.mpr hlt)

namespace World

/-- A connection with the mark and both callbacks set, which asks for write events only with
output pending. -/
structure Marked (mark : Nat) (w : World) : Prop where
  mark : w.highWaterMark_ = mark
  writeComplete : w.writeCompleteCallback_ = true
  highWater : w.highWaterMarkCallback_ = true
  writing : w.channel_.isWriting = true → w.outputBuffer_ ≠ []

/-- `w'` is `w` but for things the notifications do not depend on. -/
structure SameFlow (w w' : World) : Prop where
  flow : w'.flow = w.flow
  output : w'.outputBuffer_ = w.outputBuffer_
  mark : w'.highWaterMark_ = w.highWaterMark_
  writeComplete : w'.writeCompleteCallback_ = w.writeCompleteCallback_
  highWater : w'.highWaterMarkCallback_ = w.highWaterMarkCallback_
  writing : w'.channel_.isWriting = true → w.channel_.isWriting = true

/-- The step from `w` to `w'` notifies as it should, and the connection stays as it was set. -/
def Notifies (mark : Nat) (w w' : World) : Prop :=
  w.flow.Notified mark w'.flow ∧ w'.Marked mark

variable {mark : Nat} {w w₁ w' : World}

theorem Marked.same (h : w.Marked mark) (hs : w.SameFlow w') : w'.Marked mark where
  mark := hs.mark.trans h.mark
  writeComplete := hs.writeComplete.trans h.writeComplete
  highWater := hs.highWater.trans h.highWater
  writing hw := hs.output ▸ h.writing (hs.writing hw)

theorem Marked.quiet (h : w.Marked mark) (hs : w.SameFlow w') : w.Notifies mark w' :=
  ⟨hs.flow ▸ .refl mark w.flow, h.same hs⟩

theorem SameFlow.refl (w : World) : w.SameFlow w := ⟨rfl, rfl, rfl, rfl, rfl, id⟩

theorem SameFlow.trans (h : w.SameFlow w₁) (h' : w₁.SameFlow w') : w.SameFlow w' where
  flow := h'.flow.trans h.flow
  output := h'.output.trans h.output
  mark := h'.mark.trans h.mark
  writeComplete := h'.writeComplete.trans h.writeComplete
  highWater := h'.highWater.trans h.highWater
  writing hw := h.writing (h'.writing hw)

theorem SameFlow.notifies (h : w.SameFlow w₁) (h' : w₁.Notifies mark w') : w.Notifies mark w' :=
  ⟨h.flow ▸ h'.1, h'.2⟩

theorem Notifies.same (h : w.Notifies mark w₁) (hs : w₁.SameFlow w') : w.Notifies mark w' :=
  ⟨hs.flow ▸ h.1, h.2.same hs⟩

theorem sameFlow_record {e : Event} (hs : e.succeeded = false) (hp : e.processedMessage = [])
    (w : World) : w.SameFlow (w.record e) where
  flow := by
    have hwrites : (w.trace ++ [e]).countP Event.succeeded = w.trace.countP Event.succeeded := by
      simp [hs]
    have hsends : processed (w.trace ++ [e]) = processed w.trace := by
      rw [processed, List.flatMap_append, List.flatMap_singleton, hp, List.append_nil, processed]
    simp only [flow, record, hwrites, hsends]
  output := rfl
  mark := rfl
  writeComplete := rfl
  highWater := rfl
  writing := id

theorem sameFlow_queueInLoop {f : Functor} (hm : f.mark = none) (hc : f ≠ .writeCompleteCallback)
    (w : World) : w.SameFlow (w.queueInLoop f) where
  flow := by simp [flow, queueInLoop, List.filterMap_append, hm, hc]
  output := rfl
  mark := rfl
  writeComplete := rfl
  highWater := rfl
  writing := id

theorem sameFlow_setState (s : StateE) (w : World) : w.SameFlow (w.setState s) :=
  ⟨rfl, rfl, rfl, rfl, rfl, id⟩

theorem sameFlow_accept (t : Thread) (message : Bytes) (w : World) :
    w.SameFlow (w.accept t message) :=
  (sameFlow_record rfl rfl w).trans (sameFlow_record rfl rfl _)

theorem sameFlow_shutdownInLoop (w : World) : w.SameFlow w.shutdownInLoop := by
  unfold shutdownInLoop
  split
  · exact .refl w
  · exact sameFlow_record rfl rfl w

theorem sameFlow_shutdown (t : Thread) (w : World) : w.SameFlow (w.shutdown t) := by
  unfold shutdown
  split
  · have hstate : w.SameFlow ((w.setState .kDisconnecting).record (.shutdown w.outputBuffer_)) :=
      (sameFlow_setState _ w).trans (sameFlow_record rfl rfl _)
    dsimp only
    split
    · exact hstate.trans (sameFlow_shutdownInLoop _)
    · exact hstate.trans (sameFlow_queueInLoop (f := .shutdownInLoop) rfl nofun _)
  · exact .refl w

theorem sameFlow_handleClose (w : World) : w.SameFlow w.handleClose := by
  have hclosed : (w.record (.handleClose w.state_)).SameFlow
      { w.record (.handleClose w.state_) with
        state_ := .kDisconnected, channel_ := w.channel_.disableAll } :=
    ⟨rfl, rfl, rfl, rfl, rfl, nofun⟩
  have hcallback := (sameFlow_record rfl rfl w).trans
    (hclosed.trans (sameFlow_record (e := .connectionCallback false) rfl rfl _))
  exact hcallback.trans ⟨rfl, rfl, rfl, rfl, rfl, id⟩

theorem sameFlow_forceClose (w : World) : w.SameFlow w.forceClose := by
  unfold forceClose
  split
  · exact (sameFlow_setState _ w).trans
      (sameFlow_queueInLoop (f := .forceCloseInLoop) rfl nofun _)
  · exact .refl w

theorem sameFlow_forceCloseWithDelay (w : World) : w.SameFlow w.forceCloseWithDelay := by
  unfold forceCloseWithDelay
  split
  · exact (sameFlow_setState .kDisconnecting w).trans ⟨rfl, rfl, rfl, rfl, rfl, id⟩
  · exact .refl w

theorem sameFlow_forceCloseInLoop (w : World) : w.SameFlow w.forceCloseInLoop := by
  unfold forceCloseInLoop
  split
  · exact sameFlow_handleClose w
  · exact .refl w

theorem sameFlow_startReadInLoop (w : World) : w.SameFlow w.startReadInLoop := by
  unfold startReadInLoop
  split
  · exact ⟨rfl, rfl, rfl, rfl, rfl, by simp⟩
  · exact .refl w

theorem sameFlow_stopReadInLoop (w : World) : w.SameFlow w.stopReadInLoop := by
  unfold stopReadInLoop
  split
  · exact ⟨rfl, rfl, rfl, rfl, rfl, by simp⟩
  · exact .refl w

theorem sameFlow_connectEstablished (w : World) : w.SameFlow w.connectEstablished := by
  have hreading : w.SameFlow
      { w with state_ := .kConnected, channel_ := w.channel_.enableReading } :=
    ⟨rfl, rfl, rfl, rfl, rfl, by simp⟩
  exact hreading.trans (sameFlow_record rfl rfl _)

theorem sameFlow_connectDestroyed (w : World) : w.SameFlow w.connectDestroyed := by
  unfold connectDestroyed
  split
  · have hclosed : w.SameFlow
        { w with state_ := .kDisconnected, channel_ := w.channel_.disableAll } :=
      ⟨rfl, rfl, rfl, rfl, rfl, nofun⟩
    exact (hclosed.trans (sameFlow_record rfl rfl _)).trans ⟨rfl, rfl, rfl, rfl, rfl, by simp⟩
  · exact ⟨rfl, rfl, rfl, rfl, rfl, by simp⟩

theorem sameFlow_handleRead (r : ReadResult) (w : World) : w.SameFlow (w.handleRead r) := by
  cases r with
  | error => exact .refl w
  | bytes data =>
    cases data with
    | nil => exact sameFlow_handleClose w
    | cons b data =>
      have hinput : w.SameFlow { w with inputBuffer_ := w.inputBuffer_ ++ b :: data } :=
        ⟨rfl, rfl, rfl, rfl, rfl, id⟩
      exact hinput.trans (sameFlow_record rfl rfl _)

/-- The end of `sendInLoop`, where something was not written. -/
theorem keepRemaining_queues (h : w.highWaterMarkCallback_ = true) {rest : Bytes}
    (hrest : rest ≠ []) :
    w.keepRemaining rest = { w with
      channel_ := writingChannel rest w.channel_
      outputBuffer_ := w.outputBuffer_ ++ rest
      pendingFunctors_ := w.pendingFunctors_ ++ (crossing w.highWaterMark_ w.outputBuffer_.length
        (w.outputBuffer_.length + rest.length)).map .highWaterMarkCallback
      trace := w.trace ++ [.buffered rest] } := by
  by_cases hcross : w.outputBuffer_.length < w.highWaterMark_ ∧
      w.highWaterMark_ ≤ w.outputBuffer_.length + rest.length
  · rw [crossing, if_pos hcross]
    cases hc : w.channel_.isWriting <;>
      simp [keepRemaining, hrest, hcross, h, writingChannel, hc, queueInLoop, record]
  · rw [crossing, if_neg hcross]
    have hcheck : (decide (w.highWaterMark_ ≤ w.outputBuffer_.length + rest.length) &&
        decide (w.outputBuffer_.length < w.highWaterMark_)) = false := by
      simp only [Bool.and_eq_false_iff, decide_eq_false_iff_not]
      omega
    cases hc : w.channel_.isWriting <;>
      simp [keepRemaining, hrest, hcheck, writingChannel, hc, record]

theorem mark_highWaterMarkCallback (ns : List Nat) :
    (ns.map Functor.highWaterMarkCallback).filterMap Functor.mark = ns ∧
      (ns.map Functor.highWaterMarkCallback).count .writeCompleteCallback = 0 := by
  constructor
  · rw [List.filterMap_map]
    exact List.filterMap_some
  · exact List.count_eq_zero.mpr (by simp)

theorem flow_keepRemaining (h : w.highWaterMarkCallback_ = true) {rest : Bytes}
    (hrest : rest ≠ []) :
    (w.keepRemaining rest).flow = { w.flow with
      marks := w.flow.marks ++ crossing w.highWaterMark_ w.outputBuffer_.length
        (w.outputBuffer_.length + rest.length)
      pending := w.outputBuffer_.length + rest.length } := by
  rw [keepRemaining_queues h hrest]
  simp only [flow, List.filterMap_append, List.count_append, mark_highWaterMarkCallback]
  simp [processed, Event.succeeded]

theorem Marked.keepRemaining (h : w.Marked mark) (rest : Bytes) :
    (w.keepRemaining rest).Marked mark := by
  by_cases hrest : rest = []
  · rwa [World.keepRemaining, if_pos hrest]
  · rw [keepRemaining_queues h.highWater hrest]
    exact ⟨h.mark, h.writeComplete, h.highWater,
      fun _ => List.append_ne_nil_of_right_ne_nil _ hrest⟩

/-- `keepRemaining` after a message was taken, in `u`, from `w`. -/
theorem notifies_keepRemaining {u : World} (hu : u.Marked mark) {rest : Bytes} {writes : Nat}
    (hflow : u.flow = { w.flow with sends := w.flow.sends + 1, writes := writes })
    (hwrites : rest = [] → writes = w.flow.writes) : w.Notifies mark (u.keepRemaining rest) := by
  refine ⟨?_, hu.keepRemaining rest⟩
  by_cases hrest : rest = []
  · rw [keepRemaining, if_pos hrest, hflow, hwrites hrest]
    exact .taken mark w.flow
  · have hlen : u.outputBuffer_.length = w.flow.pending := congrArg Flow.pending hflow
    rw [flow_keepRemaining hu.highWater hrest, hflow, hlen, hu.mark]
    exact .kept mark w.flow writes (List.length_pos_of_ne_nil hrest)

theorem flow_processed (w : World) (t : Thread) (message : Bytes) (direct : Option WriteResult) :
    (w.record (.processed t message direct)).flow =
      { w.flow with sends := w.flow.sends + 1 } := by
  simp [flow, record, processed, Event.succeeded]

theorem flow_write (w : World) (data : Bytes) (r : WriteResult) :
    (w.record (.write data r)).flow = { w.flow with
      writes := w.flow.writes + if Event.succeeded (.write data r) then 1 else 0 } := by
  simp [flow, record, processed, List.countP_singleton]

theorem flow_complete (w : World) : (w.queueInLoop .writeCompleteCallback).flow =
    { w.flow with completes := w.flow.completes + 1 } := by
  simp [flow, queueInLoop, Functor.mark]

theorem flow_output (w : World) (output : Bytes) (c : Channel) :
    World.flow { w with outputBuffer_ := output, channel_ := c } =
      { w.flow with pending := output.length } := rfl

theorem flow_drained (w : World) (output : Bytes) (c : Channel) :
    (World.queueInLoop .writeCompleteCallback
      { w with outputBuffer_ := output, channel_ := c }).flow =
    { w.flow with pending := output.length, completes := w.flow.completes + 1 } :=
  flow_complete _

theorem Marked.record (h : w.Marked mark) (e : Event) : (w.record e).Marked mark :=
  ⟨h.mark, h.writeComplete, h.highWater, h.writing⟩

theorem Marked.sendInLoop (h : w.Marked mark) (r : WriteResult) (t : Thread) (message : Bytes) :
    w.Notifies mark (w.sendInLoop r t message) := by
  unfold World.sendInLoop
  by_cases hclosed : w.state_ = .kDisconnected
  · rw [if_pos hclosed]
    exact h.quiet (sameFlow_record rfl rfl w)
  rw [if_neg hclosed]
  by_cases hdirect : (!w.channel_.isWriting && w.outputBuffer_.isEmpty) = true
  · rw [if_pos hdirect]
    have hempty : w.flow.pending = 0 := by
      have hout := (Bool.and_eq_true_iff.mp hdirect).2
      rw [List.isEmpty_iff] at hout
      show w.outputBuffer_.length = 0
      rw [hout, List.length_nil]
    have hwrote : ((w.record (.processed t message (some r))).record (.write message r)).Marked
      mark := (h.record _).record _
    cases r with
    | count n =>
      dsimp only
      have hflow := flow_write (w.record (.processed t message (some (.count n)))) message
        (.count n)
      rw [flow_processed] at hflow
      by_cases hrest : message.drop (min n message.length) = []
      · rw [if_pos (by simp [hrest, World.record, h.writeComplete]), World.keepRemaining,
          if_pos hrest]
        refine ⟨?_, hwrote.mark, hwrote.writeComplete, hwrote.highWater, hwrote.writing⟩
        rw [flow_complete, hflow]
        exact .whole mark hempty
      · rw [if_neg (by simp [hrest])]
        exact notifies_keepRemaining hwrote hflow fun hnil => absurd hnil hrest
    | error e =>
      dsimp only
      have hflow := flow_write (w.record (.processed t message (some (.error e)))) message
        (.error e)
      rw [flow_processed] at hflow
      split
      · refine ⟨?_, hwrote⟩
        rw [hflow]
        exact .taken mark w.flow
      · exact notifies_keepRemaining hwrote hflow fun _ => rfl
  · rw [if_neg hdirect]
    exact notifies_keepRemaining (h.record _) (flow_processed w t message none) fun _ => rfl

theorem succeeded_of_nwrote {r : WriteResult} {data : Bytes} (h : 0 < r.nwrote data.length) :
    Event.succeeded (.write data r) = true := by
  cases r with
  | count n => rfl
  | error e => exact absurd h (Nat.lt_irrefl 0)

/-- A write of `handleWrite` that leaves nothing pending. -/
theorem Marked.drained (h : w.Marked mark) {r : WriteResult}
    (hn : 0 < r.nwrote w.outputBuffer_.length)
    (hrest : w.outputBuffer_.drop (r.nwrote w.outputBuffer_.length) = []) :
    w.Notifies mark (World.queueInLoop .writeCompleteCallback
      { w.record (.write w.outputBuffer_ r) with
        outputBuffer_ := w.outputBuffer_.drop (r.nwrote w.outputBuffer_.length)
        channel_ := w.channel_.disableWriting }) := by
  refine ⟨?_, h.mark, h.writeComplete, h.highWater, fun hwriting => ?_⟩
  · have hflow := flow_write w w.outputBuffer_ r
    have hall := flow_drained (w.record (.write w.outputBuffer_ r))
      (w.outputBuffer_.drop (r.nwrote w.outputBuffer_.length)) w.channel_.disableWriting
    have hlen : (w.outputBuffer_.drop (r.nwrote w.outputBuffer_.length)).length = 0 :=
      List.length_eq_zero_iff.mpr hrest
    rw [succeeded_of_nwrote hn, if_pos rfl] at hflow
    rw [hflow, hlen] at hall
    have hwrote := Flow.Notified.wrote mark w.flow (w.flow.writes + 1) (Nat.zero_le _)
    rw [if_pos ⟨Nat.lt_succ_self _, rfl⟩] at hwrote
    exact hall ▸ hwrote
  · exact absurd hwriting (by simp [queueInLoop])

/-- A write of `handleWrite` that leaves some output pending, and may have taken none. -/
theorem Marked.part (h : w.Marked mark) (r : WriteResult)
    (hrest : w.outputBuffer_.drop (r.nwrote w.outputBuffer_.length) ≠ []) :
    w.Notifies mark { w.record (.write w.outputBuffer_ r) with
      outputBuffer_ := w.outputBuffer_.drop (r.nwrote w.outputBuffer_.length) } := by
  refine ⟨?_, h.mark, h.writeComplete, h.highWater, fun _ => hrest⟩
  have hflow := flow_write w w.outputBuffer_ r
  have hpart := flow_output (w.record (.write w.outputBuffer_ r))
    (w.outputBuffer_.drop (r.nwrote w.outputBuffer_.length)) w.channel_
  have hle : (w.outputBuffer_.drop (r.nwrote w.outputBuffer_.length)).length ≤
      w.flow.pending := by
    rw [List.length_drop]
    exact Nat.sub_le _ _
  have hwrote := Flow.Notified.wrote mark w.flow
    (w.flow.writes + if Event.succeeded (.write w.outputBuffer_ r) then 1 else 0) hle
  rw [if_neg fun hnone => hrest (List.length_eq_zero_iff.mp hnone.2)] at hwrote
  rw [hflow] at hpart
  exact hpart ▸ hwrote

theorem Marked.handleWrite (h : w.Marked mark) (r : WriteResult) :
    w.Notifies mark (w.handleWrite r) := by
  unfold World.handleWrite
  by_cases hw : w.channel_.isWriting = true
  swap
  · rw [if_neg hw]
    exact h.quiet (.refl w)
  rw [if_pos hw]
  dsimp only
  split
  · case isTrue hn =>
    split
    · case isTrue hrest =>
      have hset : (w.record (.write w.outputBuffer_ r)).writeCompleteCallback_ = true :=
        h.writeComplete
      rw [if_pos hset]
      split
      · exact (h.drained hn hrest).same (sameFlow_shutdownInLoop _)
      · exact h.drained hn hrest
    · case isFalse hrest => exact h.part r hrest
  · case isFalse hn =>
    have hzero : r.nwrote w.outputBuffer_.length = 0 := Nat.eq_zero_of_not_pos hn
    have hpart := h.part r (by rw [hzero]; exact h.writing hw)
    rw [hzero] at hpart
    exact hpart

theorem Marked.call (h : w.Marked mark) (t : Thread) (c : UserCall) :
    w.Notifies mark (w.call t c) := by
  have haccepted (message : Bytes) (r : WriteResult) :
      w.Notifies mark ((w.accept .loop message).sendInLoop r .loop message) :=
    have hsame := sameFlow_accept .loop message w
    hsame.notifies ((h.same hsame).sendInLoop r .loop message)
  have hqueued (t : Thread) (message : Bytes) :
      w.SameFlow ((w.accept t message).queueInLoop (.sendInLoop t message)) :=
    (sameFlow_accept t message w).trans
      (sameFlow_queueInLoop (f := .sendInLoop t message) rfl nofun _)
  have hpath := call_path t c w
  generalize w.call t c = w' at hpath
  cases hpath with
  | sendNow message r _ => exact haccepted message r
  | sendBufferNow buf r => exact haccepted buf r
  | sendLater t message _ _ _ => exact h.quiet (hqueued t message)
  | sendBufferLater t buf _ _ _ => exact h.quiet (hqueued t buf)
  | sendRefused | sendBufferIgnored => exact h.quiet (sameFlow_record rfl rfl w)
  | shutdown t => exact h.quiet (sameFlow_shutdown t w)
  | forceClose => exact h.quiet (sameFlow_forceClose w)
  | forceCloseWithDelay => exact h.quiet (sameFlow_forceCloseWithDelay w)
  | startReadNow => exact h.quiet (sameFlow_startReadInLoop w)
  | startReadLater =>
    exact h.quiet (sameFlow_queueInLoop (f := .startReadInLoop) rfl nofun w)
  | stopReadNow => exact h.quiet (sameFlow_stopReadInLoop w)
  | stopReadLater => exact h.quiet (sameFlow_queueInLoop (f := .stopReadInLoop) rfl nofun w)
  | retrieveInput => exact h.quiet ⟨rfl, rfl, rfl, rfl, rfl, id⟩

theorem Marked.resume (h : w.Marked mark) (read : ReadResult) (write : WriteResult) (f : Frame) :
    w.Notifies mark (w.resume read write f) := by
  have hpath := resume_path read write f w
  generalize w.resume read write f = w' at hpath
  cases hpath with
  | skip => exact h.quiet (.refl w)
  | hangUp => exact h.quiet (sameFlow_handleClose w)
  | read => exact h.quiet (sameFlow_handleRead read w)
  | write => exact h.handleWrite write
  | closed => exact h.quiet (sameFlow_record rfl rfl w)

theorem Marked.runFunctor (h : w.Marked mark) (write : WriteResult) (f : Functor) :
    w.Notifies mark (w.runFunctor write f) := by
  cases f with
  | sendInLoop sender message => exact h.sendInLoop write sender message
  | shutdownInLoop => exact h.quiet (sameFlow_shutdownInLoop w)
  | forceCloseInLoop => exact h.quiet (sameFlow_forceCloseInLoop w)
  | startReadInLoop => exact h.quiet (sameFlow_startReadInLoop w)
  | stopReadInLoop => exact h.quiet (sameFlow_stopReadInLoop w)
  | writeCompleteCallback => exact h.quiet (.refl w)
  | highWaterMarkCallback n => exact h.quiet (.refl w)

/-- The connection without the functor that the step takes from the queue. -/
def take (s : Step) (w : World) : World :=
  match s with
  | .functor _ => { w with pendingFunctors_ := w.pendingFunctors_.tail }
  | _ => w

theorem Marked.step (w : World) (s : Step) (w' : World) (h : w.Marked mark)
    (hs : w.step s = some w') : (w.take s).Notifies mark w' := by
  cases takes_of_step hs with
  | call t c => exact h.call t c
  | connectEstablished _ _ => exact h.quiet (sameFlow_connectEstablished w)
  | connectDestroyed _ => exact h.quiet (sameFlow_connectDestroyed w)
  | poll _ _ _ _ _ => exact h.quiet ⟨rfl, rfl, rfl, rfl, rfl, id⟩
  | handleEvent _ _ _ => exact h.quiet ⟨rfl, rfl, rfl, rfl, rfl, id⟩
  | resume f rest read write _ =>
    have hpop : w.SameFlow { w with frames := rest } := ⟨rfl, rfl, rfl, rfl, rfl, id⟩
    exact hpop.notifies ((h.same hpop).resume read write f)
  | functor f rest write _ hf =>
    have hpop : w.take (.functor write) = { w with pendingFunctors_ := rest } := by
      simp only [take, hf, List.tail_cons]
    have hmarked : World.Marked mark { w with pendingFunctors_ := rest } :=
      ⟨h.mark, h.writeComplete, h.highWater, h.writing⟩
    rw [hpop]
    exact hmarked.runFunctor write f
  | timer _ _ =>
    have hexpired : w.SameFlow { w with delayed := w.delayed - 1 } :=
      ⟨rfl, rfl, rfl, rfl, rfl, id⟩
    exact h.quiet (hexpired.trans (sameFlow_forceCloseInLoop _))

/-- The owner sets the mark and both callbacks. -/
def notifying (mark : Nat) : Config where
  highWaterMark := mark
  writeComplete := true
  highWater := true

theorem marked_new (mark : Nat) : (new (notifying mark)).Marked mark := ⟨rfl, rfl, rfl, nofun⟩

/-- The step queues a high-water-mark notification. -/
def QueuesMark (w : World) (s : Step) (w' : World) : Prop :=
  (w.take s).flow.marks.length < w'.flow.marks.length

theorem take_output (s : Step) (w : World) : (w.take s).flow.pending = w.outputBuffer_.length := by
  cases s <;> rfl

theorem crosses_of_queues {s : Step} (h : (w.take s).flow.Notified mark w'.flow)
    (hq : w.QueuesMark s w') :
    w.outputBuffer_.length < mark ∧ mark ≤ w'.outputBuffer_.length := by
  have hlen := congrArg List.length h.marks
  rw [List.length_append, take_output, crossing] at hlen
  by_contra hno
  rw [if_neg (by exact hno), List.length_nil] at hlen
  exact absurd hq (by rw [QueuesMark]; omega)

/-- In every run, every step queues what it should; and of two steps that queue a
high-water-mark notification, the first leaves the pending output at the mark or above, and
the second finds it below. -/
theorem notifications_exact (mark : Nat) :
    (∀ steps, EveryStep step (fun w s w' => (w.take s).flow.Notified mark w'.flow)
      (new (notifying mark)) steps) ∧
    ∀ before s between s', ∀ w ∈ run step (new (notifying mark)) before, ∀ v ∈ w.step s,
      ∀ w' ∈ run step v between, ∀ v' ∈ w'.step s', w.QueuesMark s v → w'.QueuesMark s' v' →
        mark ≤ v.outputBuffer_.length ∧ w'.outputBuffer_.length < mark := by
  constructor
  · exact everyStep_invariant step Marked.step (marked_new mark)
  · intro before s between s' w hw v hv w' hw' v' hv' hq hq'
    have hkept (w : World) (s : Step) (w' : World) (h : w.Marked mark) (hs : w.step s = some w') :
        w'.Marked mark := (h.step w s w' hs).2
    have hmarked : w.Marked mark := reaches_invariant step hkept (marked_new mark) ⟨before, hw⟩
    have hfirst := hmarked.step w s v hv
    have hlater : w'.Marked mark := reaches_invariant step hkept hfirst.2 ⟨between, hw'⟩
    exact ⟨(crosses_of_queues hfirst.1 hq).2,
      (crosses_of_queues (hlater.step w' s' v' hv').1 hq').1⟩

/-- Three bytes reach a mark of two and are drained; one more byte is written at once. -/
example : (run step (new (notifying 2))
    [.connectEstablished, .call .loop (.send [1, 2, 3] (.count 0)), .poll { pollout := true },
      .handleEvent, .resume .error (.count 0), .resume .error (.count 0),
      .resume .error (.count 0), .resume .error (.count 3),
      .call .loop (.send [4] (.count 1))]).map World.pendingFunctors_ =
    some [.highWaterMarkCallback 3, .writeCompleteCallback, .writeCompleteCallback] := by decide

end World

end Cnet.Net
