import Cnet.Net.OutputStream

/-!
# The two `send` overloads compared

`send(Buffer*)` against `send(const StringPiece&)` on the same bytes, from the same
reachable connection. Its two `if`s nest the other way, so that its inner test has
no `else` and its outer `else` sends; the overloads agree in the loop thread of a
connected connection, and where nothing can be sent any more.
-/

namespace Cnet.Net

open Cnet.Support

/-- The event records a call or a warning, and nothing the connection did. -/
def Event.bookkeeping : Event → Bool
  | .send _ _ | .accepted _ _ | .gaveUp _ _ => true
  | _ => false

namespace World

/-- The fields of the connection, and what it did: every write, every byte buffered,
every callback. -/
def effect (w : World) : World := { w with trace := w.trace.filter fun e => !e.bookkeeping }

/-- Run functors one after the other, the `i`-th write getting `answer i`. -/
def runFunctors (answer : Nat → WriteResult) : List Functor → World → World
  | [], w => w
  | f :: fs, w => runFunctors (fun i => answer (i + 1)) fs (runFunctor (answer 0) f w)

/-- `EventLoop::doPendingFunctors`: swap the queue out, then run what it held. -/
def doPendingFunctors (answer : Nat → WriteResult) (w : World) : World :=
  runFunctors answer w.pendingFunctors_ { w with pendingFunctors_ := [] }

/-- The messages in the output stream, and behind them those on their way into it. -/
def streamed (w : World) : List Sent :=
  processed w.trace ++ if w.state_ = .kDisconnected then [] else queued w.pendingFunctors_

/-- The contract of `send(Buffer*)`, in terms of `send(const StringPiece&)`. -/
structure SendsAgree (w : World) (t : Thread) (buf : Bytes) : Prop where
  same : ∀ r answer, (doPendingFunctors answer (w.sendBuffer r t buf).1).effect =
    (doPendingFunctors answer (w.send r t buf)).effect
  /-- Accepted exactly when connected: once, behind the thread's earlier messages. -/
  accepted : ∀ r u, ofThread u (w.sendBuffer r t buf).1.streamed =
    ofThread u w.streamed ++ ofThread u (if w.state_ = .kConnected then [(t, buf)] else [])
  emptied : ∀ r, w.state_ = .kConnected → (w.sendBuffer r t buf).2 = []

theorem runFunctors_append (answer : Nat → WriteResult) (fs gs : List Functor) (w : World) :
    runFunctors answer (fs ++ gs) w =
      runFunctors (fun i => answer (i + fs.length)) gs (runFunctors answer fs w) := by
  induction fs generalizing answer w with
  | nil => rfl
  | cons f fs ih =>
    rw [List.cons_append, runFunctors, ih, runFunctors]
    simp only [List.length_cons, Nat.add_assoc]

/-- A closed connection stays closed, and what it does does not depend on the records. -/
theorem runFunctor_closed {w : World} (hd : w.state_ = .kDisconnected) (r : WriteResult)
    (f : Functor) :
    (runFunctor r f w).state_ = .kDisconnected ∧
      ∀ tr, tr.filter (fun e => !e.bookkeeping) = w.trace.filter (fun e => !e.bookkeeping) →
        (runFunctor r f { w with trace := tr }).effect = (runFunctor r f w).effect := by
  cases f with
  | sendInLoop t message =>
    refine ⟨by simp [runFunctor, sendInLoop, hd, record], fun tr htr => ?_⟩
    simp [runFunctor, sendInLoop, hd, record, effect, htr]
  | shutdownInLoop =>
    cases hw : w.channel_.isWriting with
    | true =>
      refine ⟨by simpa [runFunctor, shutdownInLoop, hw] using hd, fun tr htr => ?_⟩
      simp [runFunctor, shutdownInLoop, hw, effect, htr]
    | false =>
      refine ⟨by simpa [runFunctor, shutdownInLoop, hw, record] using hd, fun tr htr => ?_⟩
      simp [runFunctor, shutdownInLoop, hw, record, effect, htr]
  | forceCloseInLoop =>
    refine ⟨by simp [runFunctor, forceCloseInLoop, hd], fun tr htr => ?_⟩
    simp [runFunctor, forceCloseInLoop, hd, effect, htr]
  | startReadInLoop =>
    refine ⟨?_, fun tr htr => ?_⟩
    · simp only [runFunctor, startReadInLoop]
      split <;> exact hd
    · simp only [runFunctor, startReadInLoop]
      split <;> simp [effect, htr]
  | stopReadInLoop =>
    refine ⟨?_, fun tr htr => ?_⟩
    · simp only [runFunctor, stopReadInLoop]
      split <;> exact hd
    · simp only [runFunctor, stopReadInLoop]
      split <;> simp [effect, htr]
  | writeCompleteCallback => exact ⟨hd, fun tr htr => by simp [runFunctor, effect, htr]⟩
  | highWaterMarkCallback n => exact ⟨hd, fun tr htr => by simp [runFunctor, effect, htr]⟩

theorem effect_eq_iff {w w' : World} : w'.effect = w.effect ↔
    w' = { w with trace := w'.trace } ∧
      w'.trace.filter (fun e => !e.bookkeeping) = w.trace.filter (fun e => !e.bookkeeping) := by
  cases w
  cases w'
  simp only [effect, mk.injEq]
  grind

theorem runFunctors_closed {w w' : World} (hd : w.state_ = .kDisconnected)
    (he : w'.effect = w.effect) (answer : Nat → WriteResult) (fs : List Functor) :
    (runFunctors answer fs w).state_ = .kDisconnected ∧
      (runFunctors answer fs w').effect = (runFunctors answer fs w).effect := by
  induction fs generalizing answer w w' with
  | nil => exact ⟨hd, he⟩
  | cons f fs ih =>
    obtain ⟨hfields, htrace⟩ := effect_eq_iff.mp he
    obtain ⟨hclosed, hsame⟩ := runFunctor_closed hd (answer 0) f
    refine ih hclosed ?_ _
    rw [hfields]
    exact hsame _ htrace

theorem sends_agree_closed {w : World} (hd : w.state_ = .kDisconnected) (t : Thread)
    (buf : Bytes) : SendsAgree w t buf := by
  have hs : w.state_ ≠ .kConnected := by rw [hd]; nofun
  refine ⟨fun r answer => ?_, fun r u => ?_, fun r hc => absurd hc hs⟩
  · rw [send_refused hs]
    by_cases ht : t = .loop
    · rw [ht, sendBuffer_loop, sendInLoop_closed (by exact hd)]
      show (runFunctors answer w.pendingFunctors_
        { (w.accept .loop buf).record (.gaveUp .loop buf) with pendingFunctors_ := [] }).effect =
          (runFunctors answer w.pendingFunctors_
            { w.record (.send .loop buf) with pendingFunctors_ := [] }).effect
      refine (runFunctors_closed (by exact hd) ?_ answer w.pendingFunctors_).2
      simp [accept, record, effect, Event.bookkeeping]
    · rw [sendBuffer_other hs ht]
      show (runFunctors answer (w.pendingFunctors_ ++ [.sendInLoop t buf])
        { w.accept t buf with pendingFunctors_ := [] }).effect =
          (runFunctors answer w.pendingFunctors_
            { w.record (.send t buf) with pendingFunctors_ := [] }).effect
      have hsame : effect { w.accept t buf with pendingFunctors_ := [] } =
          effect { w.record (.send t buf) with pendingFunctors_ := [] } := by
        simp [accept, record, effect, Event.bookkeeping]
      have hclosed := runFunctors_closed (by exact hd) hsame answer w.pendingFunctors_
      have hother := runFunctors_closed (w := { w.accept t buf with pendingFunctors_ := [] })
        hd rfl answer w.pendingFunctors_
      rw [runFunctors_append, ← hclosed.2]
      show (sendInLoop _ t buf _).effect = _
      rw [sendInLoop_closed hother.1]
      simp [record, effect, Event.bookkeeping]
  · by_cases ht : t = .loop
    · rw [ht, sendBuffer_loop, sendInLoop_closed (by exact hd)]
      simp [streamed, accept, record, hd, processed, ofThread]
    · rw [sendBuffer_other hs ht]
      simp [streamed, accept, record, queueInLoop, hd, processed, ofThread]

/-- What `sendInLoop` in an open state adds to the stream. -/
theorem streamed_sendInLoop {w : World} (ho : w.state_ ≠ .kDisconnected) (r : WriteResult)
    (t : Thread) (message : Bytes) :
    (w.sendInLoop r t message).streamed =
      processed w.trace ++ [(t, message)] ++ queued w.pendingFunctors_ := by
  obtain ⟨direct, taken, rest, -, he⟩ := outputView_sendInLoop ho r t message
  have hp : processed (w.sendInLoop r t message).trace = processed w.trace ++ [(t, message)] :=
    congrArg OutputView.processed he
  have hq : queued (w.sendInLoop r t message).pendingFunctors_ = queued w.pendingFunctors_ :=
    congrArg OutputView.queued he
  have hs : (w.sendInLoop r t message).state_ ≠ .kDisconnected := by
    have hclosed : ((w.sendInLoop r t message).state_ = .kDisconnected) =
        (w.state_ = .kDisconnected) := congrArg OutputView.closed he
    rwa [ne_eq, hclosed]
  simp [streamed, hp, hq, hs]

/-- From the loop thread of an open connection, the message enters the stream. -/
theorem streamed_sendBuffer_loop {w : World} (h : w.outputView.Conserved)
    (ho : w.state_ ≠ .kDisconnected) (r : WriteResult) (buf : Bytes) (u : Thread) :
    ofThread u (w.sendBuffer r .loop buf).1.streamed =
      ofThread u w.streamed ++ ofThread u [(.loop, buf)] := by
  rw [sendBuffer_loop, streamed_sendInLoop (by exact ho)]
  have hnone := ofThread_eq_nil h.fromOthers
  change ofThread _ (queued w.pendingFunctors_) = [] at hnone
  have hp : processed (w.accept .loop buf).trace = processed w.trace := by
    simp [accept, record, processed]
  rw [hp, streamed, if_neg ho]
  show ofThread u (_ ++ queued w.pendingFunctors_) = _
  simp only [ofThread_append]
  by_cases hu : u = .loop
  · subst hu
    rw [hnone, List.append_nil, List.append_nil]
  · have hother : ofThread u [(Thread.loop, buf)] = [] :=
      ofThread_eq_nil fun y hy he => hu (by rw [← he, List.mem_singleton.mp hy])
    rw [hother, List.append_nil, List.append_nil]

theorem streamed_sendBuffer_other {w : World} (ho : w.state_ ≠ .kDisconnected)
    (hs : w.state_ ≠ .kConnected) {t : Thread} (ht : t ≠ .loop) (r : WriteResult) (buf : Bytes) :
    (w.sendBuffer r t buf).1.streamed = w.streamed ++ [(t, buf)] := by
  rw [sendBuffer_other hs ht]
  simp [streamed, ho, accept, record, queueInLoop, processed, queued, Functor.queued]

theorem ofThread_self (t : Thread) (message : Bytes) :
    ofThread t [(t, message)] = [(t, message)] := by simp [ofThread]

theorem sends_agree_loop {w : World} (h : w.outputView.Conserved) (hs : w.state_ = .kConnected)
    (buf : Bytes) : SendsAgree w .loop buf := by
  refine ⟨fun r answer => ?_, fun r u => ?_, fun r _ => ?_⟩
  · rw [sendBuffer_loop, send_loop hs]
  · rw [streamed_sendBuffer_loop h (by rw [hs]; nofun), if_pos hs]
  · rw [sendBuffer_loop]

/-- Connected, called from another thread: the message never enters the stream. -/
theorem not_sends_agree_other {w : World} (hs : w.state_ = .kConnected) {t : Thread}
    (ht : t ≠ .loop) (buf : Bytes) : ¬ SendsAgree w t buf := by
  intro h
  have hacc := h.accepted (.count 0) t
  rw [sendBuffer_ignored hs ht, if_pos hs, ofThread_self] at hacc
  have hp : processed (w.record (.send t buf)).trace = processed w.trace := by
    simp [record, processed]
  have hsame : (w.record (.send t buf)).streamed = w.streamed := by
    rw [streamed, hp]
    rfl
  rw [hsame] at hacc
  simpa using congrArg List.length hacc

/-- Not yet or no longer connected, but open: the message enters the stream. -/
theorem not_sends_agree_open {w : World} (h : w.outputView.Conserved)
    (ho : w.state_ ≠ .kDisconnected) (hs : w.state_ ≠ .kConnected) (t : Thread) (buf : Bytes) :
    ¬ SendsAgree w t buf := by
  intro hagree
  have hacc := hagree.accepted (.count 0) t
  have hadds : ofThread t (w.sendBuffer (.count 0) t buf).1.streamed =
      ofThread t w.streamed ++ [(t, buf)] := by
    by_cases ht : t = .loop
    · rw [ht, streamed_sendBuffer_loop h ho, ofThread_self]
    · rw [streamed_sendBuffer_other ho hs ht, ofThread_append, ofThread_self]
  rw [hadds, if_neg hs] at hacc
  simpa [ofThread] using congrArg List.length hacc

/-- In every reachable state, for every calling thread and every buffer, the overloads
agree exactly when the loop thread sends on a connected connection, or it is closed. -/
theorem sends_agree_iff {c : Config} {w : World} (hr : Reaches step (new c) w) (t : Thread)
    (buf : Bytes) :
    SendsAgree w t buf ↔
      w.state_ = .kConnected ∧ t.isInLoopThread = true ∨ w.state_ = .kDisconnected := by
  have h : w.outputView.Conserved :=
    reaches_invariant step conserved_step (conserved_new c) hr
  have hloop : t.isInLoopThread = true ↔ t = .loop := by simp [Thread.isInLoopThread]
  rw [hloop]
  constructor
  · intro hagree
    by_cases hd : w.state_ = .kDisconnected
    · exact .inr hd
    · by_cases hs : w.state_ = .kConnected
      · refine .inl ⟨hs, ?_⟩
        by_contra ht
        exact not_sends_agree_other hs ht buf hagree
      · exact absurd hagree (not_sends_agree_open h hd hs t buf)
  · rintro (⟨hs, rfl⟩ | hd)
    · exact sends_agree_loop h hs buf
    · exact sends_agree_closed hd t buf

theorem reaches_established : Reaches step (new {}) (new {}).connectEstablished :=
  ⟨[.connectEstablished], by decide⟩

theorem sends_agree_iff_established :
    Reaches step (new {}) (new {}).connectEstablished ∧
      (SendsAgree (new {}).connectEstablished .loop [120] ↔
        (new {}).connectEstablished.state_ = .kConnected ∧ Thread.loop.isInLoopThread = true ∨
          (new {}).connectEstablished.state_ = .kDisconnected) :=
  ⟨reaches_established, sends_agree_iff reaches_established .loop [120]⟩

/-- Another thread sends a buffer on a connected connection: it is never sent. -/
theorem sends_disagree_otherThread :
    ¬ ∀ (c : Config) (w : World), Reaches step (new c) w →
      ∀ (t : Thread) (buf : Bytes), SendsAgree w t buf := by
  intro h
  have hagree := h {} (new {}).connectEstablished reaches_established (.other 1) [120]
  exact not_sends_agree_other (t := .other 1) rfl nofun [120] hagree

end World

end Cnet.Net
