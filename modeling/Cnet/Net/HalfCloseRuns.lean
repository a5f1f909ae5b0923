import Cnet.Net.HalfClose

/-!
# Half-close between several threads

The connection keeps its word in the runs whose steps are `Orderly`. `send(Buffer*)` breaks
it outside of them, since its outer `else` sends in any state other than `kConnected`; so
does a call that another thread began before `SHUT_WR` and goes on with afterwards.
-/

namespace Cnet.Net.Threads

open Cnet.Support
open Net.World (HalfCloseInv Undisturbed state_sendInLoop state_shutdownInLoop state_handleWrite)

namespace World

/-- The steps that issue `SHUT_WR`. -/
def issues (w : World) : Step → Bool
  | .conn s => w.conn.issues s
  | .next t _ =>
      t.isInLoopThread && w.left.lookup t = some (.closeInLoop .shutdown) &&
        !w.conn.channel_.isWriting
  | _ => false

/-- A call goes on to run or queue `sendInLoop`. -/
def sends (w : World) : Step → Option Bytes
  | .next t _ =>
      match w.left.lookup t with
      | some (.sendInLoop message) => some message
      | _ => none
  | _ => none

/-- The condition on a step, at the state it starts from. -/
structure Orderly (w : World) (s : Step) : Prop where
  /-- No call of `send` goes on with bytes once `SHUT_WR` is out. -/
  noLateSend : ∀ message ∈ w.sends s, issued w.conn.trace → w.conn.state_ ≠ .kDisconnected →
    message = []
  /-- `SHUT_WR` does not overtake a message that is still queued. -/
  queueEmpty : w.issues s = true → w.conn.NothingQueued
  /-- On a closed connection, nothing is pending and nothing was given up. -/
  closedClean : w.issues s = true → w.conn.state_ = .kDisconnected → w.conn.Clean
  /-- Nor where a call sets its state back. -/
  revived : w.revives s = true →
    w.conn.Clean ∧ (issued w.conn.trace → w.conn.NothingQueued)

instance (w : World) (s : Step) : Decidable (w.Orderly s) :=
  decidable_of_iff ((∀ message ∈ w.sends s, issued w.conn.trace →
        w.conn.state_ ≠ .kDisconnected → message = []) ∧
      (w.issues s = true → w.conn.NothingQueued) ∧
      (w.issues s = true → w.conn.state_ = .kDisconnected → w.conn.Clean) ∧
      (w.revives s = true → w.conn.Clean ∧ (issued w.conn.trace → w.conn.NothingQueued)))
    ⟨fun h => ⟨h.1, h.2.1, h.2.2.1, h.2.2.2⟩, fun h => ⟨h.1, h.2, h.3, h.4⟩⟩

/-- A call of `shutdown()` that has yet to run or queue `shutdownInLoop` has set the state. -/
structure Inv (w : World) : Prop where
  conn : HalfCloseInv [] w.conn
  closing : ∀ t, (t, Left.closeInLoop .shutdown) ∈ w.left → w.conn.closing

section conn

variable {c c' : Net.World}

theorem closing_of_eq (h : c.closing) (hs : c'.state_ = c.state_) : c'.closing := by
  rw [Net.World.closing, hs]
  exact h

theorem closing_functor {f : Functor} {rest : List Functor} (h : c.closing)
    (write : WriteResult) :
    (Net.World.runFunctor write f { c with pendingFunctors_ := rest }).closing := by
  have hpop : Net.World.closing { c with pendingFunctors_ := rest } := h
  cases f with
  | sendInLoop t message => exact closing_of_eq hpop (state_sendInLoop write t message _)
  | shutdownInLoop => exact closing_of_eq hpop (state_shutdownInLoop _)
  | forceCloseInLoop => exact (Undisturbed.forceCloseInLoop _).closing hpop
  | startReadInLoop => exact (Undisturbed.startReadInLoop _).closing hpop
  | stopReadInLoop => exact (Undisturbed.stopReadInLoop _).closing hpop
  | writeCompleteCallback => exact hpop
  | highWaterMarkCallback n => exact hpop

theorem closing_resume {f : Frame} {rest : List Frame} (h : c.closing) (read : ReadResult)
    (write : WriteResult) :
    (Net.World.resume read write f { c with frames := rest }).closing := by
  have hpop : Net.World.closing { c with frames := rest } := h
  have hpath := Net.World.resume_path read write f { c with frames := rest }
  generalize Net.World.resume read write f { c with frames := rest } = c' at hpath
  cases hpath with
  | skip => exact hpop
  | hangUp => exact (Undisturbed.handleClose _).closing hpop
  | read => exact (Undisturbed.handleRead read _).closing hpop
  | write => exact closing_of_eq hpop (state_handleWrite write _)
  | closed => exact hpop

end conn

variable {w w' : World}

/-- A step of the connection that is no call which tests `state_`. -/
theorem inv_conn {s : Net.Step} {c : Net.World} (h : HalfCloseInv [] w.conn)
    (ha : w.allows s = true) (hok : w.Orderly (.conn s)) (hs : w.conn.step s = some c) :
    HalfCloseInv [] c ∧ (w.conn.closing → c.closing) := by
  have hstream := Net.World.conserved_step w.conn s c h.stream hs
  have hquiet (hu : Undisturbed w.conn c) : HalfCloseInv [] c ∧ (w.conn.closing → c.closing) :=
    ⟨h.undisturbed hu hstream, hu.closing⟩
  have hqueue := hok.queueEmpty
  cases Net.World.takes_of_step hs with
  | call t u => exact hquiet (.call (allows_call ha) t w.conn)
  | connectEstablished _ hconnecting => exact hquiet (.connectEstablished hconnecting)
  | connectDestroyed _ => exact absurd ha nofun
  | poll _ _ _ _ _ => exact ⟨h.congr rfl rfl rfl rfl rfl, id⟩
  | handleEvent _ _ _ => exact ⟨h.congr rfl rfl rfl rfl rfl, id⟩
  | resume f rest read write hf =>
    exact ⟨Net.World.halfCloseInv_resume h hf read write hqueue,
      fun hc => closing_resume hc read write⟩
  | functor f rest write _ hf =>
    exact ⟨Net.World.halfCloseInv_functor h hf write fun hi => ⟨hqueue hi, hok.closedClean hi⟩,
      fun hc => closing_functor hc write⟩
  | timer _ _ =>
    have hd : HalfCloseInv [] { w.conn with delayed := w.conn.delayed - 1 } :=
      h.congr rfl rfl rfl rfl rfl
    have hu := Undisturbed.forceCloseInLoop { w.conn with delayed := w.conn.delayed - 1 }
    exact ⟨hd.undisturbed hu hstream, hu.closing⟩

theorem conserved_act {c : Net.World} (h : c.outputView.Conserved) (write : WriteResult)
    (t : Thread) (message : Bytes) :
    ((Left.sendInLoop message).act write t c).outputView.Conserved := by
  by_cases ht : t = .loop
  · subst ht
    have hcall := Net.World.conserved_call h .loop (.sendBuffer message write)
    rwa [Net.World.call, Net.World.sendBuffer_loop] at hcall
  · rw [Left.act, Thread.isInLoopThread, decide_eq_false ht]
    exact Net.World.conserved_sendLater h ht message

/-- The next step of a call. -/
theorem inv_act {t : Thread} {l : Left} {write : WriteResult} (h : w.Inv)
    (hl : w.left.lookup t = some l) (hok : w.Orderly (.next t write)) :
    HalfCloseInv [] (l.act write t w.conn) ∧
      (w.conn.closing → (l.act write t w.conn).closing) := by
  cases l with
  | sendInLoop message =>
    have hlate : issued w.conn.trace → w.conn.state_ ≠ .kDisconnected → message = [] :=
      hok.noLateSend message (by simp [sends, hl])
    have hstream := conserved_act h.conn.stream write t message
    by_cases ht : t = .loop
    · subst ht
      refine ⟨(h.conn.accept message).sendInLoop write (fun hi => ?_) hstream,
        fun hc => closing_of_eq hc (state_sendInLoop write .loop message _)⟩
      exact hlate (by simpa [Net.World.accept, Net.World.record, issued] using hi)
    · rw [Left.act, Thread.isInLoopThread, decide_eq_false ht] at hstream ⊢
      exact ⟨h.conn.enqueue hlate hstream, id⟩
  | setState k =>
    have hset : HalfCloseInv [] (w.conn.setState .kDisconnecting) :=
      h.conn.setDisconnecting fun hd => hok.revived (by simp [revives, hl, hd])
    refine ⟨?_, fun _ => .inl (state_setState write t k w.conn)⟩
    rw [Left.act]
    split
    · exact hset.shutdownCalled (.inl rfl)
    · exact hset
  | closeInLoop k =>
    cases k with
    | shutdown =>
      have hc : w.conn.closing := h.closing t (mem_of_lookup hl)
      by_cases ht : t = .loop
      · subst ht
        have hissues (hw : w.conn.channel_.isWriting = false) :
            w.issues (.next .loop write) = true := by
          simp [issues, hl, hw, Thread.isInLoopThread]
        exact ⟨h.conn.shutdownInLoop hc (fun hw => hok.queueEmpty (hissues hw))
            (fun hw => hok.closedClean (hissues hw)),
          fun _ => closing_of_eq hc (state_shutdownInLoop _)⟩
      · rw [Left.act, Thread.isInLoopThread, decide_eq_false ht]
        exact ⟨h.conn.queueShutdown hc, id⟩
    | forceClose =>
      have hu : Undisturbed w.conn (w.conn.queueInLoop .forceCloseInLoop) :=
        .queueInLoop (f := .forceCloseInLoop) (by decide) w.conn
      exact ⟨h.conn.undisturbed hu (Net.World.outputView_queueInLoop (f := .forceCloseInLoop) rfl
        w.conn ▸ h.conn.stream), id⟩
    | forceCloseWithDelay => exact ⟨h.conn.congr rfl rfl rfl rfl rfl, id⟩

theorem inv_goOn {t : Thread} {l : Left} {write : WriteResult} (h : w.Inv)
    (hl : w.left.lookup t = some l) (hok : w.Orderly (.next t write)) :
    (w.goOn t write l).Inv := by
  obtain ⟨hconn, hclosing⟩ := inv_act h hl hok
  refine ⟨hconn, fun u hu => ?_⟩
  rcases mem_goOn hu with hu | ⟨l', hl', he⟩
  · exact hclosing (h.closing u hu)
  · cases l with
    | setState k => exact .inl (state_setState write t k w.conn)
    | _ => exact absurd hl' (by simp [Left.next])

theorem inv_step (w : World) (s : Step) (w' : World) (h : w.Inv) (hok : w.Orderly s)
    (hs : w.step s = some w') : w'.Inv := by
  cases takes_of_step hs with
  | conn s c ha hconn =>
    obtain ⟨hconn, hclosing⟩ := inv_conn h.conn ha hok hconn
    exact ⟨hconn, fun t ht => hclosing (h.closing t ht)⟩
  | test t c l _ hl =>
    refine ⟨h.conn, fun u hu => ?_⟩
    rcases List.mem_append.mp hu with hu | hu
    · exact h.closing u hu
    · obtain ⟨-, rfl⟩ := Prod.mk.inj (List.mem_singleton.mp hu)
      exact absurd hl (not_closeInLoop .shutdown _)
  | refused t c hl =>
    cases c with
    | send message | sendBuffer message =>
      exact ⟨h.conn.undisturbed (.record rfl w.conn) (Net.World.conserved_refused h.conn.stream t
        message), h.closing⟩
    | close k => exact h
  | next t write l hl => exact inv_goOn h hl hok
  | connectDestroyed _ _ => exact ⟨h.conn, h.closing⟩
  | destroyed _ _ | remove _ =>
    have hstream := h.conn.stream.quiet (Net.World.quiet_removeChannel w.conn)
    exact ⟨h.conn.undisturbed (.removeChannel w.conn) hstream, h.closing⟩
  | disconnect _ =>
    have hstream := h.conn.stream.quiet (Net.World.quiet_disconnect w.conn)
    have hu := Undisturbed.disconnect w.conn
    exact ⟨h.conn.undisturbed hu hstream, fun t ht => hu.closing (h.closing t ht)⟩

/-- In every run of orderly steps, every state reached keeps the half-close contract. -/
theorem half_close_of_orderly (c : Config) (steps : List Step)
    (hok : StepsMeet step Orderly (new c) steps) :
    ∀ w ∈ run step (new c) steps, w.conn.HalfClose := by
  intro w hw
  have h0 : (new c).Inv := ⟨Net.World.halfCloseInv_new c, fun _ h => absurd h nofun⟩
  exact (run_invariant step inv_step h0 hok hw).conn.halfClose

/-- Another thread's `send` tests the state before `shutdown()` and queues its byte after it.
Output is pending, so it is the `handleWrite` that drains both that half-closes. -/
def pendingShutdown : List Step :=
  [.conn .connectEstablished, .test (.other 1) (.send [3]), .test .loop (.send [1, 2]),
    .next .loop (.count 1), .test .loop (.close .shutdown), .next .loop (.count 0),
    .next .loop (.count 0), .next (.other 1) (.count 0), .conn (.functor (.count 0)),
    .conn (.poll { pollout := true }), .conn .handleEvent, .conn (.resume .error (.count 2)),
    .conn (.resume .error (.count 2)), .conn (.resume .error (.count 2)),
    .conn (.resume .error (.count 2))]

theorem half_close_of_orderly_pendingShutdown :
    StepsMeet step Orderly (new {}) pendingShutdown ∧
      ∃ w ∈ run step (new {}) pendingShutdown, issued w.conn.trace ∧ w.conn.HalfClose := by
  have hok : StepsMeet step Orderly (new {}) pendingShutdown := by decide
  have hsome : ∃ w ∈ run step (new {}) pendingShutdown, issued w.conn.trace := by decide
  obtain ⟨w, hw, hissued⟩ := hsome
  exact ⟨hok, w, hw, hissued, half_close_of_orderly {} pendingShutdown hok w hw⟩

/-- A `send(Buffer*)` after `shutdown()` has issued `SHUT_WR`. -/
def lateBuffer : List Step :=
  [.conn .connectEstablished, .test .loop (.close .shutdown), .next .loop (.count 0),
    .next .loop (.count 0), .test .loop (.sendBuffer [1]), .next .loop (.count 1)]

theorem half_close_fails_lateBuffer :
    ¬ ∀ (c : Config) (steps : List Step), ∀ w ∈ run step (new c) steps, w.conn.HalfClose := by
  intro h
  have hbad : ∃ w ∈ run step (new {}) lateBuffer, ¬ Silent w.conn.trace := by
    unfold Silent
    decide
  obtain ⟨w, hw, hnot⟩ := hbad
  exact hnot (h {} lateBuffer w hw).silent

end World

end Cnet.Net.Threads
