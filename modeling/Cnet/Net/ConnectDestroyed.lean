import Cnet.Net.ClosedChannel

/-!
# What `connectDestroyed` finishes

It closes a connected channel and notifies the user, and leaves to `handleClose` a
connection that was closed before. One that is half-closed, or waits for its
`forceCloseInLoop`, it neither closes nor reports.
-/

namespace Cnet.Net

open Cnet.Support
open Threads (isTested)

/-- The down notifications that the user was given. -/
def downs (trace : List Event) : Nat := (connections trace).count false

theorem connections_append (l l' : List Event) :
    connections (l ++ l') = connections l ++ connections l' := List.filterMap_append ..

theorem connections_events {es : List Event} (h : ∀ e ∈ es, e.isLife = false) (l : List Event) :
    connections (l ++ es) = connections l := by
  rw [← connections_life, World.life_events h, connections_life]

namespace World

/-- The connection is closed for good, and its user knows. `remove` found the events that
the channel has. -/
structure Finished (w : World) : Prop where
  state : w.state_ = .kDisconnected
  removed : w.channel_.isNoneEvent = true
  down : downs w.trace = 1

instance (w : World) : Decidable w.Finished :=
  decidable_of_iff (w.state_ = .kDisconnected ∧ w.channel_.isNoneEvent = true ∧ downs w.trace = 1)
    ⟨fun h => ⟨h.1, h.2.1, h.2.2⟩, fun h => ⟨h.1, h.2, h.3⟩⟩

/-- What a step does to the connection callbacks. -/
inductive Turn (w w' : World) : Prop
  | stay (hs : w'.state_ = w.state_ ∨ w.isOpen ∧ w'.isOpen)
      (hc : connections w'.trace = connections w.trace)
  | up (hs : w.state_ = .kConnecting) (hs' : w'.state_ = .kConnected)
      (hc : connections w'.trace = connections w.trace ++ [true])
  | down (hs : w.state_ ≠ .kDisconnected) (hs' : w'.state_ = .kDisconnected)
      (hc : connections w'.trace = connections w.trace ++ [false])

/-- The down notification is given when the connection closes. -/
structure Counted (w : World) : Prop where
  unwatching : w.Unwatching
  notYet : w.state_ ≠ .kDisconnected → downs w.trace = 0
  once : w.state_ = .kDisconnected → downs w.trace = 1

variable {w w' : World}

theorem Turn.of_same {u : World} (h : u.Turn w') (hs : u.state_ = w.state_)
    (hc : connections u.trace = connections w.trace) : w.Turn w' := by
  cases h with
  | stay hs' hc' =>
    refine .stay (hs'.imp (fun he => he.trans hs) fun ho => ⟨?_, ho.2⟩) (hc'.trans hc)
    rw [isOpen, ← hs]
    exact ho.1
  | up h h' hc' => exact .up (hs.symm.trans h) h' (hc ▸ hc')
  | down h h' hc' => exact .down (hs ▸ h) h' (hc ▸ hc')

/-- The events that were added are no connection callbacks. -/
theorem Turn.quiet (hs : w'.state_ = w.state_) {es : List Event} (ht : w'.trace = w.trace ++ es)
    (h : ∀ e ∈ es, e.isLife = false) : w.Turn w' :=
  .stay (.inl hs) (by rw [ht, connections_events h])

theorem Turn.same (hs : w'.state_ = w.state_) (ht : w'.trace = w.trace) : w.Turn w' :=
  .stay (.inl hs) (by rw [ht])

theorem Turn.counted (h : w.Turn w') (hw : w.Counted) (hwatch : w'.Unwatching) : w'.Counted := by
  cases h with
  | stay hs hc =>
    have hclosed : w'.state_ = .kDisconnected ↔ w.state_ = .kDisconnected := by
      rcases hs with hs | ⟨ho, ho'⟩
      · rw [hs]
      · exact ⟨fun h => absurd h (isOpen_ne ho'), fun h => absurd h (isOpen_ne ho)⟩
    have hdowns : downs w'.trace = downs w.trace := by rw [downs, hc, downs]
    refine ⟨hwatch, fun h => ?_, fun h => ?_⟩
    · exact hdowns.trans (hw.notYet fun hd => h (hclosed.mpr hd))
    · exact hdowns.trans (hw.once (hclosed.mp h))
  | up hs hs' hc =>
    have hzero := hw.notYet (by rw [hs]; nofun)
    refine ⟨hwatch, fun _ => ?_, fun h => absurd (hs'.symm.trans h) nofun⟩
    rw [downs, hc, List.count_append, ← downs, hzero]
    rfl
  | down hs hs' hc =>
    have hzero := hw.notYet hs
    refine ⟨hwatch, fun h => absurd hs' h, fun _ => ?_⟩
    rw [downs, hc, List.count_append, ← downs, hzero]
    rfl

theorem Counted.same (hw : w.Counted) (hs : w'.state_ = w.state_) (ht : w'.trace = w.trace)
    (hwatch : w'.Unwatching) : w'.Counted := (Turn.same hs ht).counted hw hwatch

theorem Turn.closed (h : w.Turn w') (hc : w.state_ = .kDisconnected) :
    w'.state_ = .kDisconnected := by
  cases h with
  | stay hs _ =>
    rcases hs with hs | ⟨ho, -⟩
    · exact hs.trans hc
    · exact absurd hc (isOpen_ne ho)
  | up hs _ _ => exact absurd (hs.symm.trans hc) nofun
  | down hs _ _ => exact absurd hc hs

theorem turn_record {e : Event} (he : e.isLife = false) (w : World) : w.Turn (w.record e) :=
  .quiet rfl rfl fun _ hm => List.mem_singleton.mp hm ▸ he

theorem turn_sendInLoop (r : WriteResult) (t : Thread) (message : Bytes) (w : World) :
    w.Turn (w.sendInLoop r t message) := by
  by_cases hc : w.state_ = .kDisconnected
  · rw [sendInLoop_closed hc]
    exact turn_record rfl w
  · obtain ⟨direct, events, rest, q, hpath, -, he⟩ := sendInLoop_open hc r t message
    have hevents : events = [] ∨ events = [.write message r] := by cases hpath <;> simp
    rw [he]
    refine .quiet rfl (List.append_assoc _ _ _) ?_
    rcases hevents with rfl | rfl <;> split <;> simp [Event.isLife]

theorem turn_handleClose (h : w.state_ ≠ .kDisconnected) : w.Turn w.handleClose := by
  refine .down h rfl ?_
  have htrace : w.handleClose.trace =
      w.trace ++ [.handleClose w.state_, .connectionCallback false] := by
    simp [World.handleClose, World.record, connected]
  rw [htrace, connections_append]
  rfl

theorem turn_shutdownInLoop (w : World) : w.Turn w.shutdownInLoop := by
  unfold shutdownInLoop
  split
  · exact .same rfl rfl
  · exact turn_record rfl w

theorem turn_forceCloseInLoop (w : World) : w.Turn w.forceCloseInLoop := by
  unfold forceCloseInLoop
  split
  · next hs => exact turn_handleClose (open_of_forceClose hs)
  · exact .same rfl rfl

theorem turn_startReadInLoop (w : World) : w.Turn w.startReadInLoop := by
  unfold startReadInLoop
  split <;> exact .same rfl rfl

theorem turn_stopReadInLoop (w : World) : w.Turn w.stopReadInLoop := by
  unfold stopReadInLoop
  split <;> exact .same rfl rfl

theorem turn_connectEstablished (h : w.state_ = .kConnecting) : w.Turn w.connectEstablished :=
  .up h rfl (connections_append w.trace [.connectionCallback true])

theorem turn_disconnect (h : w.state_ ≠ .kDisconnected) : w.Turn w.disconnect :=
  .down h rfl (connections_append w.trace [.connectionCallback false])

theorem turn_handleRead {r : ReadResult} (h : r = .bytes [] → w.state_ ≠ .kDisconnected) :
    w.Turn (w.handleRead r) := by
  cases r with
  | error => exact .same rfl rfl
  | bytes data =>
    cases data with
    | nil => exact turn_handleClose (h rfl)
    | cons b data =>
      refine .stay (.inl rfl) ?_
      show connections (w.trace ++ [.messageCallback]) = connections w.trace
      rw [connections_append]
      exact List.append_nil _

theorem turn_handleWrite (r : WriteResult) (w : World) : w.Turn (w.handleWrite r) := by
  have hpath := handleWrite_path r w
  generalize w.handleWrite r = w' at hpath
  cases hpath with
  | idle _ => exact .same rfl rfl
  | stuck _ _ => exact turn_record rfl w
  | part _ _ _ => exact .quiet rfl rfl (by simp [Event.isLife])
  | drained _ _ _ _ _ =>
    refine .quiet rfl rfl ?_
    split <;> simp [Event.isLife]

theorem turn_accept (t : Thread) (message : Bytes) (w : World) : w.Turn (w.accept t message) :=
  .quiet rfl (List.append_assoc w.trace [.send t message] [.accepted t message])
    (by simp [Event.isLife])

/-- A call that does not look at `state_`. -/
theorem turn_call {c : UserCall} (hc : isTested c = false) (t : Thread) (w : World) :
    w.Turn (w.call t c) := by
  cases c with
  | startRead =>
    simp only [call, startRead]
    split
    · exact turn_startReadInLoop w
    · exact .same rfl rfl
  | stopRead =>
    simp only [call, stopRead]
    split
    · exact turn_stopReadInLoop w
    · exact .same rfl rfl
  | retrieveInput n => exact .same rfl rfl
  | _ => exact absurd hc (by simp [isTested])

theorem turn_runFunctor (write : WriteResult) (f : Functor) (w : World) :
    w.Turn (w.runFunctor write f) := by
  cases f with
  | sendInLoop t message => exact turn_sendInLoop write t message w
  | shutdownInLoop => exact turn_shutdownInLoop w
  | forceCloseInLoop => exact turn_forceCloseInLoop w
  | startReadInLoop => exact turn_startReadInLoop w
  | stopReadInLoop => exact turn_stopReadInLoop w
  | writeCompleteCallback => exact .same rfl rfl
  | highWaterMarkCallback n => exact .same rfl rfl

theorem turn_resume {f : Frame} {rest : List Frame} (hf : w.frames = f :: rest)
    {read : ReadResult} {write : WriteResult}
    (h : w.hangsUp (.resume read write) = true → w.state_ ≠ .kDisconnected) :
    w.Turn (resume read write f { w with frames := rest }) := by
  have hpath := resume_path read write f { w with frames := rest }
  generalize World.resume read write f { w with frames := rest } = w' at hpath
  suffices hturn : Turn { w with frames := rest } w' from hturn.of_same rfl rfl
  cases hpath with
  | skip => exact .same rfl rfl
  | hangUp revents hup => exact turn_handleClose (h (hangsUp_checkHup hf hup read write))
  | read revents hread =>
    refine turn_handleRead fun hnil => ?_
    subst hnil
    exact h (hangsUp_checkRead hf hread write)
  | write => exact turn_handleWrite write _
  | closed =>
    refine .stay (.inl rfl) ?_
    show connections (w.trace ++ [.closeCallback]) = connections w.trace
    rw [connections_append]
    exact List.append_nil _

/-- A step that neither reads on a closed connection nor closes it again. -/
theorem turn_step {s : Step} (hlast : s ≠ .connectDestroyed)
    (hcall : ∀ t c, s = .call t c → isTested c = false)
    (hok : w.state_ = .kDisconnected → w.reopens s = false) (hs : w.step s = some w') :
    w.Turn w' := by
  have hopen (hup : w.hangsUp s = true) : w.state_ ≠ .kDisconnected := by
    intro hc
    have hno := hok hc
    rw [reopens, hup, Bool.or_true] at hno
    exact absurd hno.symm Bool.false_ne_true
  cases takes_of_step hs with
  | call t c => exact turn_call (hcall t c rfl) t w
  | connectEstablished _ hconnecting => exact turn_connectEstablished hconnecting
  | connectDestroyed _ => exact absurd rfl hlast
  | poll _ _ _ _ _ => exact .same rfl rfl
  | handleEvent _ _ _ => exact .same rfl rfl
  | resume f rest read write hf => exact turn_resume hf hopen
  | functor f rest write _ _ => exact (turn_runFunctor write f _).of_same rfl rfl
  | timer _ _ => exact (turn_forceCloseInLoop _).of_same rfl rfl

theorem unwatching_step {s : Step} (hw : w.Unwatching) (hlast : s ≠ .connectDestroyed)
    (hcall : ∀ t c, s = .call t c → isTested c = false)
    (hok : w.state_ = .kDisconnected → w.reopens s = false) (hs : w.step s = some w') :
    w'.Unwatching := by
  by_cases htouches : w.state_ = .kDisconnected → w.touches s = false
  · exact (lasts_step hw hlast hcall htouches hs).unwatching hw
  · simp only [Classical.not_imp, Bool.not_eq_false] at htouches
    obtain ⟨hclosed, htouch⟩ := htouches
    rw [World.touches, hok hclosed, Bool.false_or, Bool.and_eq_true] at htouch
    exact unwatching_stopRead hw hclosed htouch.1 hs

theorem Counted.setDisconnecting (h : w.Counted) (hopen : w.state_ ≠ .kDisconnected) :
    (w.setState .kDisconnecting).Counted := ⟨nofun, fun _ => h.notYet hopen, nofun⟩

theorem Counted.finished (h : w.Counted) (hs : w.state_ = .kDisconnected) :
    w.removeChannel.Finished := ⟨hs, h.unwatching hs, h.once hs⟩

theorem counted_new (c : Config) : (new c).Counted := ⟨nofun, fun _ => rfl, nofun⟩

end World

namespace Threads.World

/-- On a closed connection, the step starts to read or a handler closes it again. -/
def reopens (w : World) : Step → Bool
  | .conn s => w.conn.state_ = .kDisconnected && w.conn.reopens s
  | _ => false

/-- A closed connection stays as it is, but for what takes events away. -/
structure StaysClosed (w : World) (s : Step) : Prop where
  reopens : w.reopens s = false
  revives : w.revives s = false

instance (w : World) (s : Step) : Decidable (w.StaysClosed s) :=
  decidable_of_iff (w.reopens s = false ∧ w.revives s = false)
    ⟨fun h => ⟨h.1, h.2⟩, fun h => ⟨h.1, h.2⟩⟩

/-- The last step of `connectDestroyed` leaves an established connection finished. -/
def Finishes (w : World) (s : Step) (w' : World) : Prop :=
  w.removes s = true → w.conn.state_ ≠ .kConnecting → w'.conn.Finished

instance (w : World) (s : Step) (w' : World) : Decidable (w.Finishes s w') :=
  inferInstanceAs (Decidable (_ → _ → _))

/-- `connectDestroyed` does not find the connection half-closed or waiting to be closed. -/
def NotClosing (w : World) (s : Step) : Prop :=
  s = .connectDestroyed → w.conn.state_ ≠ .kDisconnecting

instance (w : World) (s : Step) : Decidable (w.NotClosing s) :=
  inferInstanceAs (Decidable (_ → _))

variable {w w' : World}

theorem counted_act {t : Thread} {l : Left} (write : WriteResult) (h : w.conn.Counted)
    (hl : w.left.lookup t = some l) (hrevives : w.revives (.next t write) = false) :
    (l.act write t w.conn).Counted := by
  have hwatch := (lasts_act write hl hrevives).unwatching h.unwatching
  cases l with
  | sendInLoop message =>
    have haccept := (Net.World.turn_accept t message w.conn).counted h h.unwatching
    simp only [Left.act] at hwatch ⊢
    split at hwatch
    · next ht =>
      rw [if_pos ht]
      exact (Net.World.turn_sendInLoop write t message _).counted haccept hwatch
    · next ht =>
      rw [if_neg ht]
      exact haccept.same rfl rfl hwatch
  | setState k =>
    have hopen : w.conn.state_ ≠ .kDisconnected := by simpa [revives, hl] using hrevives
    have hset := h.setDisconnecting hopen
    simp only [Left.act] at hwatch ⊢
    split at hwatch
    · next hk =>
      rw [if_pos hk]
      exact (Net.World.turn_record rfl _).counted hset hwatch
    · next hk =>
      rw [if_neg hk]
      exact hset
  | closeInLoop k =>
    cases k with
    | shutdown =>
      simp only [Left.act] at hwatch ⊢
      split at hwatch
      · next ht =>
        rw [if_pos ht]
        exact (Net.World.turn_shutdownInLoop _).counted h hwatch
      · next ht =>
        rw [if_neg ht]
        exact h.same rfl rfl hwatch
    | _ => exact h.same rfl rfl hwatch

theorem counted_step {s : Step} (h : w.conn.Counted) (hp : w.Phase) (hok : w.StaysClosed s)
    (hs : w.step s = some w') :
    w'.conn.Counted ∧ (w.conn.state_ = .kDisconnected → w'.conn.state_ = .kDisconnected) := by
  cases takes_of_step hs with
  | conn s c ha hconn =>
    have hlast : s ≠ .connectDestroyed := by
      rintro rfl
      exact absurd ha nofun
    have hcall (t : Thread) (u : UserCall) (he : s = .call t u) : isTested u = false :=
      allows_call (he ▸ ha)
    have hreopens (hc : w.conn.state_ = .kDisconnected) : w.conn.reopens s = false := by
      simpa [World.reopens, hc] using hok.reopens
    have hturn := Net.World.turn_step hlast hcall hreopens hconn
    exact ⟨hturn.counted h (Net.World.unwatching_step h.unwatching hlast hcall hreopens hconn),
      hturn.closed⟩
  | test t c l _ _ => exact ⟨h, id⟩
  | refused t c _ =>
    cases c with
    | send message | sendBuffer message =>
      exact ⟨(Net.World.turn_record rfl _).counted h h.unwatching, id⟩
    | close k => exact ⟨h, id⟩
  | next t write l hl =>
    exact ⟨counted_act write h hl hok.revives,
      fun hc => ((lasts_act write hl hok.revives).closed hc).1⟩
  | connectDestroyed _ _ => exact ⟨h, id⟩
  | destroyed _ _ | remove _ => exact ⟨h.same rfl rfl h.unwatching, id⟩
  | disconnect hd =>
    exact ⟨(Net.World.turn_disconnect (hp.close hd)).counted h fun _ => rfl, fun _ => rfl⟩

/-- Half-closed, a connection keeps its state. -/
theorem finishes_iff {s : Step} (h : w.conn.Counted) (hp : w.Phase) (hs : w.step s = some w') :
    w.Finishes s w' ↔ w.NotClosing s := by
  cases takes_of_step hs with
  | destroyed _ hstate =>
    have hremoves : w.removes .connectDestroyed = true := by simp [removes, hstate]
    constructor
    · intro hf _ hhalf
      have hclosed := (hf hremoves (by simp [hhalf])).state
      exact absurd (hhalf.symm.trans hclosed) (by simp)
    · intro hnot _ hconnecting
      refine h.finished ?_
      cases hs : w.conn.state_ with
      | kConnected => exact absurd hs hstate
      | kDisconnected => rfl
      | kConnecting => exact absurd hs hconnecting
      | kDisconnecting => exact absurd hs (hnot rfl)
  | remove hd => exact iff_of_true (fun _ _ => h.finished (hp.remove hd)) (by simp [NotClosing])
  | connectDestroyed _ hstate =>
    exact iff_of_true (fun hr => absurd hr (by simp [removes, hstate])) fun _ => by simp [hstate]
  | disconnect hd =>
    exact iff_of_true (fun hr => absurd hr (by simp [removes, hd])) (by simp [NotClosing])
  | conn | test | refused | next =>
    exact iff_of_true (fun hr => absurd hr Bool.false_ne_true) (by simp [NotClosing])

/-- In every run that does not reopen a closed connection, `connectDestroyed` finishes every
established connection exactly if it never finds one half-closed or waiting to be closed. -/
theorem connectDestroyed_finishes_iff (c : Config) (steps : List Step)
    (hok : StepsMeet step StaysClosed (new c) steps) (w : World)
    (hw : run step (new c) steps = some w) :
    EveryStep step Finishes (new c) steps ↔ StepsMeet step NotClosing (new c) steps := by
  have hiff (w : World) (s : Step) (w' : World) (h : w.conn.Counted ∧ w.Phase)
      (_ : w.StaysClosed s) (hs : w.step s = some w') : w.Finishes s w' ↔ w.NotClosing s :=
    finishes_iff h.1 h.2 hs
  have hkeep (w : World) (s : Step) (w' : World) (h : w.conn.Counted ∧ w.Phase)
      (hok : w.StaysClosed s) (hs : w.step s = some w') (_ : w.Finishes s w') :
      w'.conn.Counted ∧ w'.Phase := by
    obtain ⟨hcounted, hclosed⟩ := counted_step h.1 h.2 hok hs
    exact ⟨hcounted, phase_step h.2 hs hclosed⟩
  have h0 : (new c).conn.Counted ∧ (new c).Phase := ⟨Net.World.counted_new c, nofun, nofun⟩
  exact everyStep_iff step hiff hkeep h0 hok hw

/-- The owner destroys a connection with output pending. Another thread is closing it
meanwhile, and so does the user from the callback. -/
def outputPending : List Step :=
  [.conn .connectEstablished, .test .loop (.send [1, 2]), .next .loop (.count 1),
    .test (.other 1) (.close .forceClose), .connectDestroyed, .next (.other 1) (.count 0),
    .resumeDestroyed, .next (.other 1) (.count 0), .test .loop (.close .shutdown),
    .resumeDestroyed, .conn (.functor (.count 0))]

theorem connectDestroyed_finishes_outputPending :
    ∃ w, run step (new {}) outputPending = some w ∧ w.conn.outputBuffer_ = [2] ∧
      EveryStep step Finishes (new {}) outputPending := by
  have hok : StepsMeet step StaysClosed (new {}) outputPending := by decide
  have hsome : ∃ w ∈ run step (new {}) outputPending, w.conn.outputBuffer_ = [2] := by decide
  obtain ⟨w, hw, hout⟩ := hsome
  exact ⟨w, hw, hout, (connectDestroyed_finishes_iff {} _ hok w hw).mpr (by decide)⟩

/-- The user shuts the connection down, and the server is destroyed before the peer closes. -/
theorem connectDestroyed_halfClosed : ¬ ∀ (c : Config) (steps : List Step),
    EveryStep step Finishes (new c) steps := by
  intro h
  exact absurd (h {} [.conn .connectEstablished, .test .loop (.close .shutdown),
    .next .loop (.count 0), .next .loop (.count 0), .connectDestroyed]) (by decide)

end Threads.World

end Cnet.Net
