import Cnet.Support.Runs
import Cnet.Net.ConnectionSteps

/-!
# The life cycle of an established connection

One up notification, at most one down notification and close callback, no message
after the down notification, and `handleClose` only where its assert allows it. The
order of checks in `handleEventWithGuard`, `startRead` and `stopRead` on a closed
connection, a close with nothing watched, and a timer that closes between `poll` and
`handleEvent` each break it; `Tame` runs have none of them.
-/

namespace Cnet.Net

open Cnet.Support

/-- The notifications to the owner and the user, and the entries of `handleClose`. -/
def Event.isLife : Event → Bool
  | .connectionCallback _ | .messageCallback | .closeCallback | .handleClose _ => true
  | _ => false

def life (trace : List Event) : List Event := trace.filter Event.isLife

/-- The connection callbacks, by what `connected()` answered in them. -/
def connections (trace : List Event) : List Bool :=
  trace.filterMap fun
    | .connectionCallback connected => some connected
    | _ => none

structure LifeCycle (trace : List Event) : Prop where
  once : connections trace = [true] ∨ connections trace = [true, false]
  closedOnce : trace.count .closeCallback ≤ 1
  quiet : trace.Pairwise fun a b => a = .connectionCallback false → b ≠ .messageCallback
  entered : ∀ s, Event.handleClose s ∈ trace → s = .kConnected ∨ s = .kDisconnecting

namespace World

/-- The step runs `f`, as the head of the queue or as a call in the loop thread. -/
def runs (w : World) (f : Functor) (c : UserCall) : Step → Bool
  | .call t c' => t = .loop && c' = c
  | .functor _ => w.pendingFunctors_.head? = some f
  | _ => false

/-- The step enters `handleClose`, if the connection is still open. -/
def closes (w : World) : Step → Bool
  | .functor _ => w.pendingFunctors_.head? = some .forceCloseInLoop
  | .timer => true
  | .resume read _ =>
      match w.frames with
      | .checkHup r :: _ => r.pollhup && !r.pollin
      | .checkRead r :: _ => (r.pollin || r.pollpri || r.pollrdhup) && read = .bytes []
      | _ => false
  | _ => false

/-- The condition on a step, at the state it starts from. -/
structure Tame (w : World) (s : Step) : Prop where
  /-- `POLLHUP` with `POLLPRI` comes with `POLLIN`. -/
  hup : ∀ r, s = .poll r → r.pollhup = true → r.pollpri = true → r.pollin = true
  /-- Nothing starts reading on a closed connection, or stops what was being read. -/
  startRead : w.runs .startReadInLoop .startRead s = true → w.state_ ≠ .kDisconnected
  stopRead : w.runs .stopReadInLoop .stopRead s = true → w.state_ = .kDisconnected →
    w.reading_ = false
  /-- A connection is not closed while its channel watches nothing. -/
  watching : w.closes s = true → w.state_ ≠ .kDisconnected →
    w.channel_.events_ ≠ PollMask.kNoneEvent
  /-- No timer closes a connection whose channel is about to read or to close. -/
  timer : s = .timer → w.state_ ≠ .kDisconnected →
    ∀ r ∈ w.revents_, r.pollin = false ∧ r.pollpri = false ∧ r.pollhup = false

instance (w : World) (s : Step) : Decidable (w.Tame s) :=
  let hup : Prop :=
    match s with
    | .poll r => r.pollhup = true → r.pollpri = true → r.pollin = true
    | _ => True
  have : Decidable hup := by
    unfold hup
    split <;> infer_instance
  decidable_of_iff (hup ∧
      (w.runs .startReadInLoop .startRead s = true → w.state_ ≠ .kDisconnected) ∧
      (w.runs .stopReadInLoop .stopRead s = true → w.state_ = .kDisconnected →
        w.reading_ = false) ∧
      (w.closes s = true → w.state_ ≠ .kDisconnected →
        w.channel_.events_ ≠ PollMask.kNoneEvent) ∧
      (s = .timer → w.state_ ≠ .kDisconnected →
        ∀ r ∈ w.revents_, r.pollin = false ∧ r.pollpri = false ∧ r.pollhup = false)) (by
    constructor
    · rintro ⟨h1, h2, h3, h4, h5⟩
      exact ⟨by rintro r rfl; exact h1, h2, h3, h4, h5⟩
    · rintro ⟨h1, h2, h3, h4, h5⟩
      refine ⟨?_, h2, h3, h4, h5⟩
      unfold hup
      split
      · exact h1 _ rfl
      · trivial)

end World

/-- What a poll result of an established connection may be, in a tame run. -/
def PollMask.Sound (r : PollMask) : Prop :=
  r.pollrdhup = false ∧ (r.pollhup = true → r.pollpri = true → r.pollin = true)

/-- A poll result that neither closes nor reads. -/
def PollMask.Harmless (r : PollMask) : Prop :=
  r.pollin = false ∧ r.pollpri = false ∧ r.pollhup = false ∧ r.pollrdhup = false

/-- The frame neither closes nor reads. -/
def Frame.harmless : Frame → Bool
  | .checkHup r => !(r.pollhup && !r.pollin)
  | .checkRead r => !(r.pollin || r.pollpri || r.pollrdhup)
  | _ => true

/-- The frames of one `handleEventWithGuard`. -/
def handlerFrames (r : PollMask) : List Frame :=
  [.checkHup r, .checkErr r, .checkRead r, .checkWrite r]

namespace World

def isOpen (w : World) : Prop := w.state_ = .kConnected ∨ w.state_ = .kDisconnecting

structure OpenInv (w : World) : Prop where
  state : w.isOpen
  watched : w.channel_.Watched
  rdhup : w.channel_.events_.pollrdhup = false
  reading : w.reading_ = w.channel_.isReading
  revents : ∀ r ∈ w.revents_, r.Sound
  frames : ∃ r, r.Sound ∧ w.frames <:+ handlerFrames r
  handling : w.frames ≠ [] → w.revents_ = none
  history : ∃ ms, life w.trace = .connectionCallback true :: ms ∧ ∀ m ∈ ms, m = .messageCallback

structure ClosedInv (w : World) : Prop where
  state : w.state_ = .kDisconnected
  unwatched : w.channel_.Unwatched
  revents : ∀ r ∈ w.revents_, r.Harmless
  frames : ∀ f ∈ w.frames, f.harmless = true
  history : ∃ ms s n,
    life w.trace = .connectionCallback true :: ms ++
      (.handleClose s :: .connectionCallback false :: List.replicate n .closeCallback) ∧
    (∀ m ∈ ms, m = .messageCallback) ∧ (s = .kConnected ∨ s = .kDisconnecting) ∧
    n + w.frames.count .closeCallback = 1

def LifeInv (w : World) : Prop := w.OpenInv ∨ w.ClosedInv

end World

theorem connections_life (trace : List Event) : connections (life trace) = connections trace := by
  rw [connections, life, List.filterMap_filter]
  refine List.filterMap_congr fun e _ => ?_
  cases e <;> rfl

theorem LifeCycle.of_life {trace : List Event} (h : LifeCycle (life trace)) : LifeCycle trace where
  once := by
    rw [← connections_life]
    exact h.once
  closedOnce := by
    have hc : (life trace).count .closeCallback = trace.count .closeCallback :=
      List.count_filter rfl
    rw [← hc]
    exact h.closedOnce
  quiet := by
    refine (List.pairwise_filter.mp h.quiet).imp fun {a b} hab ha hb => ?_
    exact hab (by rw [ha]; rfl) (by rw [hb]; rfl) ha hb
  entered := fun s hs => h.entered s (List.mem_filter.mpr ⟨hs, rfl⟩)

/-- Up, then messages, then a tail that ends the connection at most once. -/
theorem lifeCycle_up {ms tail : List Event} (hms : ∀ m ∈ ms, m = .messageCallback)
    (hconn : connections tail = [] ∨ connections tail = [false])
    (hclosed : tail.count .closeCallback ≤ 1) (hquiet : Event.messageCallback ∉ tail)
    (hentered : ∀ s, Event.handleClose s ∈ tail → s = .kConnected ∨ s = .kDisconnecting) :
    LifeCycle (.connectionCallback true :: ms ++ tail) := by
  have hup : ∀ e ∈ Event.connectionCallback true :: ms,
      e ≠ .connectionCallback false ∧ e ≠ .closeCallback ∧ ∀ s, e ≠ .handleClose s := by
    intro e he
    rcases List.mem_cons.mp he with rfl | he
    · exact ⟨nofun, nofun, nofun⟩
    · rw [hms e he]
      exact ⟨nofun, nofun, nofun⟩
  have hnone : connections ms = [] := List.filterMap_eq_nil_iff.mpr fun m hm => by rw [hms m hm]
  refine ⟨?_, ?_, ?_, fun s hs => ?_⟩
  · have hsplit : connections (.connectionCallback true :: ms ++ tail) =
        true :: (connections ms ++ connections tail) := by simp [connections]
    rw [hsplit, hnone]
    rcases hconn with h | h <;> simp [h]
  · have hzero : (Event.connectionCallback true :: ms).count .closeCallback = 0 :=
      List.count_eq_zero.mpr fun hm => (hup _ hm).2.1 rfl
    rw [List.count_append, hzero]
    omega
  · refine List.pairwise_append.mpr ⟨?_, ?_, ?_⟩
    · exact List.pairwise_of_forall_mem_list fun a ha b _ h => absurd h (hup a ha).1
    · exact List.pairwise_of_forall_mem_list fun a _ b hb _ h => hquiet (h ▸ hb)
    · exact fun a ha b _ h => absurd h (hup a ha).1
  · rcases List.mem_append.mp hs with h | h
    · exact absurd rfl ((hup _ h).2.2 s)
    · exact hentered s h

namespace World

theorem OpenInv.lifeCycle {w : World} (h : w.OpenInv) : LifeCycle w.trace := by
  obtain ⟨ms, hlife, hms⟩ := h.history
  apply LifeCycle.of_life
  rw [hlife, ← List.append_nil (_ :: ms)]
  exact lifeCycle_up hms (.inl rfl) (by simp) (by simp) (by simp)

theorem ClosedInv.lifeCycle {w : World} (h : w.ClosedInv) : LifeCycle w.trace := by
  obtain ⟨ms, s, n, hlife, hms, hs, hn⟩ := h.history
  apply LifeCycle.of_life
  rw [hlife]
  have hrep : connections (List.replicate n .closeCallback) = [] :=
    List.filterMap_eq_nil_iff.mpr fun e he => by rw [List.eq_of_mem_replicate he]
  refine lifeCycle_up hms (.inr ?_) ?_ ?_ ?_
  · exact congrArg (false :: ·) hrep
  · have hc : (Event.handleClose s :: .connectionCallback false ::
        List.replicate n .closeCallback).count .closeCallback = n := by simp
    rw [hc]
    omega
  · simp
  · intro s' hs'
    have : s' = s := by simpa using hs'
    rw [this]
    exact hs

theorem life_append (l l' : List Event) : life (l ++ l') = life l ++ life l' :=
  List.filter_append ..

/-- A step inside an open connection that only moves data or the watched events. -/
theorem OpenInv.keep {w w' : World} (h : w.OpenInv) (hs : w'.isOpen)
    (hc : w'.channel_.Watched ∧ w'.channel_.events_.pollrdhup = false)
    (hr : w'.reading_ = w'.channel_.isReading) (hv : w'.revents_ = w.revents_)
    (hf : w'.frames = w.frames) (hl : life w'.trace = life w.trace) : w'.OpenInv where
  state := hs
  watched := hc.1
  rdhup := hc.2
  reading := hr
  revents := hv ▸ h.revents
  frames := hf ▸ h.frames
  handling := by rw [hf, hv]; exact h.handling
  history := hl ▸ h.history

/-- Nothing that the closed invariant reads has changed. -/
theorem ClosedInv.keep {w w' : World} (h : w.ClosedInv) (hs : w'.state_ = w.state_)
    (hc : w'.channel_ = w.channel_) (hv : w'.revents_ = w.revents_) (hf : w'.frames = w.frames)
    (hl : life w'.trace = life w.trace) : w'.ClosedInv where
  state := hs.trans h.state
  unwatched := hc ▸ h.unwatched
  revents := hv ▸ h.revents
  frames := hf ▸ h.frames
  history := by rw [hl, hf]; exact h.history

theorem isOpen_or {w : World} (h : w.LifeInv) : w.isOpen ∨ w.state_ = .kDisconnected :=
  h.imp OpenInv.state ClosedInv.state

theorem isOpen_ne {w : World} (h : w.isOpen) : w.state_ ≠ .kDisconnected := by
  rcases h with h | h <;> rw [h] <;> nofun

theorem OpenInv.of_ne {w : World} (h : w.LifeInv) (ho : w.state_ ≠ .kDisconnected) : w.OpenInv :=
  h.resolve_right fun hc => ho hc.state

theorem LifeInv.record {w : World} (h : w.LifeInv) {e : Event} (he : e.isLife = false) :
    (w.record e).LifeInv := by
  have hl : life (w.record e).trace = life w.trace := by simp [World.record, life, he]
  rcases h with h | h
  · exact .inl (h.keep h.state ⟨h.watched, h.rdhup⟩ h.reading rfl rfl hl)
  · exact .inr (h.keep rfl rfl rfl rfl hl)

theorem LifeInv.queueInLoop {w : World} (h : w.LifeInv) (f : Functor) :
    (w.queueInLoop f).LifeInv := by
  rcases h with h | h
  · exact .inl (h.keep h.state ⟨h.watched, h.rdhup⟩ h.reading rfl rfl rfl)
  · exact .inr (h.keep rfl rfl rfl rfl rfl)

theorem OpenInv.disconnecting {w : World} (h : w.OpenInv) : (w.setState .kDisconnecting).OpenInv :=
  h.keep (.inr rfl) ⟨h.watched, h.rdhup⟩ h.reading rfl rfl rfl

theorem life_events {es : List Event} (h : ∀ e ∈ es, e.isLife = false) (l : List Event) :
    life (l ++ es) = life l := by
  have hnil : life es = [] := List.filter_eq_nil_iff.mpr fun e he => by rw [h e he]; nofun
  rw [life_append, hnil, List.append_nil]

theorem writingChannel_watched {c : Channel} (rest : Bytes)
    (h : c.Watched ∧ c.events_.pollrdhup = false) :
    (writingChannel rest c).Watched ∧ (writingChannel rest c).events_.pollrdhup = false := by
  unfold writingChannel
  split
  · exact h
  · exact ⟨h.1.enableWriting, by
      simp [Channel.enableWriting, PollMask.or, PollMask.kWriteEvent, h.2]⟩

theorem isReading_writingChannel (rest : Bytes) (c : Channel) :
    (writingChannel rest c).isReading = c.isReading := by
  unfold writingChannel
  split <;> simp

theorem LifeInv.sendInLoop {w : World} (h : w.LifeInv) (r : WriteResult) (t : Thread)
    (message : Bytes) : (w.sendInLoop r t message).LifeInv := by
  by_cases hd : w.state_ = .kDisconnected
  · rw [sendInLoop_closed hd]
    exact h.record rfl
  · have ho := OpenInv.of_ne h hd
    obtain ⟨direct, events, rest, q, hpath, -, he⟩ := sendInLoop_open hd r t message
    have hev : ∀ e ∈ Event.processed t message direct :: events ++
        (if rest = [] then [] else [.buffered rest]), e.isLife = false := by
      have hev : events = [] ∨ events = [.write message r] := by cases hpath <;> simp
      rcases hev with rfl | rfl <;> split <;> simp [Event.isLife]
    rw [he]
    exact .inl (ho.keep ho.state (writingChannel_watched rest ⟨ho.watched, ho.rdhup⟩)
      (ho.reading.trans (isReading_writingChannel rest _).symm) rfl rfl
      (by rw [List.append_assoc]; exact life_events hev _))

theorem LifeInv.accept {w : World} (h : w.LifeInv) (t : Thread) (message : Bytes) :
    (w.accept t message).LifeInv := (h.record rfl).record rfl

theorem LifeInv.shutdownInLoop {w : World} (h : w.LifeInv) : w.shutdownInLoop.LifeInv := by
  unfold World.shutdownInLoop
  split
  · exact h
  · exact h.record rfl

theorem LifeInv.shutdown {w : World} (h : w.LifeInv) (t : Thread) : (w.shutdown t).LifeInv := by
  unfold World.shutdown
  by_cases hs : w.state_ = .kConnected
  · rw [if_pos hs]
    have ho := OpenInv.of_ne h (by rw [hs]; nofun)
    have hdis : ((w.setState .kDisconnecting).record (.shutdown w.outputBuffer_)).LifeInv :=
      LifeInv.record (.inl ho.disconnecting) rfl
    dsimp only
    split
    · exact hdis.shutdownInLoop
    · exact hdis.queueInLoop _
  · rw [if_neg hs]
    exact h

theorem LifeInv.forceClose {w : World} (h : w.LifeInv) : w.forceClose.LifeInv := by
  unfold World.forceClose
  split
  · next hs =>
    have ho : w.isOpen := by simpa [isOpen] using hs
    exact LifeInv.queueInLoop (.inl (OpenInv.of_ne h (isOpen_ne ho)).disconnecting) _
  · exact h

theorem LifeInv.forceCloseWithDelay {w : World} (h : w.LifeInv) :
    w.forceCloseWithDelay.LifeInv := by
  unfold World.forceCloseWithDelay
  split
  · next hs =>
    have hopen : w.isOpen := by simpa [isOpen] using hs
    have ho := (OpenInv.of_ne h (isOpen_ne hopen)).disconnecting
    exact .inl (ho.keep ho.state ⟨ho.watched, ho.rdhup⟩ ho.reading rfl rfl rfl)
  · exact h

theorem LifeInv.startReadInLoop {w : World} (h : w.LifeInv) (hs : w.state_ ≠ .kDisconnected) :
    w.startReadInLoop.LifeInv := by
  unfold World.startReadInLoop
  split
  · have ho := OpenInv.of_ne h hs
    refine .inl (ho.keep ho.state ⟨ho.watched.enableReading, ?_⟩ ?_ rfl rfl rfl)
    · simp [Channel.enableReading, PollMask.or, PollMask.kReadEvent, ho.rdhup]
    · simp
  · exact h

theorem LifeInv.stopReadInLoop {w : World} (h : w.LifeInv)
    (hs : w.state_ = .kDisconnected → w.reading_ = false) : w.stopReadInLoop.LifeInv := by
  unfold World.stopReadInLoop
  split
  · next hr =>
    rcases h with ho | hc
    · have hreading : w.channel_.isReading = true := by
        have := ho.reading
        simpa [this] using hr
      refine .inl (ho.keep ho.state ⟨ho.watched.disableReading hreading, ?_⟩ ?_ rfl rfl rfl)
      · simp [Channel.disableReading, PollMask.clear, ho.rdhup]
      · simp
    · have hnot : w.channel_.isReading = false := by
        rw [Channel.isReading_eq, hc.unwatched.1]
        rfl
      simp [hs hc.state, hnot] at hr
  · exact h

/-- A read with data in an open connection: one more message. -/
theorem OpenInv.message {w : World} (h : w.OpenInv) (data : Bytes) :
    (World.record .messageCallback { w with inputBuffer_ := w.inputBuffer_ ++ data }).OpenInv where
  state := h.state
  watched := h.watched
  rdhup := h.rdhup
  reading := h.reading
  revents := h.revents
  frames := h.frames
  handling := h.handling
  history := by
    obtain ⟨ms, hl, hms⟩ := h.history
    refine ⟨ms ++ [.messageCallback], ?_, fun m hm => ?_⟩
    · simp only [World.record, life_append, hl]
      rfl
    · rcases List.mem_append.mp hm with hm | hm
      · exact hms m hm
      · exact List.mem_singleton.mp hm

/-- `handleClose` where its assert holds and nothing left of the handler reads. -/
theorem OpenInv.handleClose {w : World} (h : w.OpenInv)
    (hw : w.channel_.events_ ≠ PollMask.kNoneEvent) (hv : ∀ r ∈ w.revents_, r.Harmless)
    (hf : ∀ f ∈ w.frames, f.harmless = true) (hn : Frame.closeCallback ∉ w.frames) :
    w.handleClose.ClosedInv where
  state := rfl
  unwatched := h.watched.disableAll hw
  revents := hv
  frames := by
    intro f hm
    rcases List.mem_cons.mp hm with rfl | hm
    · rfl
    · exact hf f hm
  history := by
    obtain ⟨ms, hl, hms⟩ := h.history
    refine ⟨ms, w.state_, 0, ?_, hms, h.state, ?_⟩
    · have ht : w.handleClose.trace =
          w.trace ++ [.handleClose w.state_, .connectionCallback false] := by
        simp [World.handleClose, World.record, connected]
      rw [ht, life_append, hl]
      rfl
    · show 0 + (Frame.closeCallback :: w.frames).count .closeCallback = 1
      rw [List.count_cons_self, List.count_eq_zero.mpr hn]

theorem LifeInv.handleWrite {w : World} (h : w.LifeInv) (r : WriteResult) :
    (w.handleWrite r).LifeInv := by
  have hpath := handleWrite_path r w
  generalize w.handleWrite r = w' at hpath
  have hopen (hw : w.channel_.isWriting = true) : w.OpenInv := by
    refine h.resolve_right fun hc => ?_
    rw [Channel.isWriting_eq, hc.unwatched.1] at hw
    exact absurd hw nofun
  have hlife (l : List Event) : life (l ++ [.write w.outputBuffer_ r]) = life l :=
    life_events (by simp [Event.isLife]) l
  cases hpath with
  | idle _ => exact h
  | stuck hw _ =>
    have ho := hopen hw
    exact .inl (ho.keep ho.state ⟨ho.watched, ho.rdhup⟩ ho.reading rfl rfl (hlife _))
  | part hw _ _ =>
    have ho := hopen hw
    exact .inl (ho.keep ho.state ⟨ho.watched, ho.rdhup⟩ ho.reading rfl rfl (hlife _))
  | drained hw _ _ q _ =>
    have ho := hopen hw
    refine .inl (ho.keep ho.state ⟨ho.watched.disableWriting hw, ?_⟩ ?_ rfl rfl ?_)
    · simp [Channel.disableWriting, PollMask.clear, ho.rdhup]
    · simpa using ho.reading
    · refine life_events (fun e he => ?_) _
      rcases List.mem_cons.mp he with rfl | he
      · rfl
      · split at he
        · rw [List.mem_singleton.mp he]
          rfl
        · exact absurd he (List.not_mem_nil)

theorem LifeInv.call {w : World} (h : w.LifeInv) (t : Thread) (c : UserCall)
    (hok : w.Tame (.call t c)) : (w.call t c).LifeInv := by
  have hpath := call_path t c w
  generalize w.call t c = w' at hpath
  cases hpath with
  | sendNow | sendBufferNow => exact (h.accept _ _).sendInLoop _ _ _
  | sendLater | sendBufferLater => exact (h.accept _ _).queueInLoop _
  | sendRefused | sendBufferIgnored => exact h.record rfl
  | shutdown t => exact h.shutdown t
  | forceClose => exact h.forceClose
  | forceCloseWithDelay => exact h.forceCloseWithDelay
  | startReadNow => exact h.startReadInLoop (hok.startRead (by simp [runs]))
  | stopReadNow => exact h.stopReadInLoop (hok.stopRead (by simp [runs]))
  | startReadLater | stopReadLater => exact h.queueInLoop _
  | retrieveInput =>
    rcases h with h | h
    · exact .inl (h.keep h.state ⟨h.watched, h.rdhup⟩ h.reading rfl rfl rfl)
    · exact .inr (h.keep rfl rfl rfl rfl rfl)

/-- Closing outside of a handler: the condition keeps a waiting poll result harmless. -/
theorem LifeInv.forceCloseInLoop {w : World} (h : w.LifeInv) (hf : w.frames = [])
    (hw : w.state_ ≠ .kDisconnected → w.channel_.events_ ≠ PollMask.kNoneEvent)
    (hv : w.state_ ≠ .kDisconnected → ∀ r ∈ w.revents_, r.Harmless) :
    w.forceCloseInLoop.LifeInv := by
  unfold World.forceCloseInLoop
  split
  · next hs =>
    have hopen : w.isOpen := by simpa [isOpen] using hs
    have hne := isOpen_ne hopen
    exact .inr ((OpenInv.of_ne h hne).handleClose (hw hne) (hv hne) (by simp [hf]) (by simp [hf]))
  · exact h

theorem LifeInv.functor {w : World} {f : Functor} {rest : List Functor} (h : w.LifeInv)
    (hf : w.pendingFunctors_ = f :: rest) (hi : w.idle = true) (write : WriteResult)
    (hok : w.Tame (.functor write)) :
    (runFunctor write f { w with pendingFunctors_ := rest }).LifeInv := by
  have hpop : LifeInv { w with pendingFunctors_ := rest } := by
    rcases h with h | h
    · exact .inl (h.keep h.state ⟨h.watched, h.rdhup⟩ h.reading rfl rfl rfl)
    · exact .inr (h.keep rfl rfl rfl rfl rfl)
  simp only [idle, Bool.and_eq_true, List.isEmpty_iff, Option.isNone_iff_eq_none] at hi
  cases f with
  | sendInLoop t message => exact hpop.sendInLoop write t message
  | shutdownInLoop => exact hpop.shutdownInLoop
  | forceCloseInLoop =>
    refine hpop.forceCloseInLoop hi.1 (hok.watching (by simp [closes, hf])) fun _ r hr => ?_
    simp [hi.2] at hr
  | startReadInLoop => exact hpop.startReadInLoop (hok.startRead (by simp [runs, hf]))
  | stopReadInLoop => exact hpop.stopReadInLoop (hok.stopRead (by simp [runs, hf]))
  | writeCompleteCallback => exact hpop
  | highWaterMarkCallback n => exact hpop

/-- The frames left behind a check that closes, none of which reads. -/
theorem OpenInv.closeFrom {w : World} {f : Frame} {rest : List Frame} (h : w.OpenInv)
    (hf : w.frames = f :: rest) (hw : w.channel_.events_ ≠ PollMask.kNoneEvent)
    (hrest : ∀ g ∈ rest, g.harmless = true) (hn : Frame.closeCallback ∉ rest) :
    (World.handleClose { w with frames := rest }).ClosedInv := by
  have hnone := h.handling (by rw [hf]; nofun)
  have hu : OpenInv { w with frames := rest } := by
    obtain ⟨r, hr, hsuf⟩ := h.frames
    refine ⟨h.state, h.watched, h.rdhup, h.reading, h.revents, ⟨r, hr, ?_⟩, fun _ => hnone,
      h.history⟩
    rw [hf] at hsuf
    exact (List.suffix_cons f rest).trans hsuf
  exact hu.handleClose hw (by simp [hnone]) hrest hn

/-- Where the running handler of an open connection stands. -/
theorem OpenInv.frame {w : World} {f : Frame} {rest : List Frame} (h : w.OpenInv)
    (hf : w.frames = f :: rest) :
    ∃ r, r.Sound ∧ (f = .checkHup r ∧ rest = [.checkErr r, .checkRead r, .checkWrite r] ∨
      f = .checkErr r ∧ rest = [.checkRead r, .checkWrite r] ∨
      f = .checkRead r ∧ rest = [.checkWrite r] ∨ f = .checkWrite r ∧ rest = []) := by
  obtain ⟨r, hr, hsuf⟩ := h.frames
  rw [hf, handlerFrames] at hsuf
  refine ⟨r, hr, ?_⟩
  simpa [List.suffix_cons_iff] using hsuf

theorem LifeInv.popFrame {w : World} {f : Frame} {rest : List Frame} (h : w.LifeInv)
    (hf : w.frames = f :: rest) (hne : f ≠ .closeCallback) :
    LifeInv { w with frames := rest } := by
  rcases h with h | h
  · obtain ⟨r, hr, hsuf⟩ := h.frames
    rw [hf] at hsuf
    exact .inl ⟨h.state, h.watched, h.rdhup, h.reading, h.revents,
      ⟨r, hr, (List.suffix_cons f rest).trans hsuf⟩, fun _ => h.handling (by rw [hf]; nofun),
      h.history⟩
  · refine .inr ⟨h.state, h.unwatched, h.revents, fun g hg => ?_, ?_⟩
    · exact h.frames g (by rw [hf]; exact List.mem_cons_of_mem _ hg)
    · obtain ⟨ms, s, n, hl, hms, hs, hn⟩ := h.history
      rw [hf, List.count_cons_of_ne hne] at hn
      exact ⟨ms, s, n, hl, hms, hs, hn⟩

theorem LifeInv.checkHup {w : World} {r : PollMask} {rest : List Frame} (h : w.LifeInv)
    (hf : w.frames = .checkHup r :: rest) (hc : (r.pollhup && !r.pollin) = true)
    (hw : w.state_ ≠ .kDisconnected → w.channel_.events_ ≠ PollMask.kNoneEvent) :
    (handleClose { w with frames := rest }).LifeInv := by
  rcases h with h | h
  · obtain ⟨r', hr, hcase⟩ := h.frame hf
    have hrest : r' = r ∧ rest = [.checkErr r, .checkRead r, .checkWrite r] := by
      rcases hcase with ⟨he, hl⟩ | ⟨he, -⟩ | ⟨he, -⟩ | ⟨he, -⟩ <;> cases he
      exact ⟨rfl, hl⟩
    obtain ⟨rfl, rfl⟩ := hrest
    simp only [Bool.and_eq_true, Bool.not_eq_true'] at hc
    have hpri : r'.pollpri = false := by
      by_contra hp
      have := hr.2 hc.1 (by simpa using hp)
      rw [hc.2] at this
      exact absurd this nofun
    refine .inr (h.closeFrom hf (hw (isOpen_ne h.state)) ?_ (by simp))
    simp [Frame.harmless, hc.2, hpri, hr.1]
  · have := h.frames (.checkHup r) (by rw [hf]; exact List.mem_cons_self)
    simp [Frame.harmless, hc] at this

theorem LifeInv.checkRead {w : World} {r : PollMask} {rest : List Frame} (h : w.LifeInv)
    (hf : w.frames = .checkRead r :: rest)
    (hc : (r.pollin || r.pollpri || r.pollrdhup) = true) (read : ReadResult)
    (hw : read = .bytes [] → w.state_ ≠ .kDisconnected →
      w.channel_.events_ ≠ PollMask.kNoneEvent) :
    (handleRead read { w with frames := rest }).LifeInv := by
  rcases h with h | h
  · cases read with
    | error => exact LifeInv.popFrame (.inl h) hf nofun
    | bytes data =>
      cases data with
      | nil =>
        obtain ⟨r', hr, hcase⟩ := h.frame hf
        have hrest : rest = [.checkWrite r'] := by
          rcases hcase with ⟨he, -⟩ | ⟨he, -⟩ | ⟨he, hl⟩ | ⟨he, -⟩ <;> cases he
          exact hl
        subst hrest
        exact .inr (h.closeFrom hf (hw rfl (isOpen_ne h.state)) (by simp [Frame.harmless])
          (by simp))
      | cons b data =>
        have hpop := LifeInv.popFrame (.inl h) hf nofun
        exact .inl ((OpenInv.of_ne hpop (isOpen_ne h.state)).message _)
  · have := h.frames (.checkRead r) (by rw [hf]; exact List.mem_cons_self)
    simp only [Frame.harmless, hc] at this
    exact absurd this nofun

/-- The end of `handleClose`. -/
theorem LifeInv.closeCallback {w : World} {rest : List Frame} (h : w.LifeInv)
    (hf : w.frames = .closeCallback :: rest) :
    (World.record .closeCallback { w with frames := rest }).LifeInv := by
  rcases h with h | h
  · obtain ⟨r, -, hcase⟩ := h.frame hf
    rcases hcase with ⟨he, -⟩ | ⟨he, -⟩ | ⟨he, -⟩ | ⟨he, -⟩ <;> cases he
  · refine .inr ⟨h.state, h.unwatched, h.revents, fun g hg => ?_, ?_⟩
    · exact h.frames g (by rw [hf]; exact List.mem_cons_of_mem _ hg)
    · obtain ⟨ms, s, n, hl, hms, hs, hn⟩ := h.history
      rw [hf, List.count_cons_self] at hn
      refine ⟨ms, s, n + 1, ?_, hms, hs, ?_⟩
      · simp only [World.record, life_append, hl, List.replicate_succ']
        simp [life, Event.isLife]
      · show n + 1 + rest.count .closeCallback = 1
        omega

theorem LifeInv.resume {w : World} {f : Frame} {rest : List Frame} (h : w.LifeInv)
    (hf : w.frames = f :: rest) (read : ReadResult) (write : WriteResult)
    (hok : w.Tame (.resume read write)) :
    (resume read write f { w with frames := rest }).LifeInv := by
  have hpath := resume_path read write f { w with frames := rest }
  generalize World.resume read write f { w with frames := rest } = w' at hpath
  cases hpath with
  | skip _ hne => exact h.popFrame hf hne
  | hangUp revents hup =>
    exact h.checkHup hf hup (hok.watching (by simp only [closes, hf, hup]))
  | read revents hread =>
    refine h.checkRead hf hread read fun hr => hok.watching ?_
    simp only [closes, hf, hread, hr, decide_true, Bool.and_self]
  | write => exact (h.popFrame hf nofun).handleWrite write
  | closed => exact h.closeCallback hf

theorem LifeInv.poll {w : World} {revents mask : PollMask} (h : w.LifeInv) (hi : w.idle = true)
    (hm : w.channel_.slot.interest = some mask) (hsub : revents.subset mask.reportable = true)
    (hup : revents.pollhup = true → revents.pollpri = true → revents.pollin = true) :
    LifeInv { w with revents_ := some revents } := by
  simp only [idle, Bool.and_eq_true, List.isEmpty_iff, Option.isNone_iff_eq_none] at hi
  rcases h with h | h
  · have hmask : mask = w.channel_.events_ := by
      rcases h.watched with ⟨-, -, hs⟩ | ⟨-, -, hs⟩ <;> rw [hm] at hs
      · exact Option.some.inj hs
      · exact absurd hs nofun
    have hrdhup : revents.pollrdhup = false := by
      have hle := revents.subset_pollrdhup hsub
      simpa [PollMask.reportable, hmask, h.rdhup] using hle
    refine .inl ⟨h.state, h.watched, h.rdhup, h.reading, fun r hr => ?_, h.frames,
      fun hne => absurd hi.1 hne, h.history⟩
    obtain rfl := Option.some.inj hr
    exact ⟨hrdhup, hup⟩
  · rw [h.unwatched.2] at hm
    exact absurd hm nofun

theorem LifeInv.handleEvent {w : World} {r : PollMask} (h : w.LifeInv) (hr : w.revents_ = some r)
    (hf : w.frames = []) :
    LifeInv { w with revents_ := none, frames := handlerFrames r } := by
  rcases h with h | h
  · exact .inl ⟨h.state, h.watched, h.rdhup, h.reading, nofun,
      ⟨r, h.revents r hr, List.suffix_refl _⟩, fun _ => rfl, h.history⟩
  · obtain ⟨h1, h2, h3, h4⟩ := h.revents r hr
    refine .inr ⟨h.state, h.unwatched, nofun, ?_, ?_⟩
    · simp [handlerFrames, Frame.harmless, h1, h2, h3, h4]
    · obtain ⟨ms, s, n, hl, hms, hs, hn⟩ := h.history
      rw [hf, List.count_nil] at hn
      refine ⟨ms, s, n, hl, hms, hs, ?_⟩
      simpa [handlerFrames] using hn

theorem LifeInv.timer {w : World} (h : w.LifeInv) (hf : w.frames = []) (hok : w.Tame .timer) :
    (World.forceCloseInLoop { w with delayed := w.delayed - 1 }).LifeInv := by
  have hd : LifeInv { w with delayed := w.delayed - 1 } := by
    rcases h with h | h
    · exact .inl (h.keep h.state ⟨h.watched, h.rdhup⟩ h.reading rfl rfl rfl)
    · exact .inr (h.keep rfl rfl rfl rfl rfl)
  refine hd.forceCloseInLoop hf (hok.watching rfl) fun hne r hr => ?_
  obtain ⟨h1, h2, h3⟩ := hok.timer rfl hne r hr
  exact ⟨h1, h2, h3, ((OpenInv.of_ne h hne).revents r hr).1⟩

/-- A step of an established connection, short of `connectDestroyed`. -/
theorem lifeInv_step (w : World) (s : Step) (w' : World) (h : w.LifeInv)
    (hok : w.Tame s ∧ s ≠ .connectDestroyed) (hstep : w.step s = some w') : w'.LifeInv := by
  obtain ⟨htame, hlast⟩ := hok
  cases takes_of_step hstep with
  | call t c => exact h.call t c htame
  | connectEstablished _ hs =>
    rcases isOpen_or h with (ho | ho) | hd
    · exact absurd (hs.symm.trans ho) nofun
    · exact absurd (hs.symm.trans ho) nofun
    · exact absurd (hs.symm.trans hd) nofun
  | connectDestroyed _ => exact absurd rfl hlast
  | poll revents mask hi hm hsub => exact h.poll hi hm hsub (htame.hup revents rfl)
  | handleEvent r hr hf => exact h.handleEvent hr hf
  | resume f rest read write hf => exact h.resume hf read write htame
  | functor f rest write hi hf => exact h.functor hf hi write htame
  | timer hf _ => exact h.timer hf htame

theorem lifeInv_established (c : Config) : (new c).connectEstablished.LifeInv :=
  .inl {
    state := .inl rfl
    watched := Channel.watched_new_enableReading
    rdhup := rfl
    reading := rfl
    revents := nofun
    frames := ⟨{}, ⟨rfl, nofun⟩, List.nil_suffix⟩
    handling := fun h => absurd rfl h
    history := ⟨[], rfl, nofun⟩ }

theorem LifeInv.lifeCycle {w : World} (h : w.LifeInv) : LifeCycle w.trace := by
  rcases h with h | h
  · exact h.lifeCycle
  · exact h.lifeCycle

/-- The final `connectDestroyed` notifies once more only if nothing closed before. -/
theorem LifeInv.lifeCycle_destroyed {w : World} (h : w.LifeInv) :
    LifeCycle w.connectDestroyed.trace := by
  unfold World.connectDestroyed
  by_cases hs : w.state_ = .kConnected
  · rw [if_pos hs]
    obtain ⟨ms, hl, hms⟩ := (OpenInv.of_ne h (by rw [hs]; nofun)).history
    apply LifeCycle.of_life
    show LifeCycle (life (w.trace ++ [.connectionCallback false]))
    rw [life_append, hl]
    have hdown : life [.connectionCallback false] = [.connectionCallback false] := rfl
    rw [hdown]
    exact lifeCycle_up hms (.inr rfl) (by simp) (by simp) (by simp)
  · rw [if_neg hs]
    exact h.lifeCycle

/-- In every run of tame steps from an established connection, the life cycle is kept,
up to and including a final `connectDestroyed`. -/
theorem life_cycle_of_tame (c : Config) (steps : List Step)
    (hok : StepsMeet step (fun w s => w.Tame s ∧ s ≠ .connectDestroyed)
      (new c).connectEstablished steps) :
    ∀ w ∈ run step (new c).connectEstablished steps,
      LifeCycle w.trace ∧ LifeCycle w.connectDestroyed.trace := by
  intro w hw
  have h := run_invariant step lifeInv_step (lifeInv_established c) hok hw
  exact ⟨h.lifeCycle, h.lifeCycle_destroyed⟩

/-- A message, then the peer closes while output is pending. -/
def peerCloses : List Step :=
  [.poll { pollin := true }, .handleEvent, .resume (.bytes [1]) (.count 0),
    .resume (.bytes [1]) (.count 0), .resume (.bytes [1]) (.count 0), .call .loop .forceClose,
    .resume (.bytes [1]) (.count 0), .poll { pollin := true, pollhup := true }, .handleEvent,
    .resume (.bytes []) (.count 0), .resume (.bytes []) (.count 0),
    .resume (.bytes []) (.count 0), .resume (.bytes []) (.count 0),
    .resume (.bytes []) (.count 0), .functor (.count 0)]

theorem life_cycle_of_tame_peerCloses :
    StepsMeet step (fun w s => w.Tame s ∧ s ≠ .connectDestroyed)
        (new {}).connectEstablished peerCloses ∧
      ∃ w, run step (new {}).connectEstablished peerCloses = some w ∧
        LifeCycle w.trace ∧ LifeCycle w.connectDestroyed.trace := by
  have hok : StepsMeet step (fun w s => w.Tame s ∧ s ≠ .connectDestroyed)
      (new {}).connectEstablished peerCloses := by decide
  have hsome : (run step (new {}).connectEstablished peerCloses).isSome = true := by decide
  obtain ⟨w, hw⟩ := Option.isSome_iff_exists.mp hsome
  exact ⟨hok, w, hw, life_cycle_of_tame {} peerCloses hok w hw⟩

/-- `POLLHUP` and `POLLPRI` without `POLLIN`: the close handler runs, and then the read
handler of the same event, which finds end of file. -/
def hangUpUrgent : List Step :=
  [.poll { pollpri := true, pollhup := true }, .handleEvent, .resume .error (.count 0),
    .resume .error (.count 0), .resume .error (.count 0), .resume (.bytes []) (.count 0)]

theorem life_cycle_fails_hangUpUrgent :
    ¬ ∀ (c : Config) (steps : List Step), (∀ s ∈ steps, s ≠ .connectDestroyed) →
      ∀ w ∈ run step (new c).connectEstablished steps,
        LifeCycle w.trace ∧ LifeCycle w.connectDestroyed.trace := by
  intro h
  have hbad : ∃ w ∈ run step (new {}).connectEstablished hangUpUrgent,
      Event.handleClose .kDisconnected ∈ w.trace := by decide
  obtain ⟨w, hw, hentered⟩ := hbad
  rcases (h {} hangUpUrgent (by decide) w hw).1.entered _ hentered with hs | hs
  · exact absurd hs nofun
  · exact absurd hs nofun

end World

end Cnet.Net
