import Cnet.Net.LifeCycle
import Cnet.Net.ConnectionThreads

/-!
# The channel of a closed connection

Once a connection is closed its channel watches nothing, and the functions that look at
`state_` leave it so. `startReadInLoop` and `stopReadInLoop` do not look, nor does
`handleClose` where the handler of an event enters it; a call of another thread may have
looked too early, and sets the state of a closed connection back; and `connectDestroyed`
takes the events away from a connected channel only. A run leaves the closed channel alone
exactly if it keeps clear of these.
-/

namespace Cnet.Net

open Cnet.Support

/-- `update` never leaves a channel that watches nothing as it was. -/
theorem Channel.update_ne {c : Channel} (h : c.events_ = PollMask.kNoneEvent) : c.update ≠ c := by
  intro heq
  have hindex : (c.slot.updateChannel c.index_ c.events_).2 = c.index_ :=
    congrArg Channel.index_ heq
  cases hi : c.index_ <;> simp [hi, h, Slot.updateChannel] at hindex

/-- Nor do the functions that take events away. -/
theorem Channel.clear_ne {c : Channel} (h : c.events_ = PollMask.kNoneEvent) :
    c.disableAll ≠ c ∧ c.disableReading ≠ c := by
  have hclear : c.events_.clear PollMask.kReadEvent = c.events_ := by
    rw [h]
    rfl
  refine ⟨?_, ?_⟩
  · rw [disableAll, ← h]
    exact update_ne h
  · rw [disableReading, hclear]
    exact update_ne h

@[simp] theorem Channel.mapped_remove (c : Channel) : c.remove.slot.mapped = false := by
  unfold remove Slot.removeChannel
  dsimp only
  split <;> rfl

theorem Channel.isNoneEvent_iff {c : Channel} :
    c.isNoneEvent = true ↔ c.events_ = PollMask.kNoneEvent := decide_eq_true_iff

theorem Channel.isReading_none {c : Channel} (h : c.isNoneEvent = true) : c.isReading = false := by
  rw [isReading_eq, isNoneEvent_iff.mp h]
  rfl

theorem Channel.isWriting_none {c : Channel} (h : c.isNoneEvent = true) : c.isWriting = false := by
  rw [isWriting_eq, isNoneEvent_iff.mp h]
  rfl

open Threads (isTested)

namespace World

/-- The handler of an event enters `handleClose`. -/
def hangsUp (w : World) : Step → Bool
  | .resume read write => w.closes (.resume read write)
  | _ => false

/-- The step starts to read or closes the connection, even if it is closed. -/
def reopens (w : World) (s : Step) : Bool :=
  w.runs .startReadInLoop .startRead s || w.hangsUp s

/-- The step updates the channel, even if the connection is closed. -/
def touches (w : World) (s : Step) : Bool :=
  w.reopens s || w.runs .stopReadInLoop .stopRead s && w.reading_

/-- A closed connection watches nothing. -/
def Unwatching (w : World) : Prop :=
  w.state_ = .kDisconnected → w.channel_.isNoneEvent = true

/-- A closed connection stays as it is, and one that closes watches nothing. -/
structure Lasts (w w' : World) : Prop where
  closed : w.state_ = .kDisconnected → w'.state_ = .kDisconnected ∧ w'.channel_ = w.channel_
  closing : w.state_ ≠ .kDisconnected → w'.Unwatching

variable {w w' : World}

theorem Lasts.same (hs : w'.state_ = w.state_) (hc : w'.channel_ = w.channel_) : w.Lasts w' where
  closed h := ⟨hs.trans h, hc⟩
  closing h h' := absurd (hs.symm.trans h') h

/-- An open connection that stays open. -/
theorem Lasts.open (h : w.state_ ≠ .kDisconnected) (h' : w'.state_ ≠ .kDisconnected) :
    w.Lasts w' where
  closed hc := absurd hc h
  closing _ hc := absurd hc h'

theorem Lasts.of_same {u : World} (h : u.Lasts w') (hs : u.state_ = w.state_)
    (hc : u.channel_ = w.channel_) : w.Lasts w' where
  closed hw := hc ▸ h.closed (hs.trans hw)
  closing hw := h.closing fun hu => hw (hs.symm.trans hu)

theorem Lasts.unwatching (h : w.Lasts w') (hw : w.Unwatching) : w'.Unwatching := by
  intro h'
  by_cases hc : w.state_ = .kDisconnected
  · rw [(h.closed hc).2]
    exact hw hc
  · exact h.closing hc h'

theorem lasts_sendInLoop (r : WriteResult) (t : Thread) (message : Bytes) (w : World) :
    w.Lasts (w.sendInLoop r t message) := by
  by_cases hc : w.state_ = .kDisconnected
  · rw [sendInLoop_closed hc]
    exact .same rfl rfl
  · obtain ⟨direct, events, rest, q, -, -, he⟩ := sendInLoop_open hc r t message
    rw [he]
    exact .open hc hc

theorem lasts_shutdownInLoop (w : World) : w.Lasts w.shutdownInLoop := by
  unfold shutdownInLoop
  split
  · exact .same rfl rfl
  · exact .same rfl rfl

theorem lasts_handleClose (h : w.state_ ≠ .kDisconnected) : w.Lasts w.handleClose where
  closed hc := absurd hc h
  closing _ _ := rfl

theorem lasts_forceCloseInLoop (w : World) : w.Lasts w.forceCloseInLoop := by
  unfold forceCloseInLoop
  split
  · next hs => exact lasts_handleClose (open_of_forceClose hs)
  · exact .same rfl rfl

theorem lasts_startReadInLoop (h : w.state_ ≠ .kDisconnected) : w.Lasts w.startReadInLoop := by
  unfold startReadInLoop
  split
  · exact .open h h
  · exact .same rfl rfl

theorem lasts_stopReadInLoop (hw : w.Unwatching)
    (h : w.state_ = .kDisconnected → w.reading_ = false) : w.Lasts w.stopReadInLoop := by
  unfold stopReadInLoop
  split
  · next hreads =>
    have hopen : w.state_ ≠ .kDisconnected := by
      intro hc
      rw [h hc, Channel.isReading_none (hw hc)] at hreads
      exact absurd hreads nofun
    exact .open hopen hopen
  · exact .same rfl rfl

theorem lasts_handleRead {r : ReadResult} (h : r = .bytes [] → w.state_ ≠ .kDisconnected) :
    w.Lasts (w.handleRead r) := by
  cases r with
  | error => exact .same rfl rfl
  | bytes data =>
    cases data with
    | nil => exact lasts_handleClose (h rfl)
    | cons b data => exact .same rfl rfl

theorem lasts_handleWrite (hw : w.Unwatching) (r : WriteResult) : w.Lasts (w.handleWrite r) := by
  have hopen (hwriting : w.channel_.isWriting = true) : w.state_ ≠ .kDisconnected := by
    intro hc
    rw [Channel.isWriting_none (hw hc)] at hwriting
    exact absurd hwriting nofun
  have hpath := handleWrite_path r w
  generalize w.handleWrite r = w' at hpath
  cases hpath with
  | idle _ => exact .same rfl rfl
  | stuck _ _ => exact .same rfl rfl
  | part _ _ _ => exact .same rfl rfl
  | drained hwriting _ _ _ _ => exact .open (hopen hwriting) (hopen hwriting)

theorem touches_iff {s : Step} : w.touches s = false ↔
    w.runs .startReadInLoop .startRead s = false ∧ w.hangsUp s = false ∧
      (w.runs .stopReadInLoop .stopRead s = true → w.reading_ = false) := by
  simp only [World.touches, reopens, Bool.or_eq_false_iff, and_assoc, Bool.and_eq_false_imp]

theorem lasts_queueInLoop (f : Functor) (w : World) : w.Lasts (w.queueInLoop f) := .same rfl rfl

/-- A call that does not look at `state_`. -/
theorem lasts_call (hw : w.Unwatching) {t : Thread} {c : UserCall} (hc : isTested c = false)
    (h : w.state_ = .kDisconnected → w.touches (.call t c) = false) : w.Lasts (w.call t c) := by
  have hother (ht : t ≠ .loop) : t.isInLoopThread = false := decide_eq_false ht
  cases c with
  | startRead =>
    by_cases ht : t = .loop
    · subst ht
      exact lasts_startReadInLoop fun hc => absurd (touches_iff.mp (h hc)).1 (by simp [runs])
    · rw [call, startRead, hother ht]
      exact lasts_queueInLoop .startReadInLoop w
  | stopRead =>
    by_cases ht : t = .loop
    · subst ht
      exact lasts_stopReadInLoop hw fun hc => (touches_iff.mp (h hc)).2.2 (by simp [runs])
    · rw [call, stopRead, hother ht]
      exact lasts_queueInLoop .stopReadInLoop w
  | retrieveInput n => exact .same rfl rfl
  | _ => exact absurd hc (by simp [isTested])

theorem hangsUp_checkHup {revents : PollMask} {rest : List Frame}
    (hf : w.frames = .checkHup revents :: rest)
    (hup : (revents.pollhup && !revents.pollin) = true) (read : ReadResult)
    (write : WriteResult) : w.hangsUp (.resume read write) = true := by
  simp only [hangsUp, closes, hf, hup]

theorem hangsUp_checkRead {revents : PollMask} {rest : List Frame}
    (hf : w.frames = .checkRead revents :: rest)
    (hread : (revents.pollin || revents.pollpri || revents.pollrdhup) = true)
    (write : WriteResult) : w.hangsUp (.resume (.bytes []) write) = true := by
  simp only [hangsUp, closes, hf, hread, decide_true, Bool.and_true]

theorem lasts_resume (hw : w.Unwatching) {f : Frame} {rest : List Frame}
    (hf : w.frames = f :: rest) {read : ReadResult} {write : WriteResult}
    (h : w.hangsUp (.resume read write) = true → w.state_ ≠ .kDisconnected) :
    w.Lasts (resume read write f { w with frames := rest }) := by
  have hpopped : World.Unwatching { w with frames := rest } := hw
  have hpath := resume_path read write f { w with frames := rest }
  generalize World.resume read write f { w with frames := rest } = w' at hpath
  suffices hlasts : Lasts { w with frames := rest } w' from hlasts.of_same rfl rfl
  cases hpath with
  | skip => exact .same rfl rfl
  | hangUp revents hup => exact lasts_handleClose (h (hangsUp_checkHup hf hup read write))
  | read revents hread =>
    refine lasts_handleRead fun hnil => ?_
    subst hnil
    exact h (hangsUp_checkRead hf hread write)
  | write => exact lasts_handleWrite hpopped write
  | closed => exact .same rfl rfl

theorem runs_functor {f : Functor} {rest : List Functor} (hf : w.pendingFunctors_ = f :: rest)
    (c : UserCall) (write : WriteResult) : w.runs f c (.functor write) = true := by
  simp [runs, hf]

theorem lasts_functor (hw : w.Unwatching) {f : Functor} {rest : List Functor}
    (hf : w.pendingFunctors_ = f :: rest) {write : WriteResult}
    (h : w.state_ = .kDisconnected → w.touches (.functor write) = false) :
    w.Lasts (runFunctor write f { w with pendingFunctors_ := rest }) := by
  suffices hpop : Lasts { w with pendingFunctors_ := rest }
      (runFunctor write f { w with pendingFunctors_ := rest }) from hpop.of_same rfl rfl
  cases f with
  | sendInLoop t message => exact lasts_sendInLoop write t message _
  | shutdownInLoop => exact lasts_shutdownInLoop _
  | forceCloseInLoop => exact lasts_forceCloseInLoop _
  | startReadInLoop =>
    refine lasts_startReadInLoop fun hc => ?_
    exact absurd (runs_functor hf .startRead write) (by rw [(touches_iff.mp (h hc)).1]; nofun)
  | stopReadInLoop =>
    exact lasts_stopReadInLoop hw fun hc =>
      (touches_iff.mp (h hc)).2.2 (runs_functor hf .stopRead write)
  | writeCompleteCallback => exact .same rfl rfl
  | highWaterMarkCallback n => exact .same rfl rfl

/-- A step that is no call which looks at `state_`, and keeps clear of a closed channel. -/
theorem lasts_step {s : Step} (hw : w.Unwatching) (hlast : s ≠ .connectDestroyed)
    (hcall : ∀ t c, s = .call t c → isTested c = false)
    (h : w.state_ = .kDisconnected → w.touches s = false) (hs : w.step s = some w') :
    w.Lasts w' := by
  cases takes_of_step hs with
  | call t c => exact lasts_call hw (hcall t c rfl) h
  | connectEstablished _ hconnecting =>
    exact .open (by rw [hconnecting]; nofun) nofun
  | connectDestroyed _ => exact absurd rfl hlast
  | poll _ _ _ _ _ => exact .same rfl rfl
  | handleEvent _ _ _ => exact .same rfl rfl
  | resume f rest read write hf =>
    refine lasts_resume hw hf fun hup hc => ?_
    exact absurd hup (by rw [(touches_iff.mp (h hc)).2.1]; nofun)
  | functor f rest write _ hf => exact lasts_functor hw hf h
  | timer _ _ => exact (lasts_forceCloseInLoop _).of_same rfl rfl

/-- What the step runs, of the two functions that are also queued. -/
theorem channel_of_runs {s : Step} (hs : w.step s = some w') :
    (w.runs .startReadInLoop .startRead s = true →
      w'.channel_ = w.startReadInLoop.channel_) ∧
    (w.runs .stopReadInLoop .stopRead s = true →
      w'.channel_ = w.stopReadInLoop.channel_) := by
  have hstart (rest : List Functor) :
      (startReadInLoop { w with pendingFunctors_ := rest }).channel_ =
        w.startReadInLoop.channel_ := by
    unfold startReadInLoop
    split <;> rfl
  have hstop (rest : List Functor) :
      (stopReadInLoop { w with pendingFunctors_ := rest }).channel_ =
        w.stopReadInLoop.channel_ := by
    unfold stopReadInLoop
    split <;> rfl
  cases takes_of_step hs with
  | call t c =>
    constructor
    · intro hruns
      simp only [runs, Bool.and_eq_true, decide_eq_true_eq] at hruns
      obtain ⟨rfl, rfl⟩ := hruns
      rfl
    · intro hruns
      simp only [runs, Bool.and_eq_true, decide_eq_true_eq] at hruns
      obtain ⟨rfl, rfl⟩ := hruns
      rfl
  | functor f rest write _ hf =>
    constructor
    · intro hruns
      simp only [runs, hf, List.head?_cons, Option.some.injEq, decide_eq_true_eq] at hruns
      subst hruns
      exact hstart rest
    · intro hruns
      simp only [runs, hf, List.head?_cons, Option.some.injEq, decide_eq_true_eq] at hruns
      subst hruns
      exact hstop rest
  | connectEstablished | connectDestroyed | poll | handleEvent | resume | timer =>
    exact ⟨fun h => absurd h Bool.false_ne_true, fun h => absurd h Bool.false_ne_true⟩

theorem channel_of_hangsUp {s : Step} (hs : w.step s = some w') (h : w.hangsUp s = true) :
    w'.channel_ = w.channel_.disableAll := by
  cases takes_of_step hs with
  | resume f rest read write hf =>
    have hcloses : w.closes (.resume read write) = true := h
    cases f with
    | checkHup revents =>
      simp only [closes, hf] at hcloses
      simp only [resume, hcloses, if_true]
      rfl
    | checkRead revents =>
      simp only [closes, hf, Bool.and_eq_true, decide_eq_true_eq] at hcloses
      obtain ⟨hread, rfl⟩ := hcloses
      simp only [resume, hread, if_true]
      rfl
    | _ => simp [closes, hf] at hcloses
  | _ => exact absurd h Bool.false_ne_true

theorem touched {s : Step} (hnone : w.channel_.isNoneEvent = true) (h : w.touches s = true)
    (hs : w.step s = some w') : w'.channel_ ≠ w.channel_ := by
  have hclear := Channel.clear_ne (Channel.isNoneEvent_iff.mp hnone)
  have hreading := Channel.isReading_none hnone
  simp only [World.touches, reopens, Bool.or_eq_true, Bool.and_eq_true] at h
  rcases h with (hruns | hup) | ⟨hruns, hreads⟩
  · rw [(channel_of_runs hs).1 hruns, startReadInLoop, if_pos (by simp [hreading])]
    intro heq
    have hreads := Channel.isReading_enableReading w.channel_
    rw [show w.channel_.enableReading = w.channel_ from heq, hreading] at hreads
    exact absurd hreads nofun
  · rw [channel_of_hangsUp hs hup]
    exact hclear.1
  · rw [(channel_of_runs hs).2 hruns, stopReadInLoop, if_pos (by simp [hreads])]
    exact hclear.2

theorem mapped_removeChannel (w : World) : w.removeChannel.channel_.slot.mapped = false :=
  Channel.mapped_remove _

/-- `stopReadInLoop` updates a closed channel, but only takes events away. -/
theorem unwatching_stopRead {s : Step} (hw : w.Unwatching) (hclosed : w.state_ = .kDisconnected)
    (hruns : w.runs .stopReadInLoop .stopRead s = true) (hs : w.step s = some w') :
    w'.Unwatching := by
  intro _
  have hnone := hw hclosed
  rw [(channel_of_runs hs).2 hruns, stopReadInLoop]
  split
  · have hevents := Channel.isNoneEvent_iff.mp hnone
    exact Channel.isNoneEvent_iff.mpr (by simp [Channel.disableReading, hevents]; rfl)
  · exact hnone

end World

namespace Threads.World

/-- The step updates the channel of a closed connection. -/
def touches (w : World) : Step → Bool
  | .conn s => w.conn.state_ = .kDisconnected && w.conn.touches s
  | _ => false

/-- The step calls `channel_->remove()`. -/
def removes (w : World) : Step → Bool
  | .connectDestroyed => w.conn.state_ ≠ .kConnected
  | .resumeDestroyed => w.destroying = some .remove
  | _ => false

/-- What a step may do where the connection is closed before or after it. Without a watched
event, `Channel::update` is called exactly where the channel changes. -/
structure LeavesClosed (w : World) (s : Step) (w' : World) : Prop where
  closed : w.conn.state_ = .kDisconnected → w'.conn.state_ = .kDisconnected
  channel : w.conn.state_ = .kDisconnected → w.removes s = false →
    w'.conn.channel_ = w.conn.channel_
  watching : w'.conn.state_ = .kDisconnected → w'.conn.channel_.isNoneEvent = true
  /-- `remove` finds these events. -/
  removed : w.removes s = true →
    w'.conn.channel_.isNoneEvent = true ∧ w'.conn.channel_.slot.mapped = false

instance (w : World) (s : Step) (w' : World) : Decidable (w.LeavesClosed s w') :=
  decidable_of_iff ((w.conn.state_ = .kDisconnected → w'.conn.state_ = .kDisconnected) ∧
      (w.conn.state_ = .kDisconnected → w.removes s = false →
        w'.conn.channel_ = w.conn.channel_) ∧
      (w'.conn.state_ = .kDisconnected → w'.conn.channel_.isNoneEvent = true) ∧
      (w.removes s = true →
        w'.conn.channel_.isNoneEvent = true ∧ w'.conn.channel_.slot.mapped = false))
    ⟨fun h => ⟨h.1, h.2.1, h.2.2.1, h.2.2.2⟩, fun h => ⟨h.1, h.2, h.3, h.4⟩⟩

/-- The condition on a step, at the state it starts from. -/
structure KeepsClear (w : World) (s : Step) : Prop where
  touches : w.touches s = false
  revives : w.revives s = false
  destroyed : s = .connectDestroyed →
    w.conn.state_ = .kConnecting ∨ w.conn.state_ = .kDisconnecting →
    w.conn.channel_.isNoneEvent = true

instance (w : World) (s : Step) : Decidable (w.KeepsClear s) :=
  decidable_of_iff (w.touches s = false ∧ w.revives s = false ∧
      (s = .connectDestroyed →
        w.conn.state_ = .kConnecting ∨ w.conn.state_ = .kDisconnecting →
        w.conn.channel_.isNoneEvent = true))
    ⟨fun h => ⟨h.1, h.2.1, h.2.2⟩, fun h => ⟨h.1, h.2, h.3⟩⟩

/-- Where `connectDestroyed` is, if no call has reopened the connection. -/
structure Phase (w : World) : Prop where
  close : w.destroying = some .close → w.conn.state_ ≠ .kDisconnected
  remove : w.destroying = some .remove → w.conn.state_ = .kDisconnected

variable {w w' : World}

/-- In `connectDestroyed` the connection takes no step, but a user may call. -/
theorem state_of_allows {s : Net.Step} {c : Net.World} (h : w.allows s = true)
    (hd : w.destroying ≠ none) (hs : w.conn.step s = some c) : c.state_ = w.conn.state_ := by
  cases Net.World.takes_of_step hs with
  | call t u =>
    cases u with
    | startRead =>
      simp only [Net.World.call, Net.World.startRead, Net.World.startReadInLoop]
      split
      · split <;> rfl
      · rfl
    | stopRead =>
      simp only [Net.World.call, Net.World.stopRead, Net.World.stopReadInLoop]
      split
      · split <;> rfl
      · rfl
    | retrieveInput n => rfl
    | _ => exact absurd (allows_call h) (by simp [isTested])
  | connectDestroyed => exact absurd h Bool.false_ne_true
  | _ =>
    simp only [allows, between, Bool.and_eq_true, Option.isNone_iff_eq_none] at h
    exact absurd h.2 hd

theorem refuse_same (t : Thread) (c : Call) (conn : Net.World) :
    (c.refuse t conn).state_ = conn.state_ ∧ (c.refuse t conn).channel_ = conn.channel_ := by
  cases c <;> exact ⟨rfl, rfl⟩

/-- The next step of a call, unless it reopens the connection. -/
theorem lasts_act {t : Thread} {l : Left} (write : WriteResult)
    (hl : w.left.lookup t = some l) (h : w.revives (.next t write) = false) :
    w.conn.Lasts (l.act write t w.conn) := by
  cases l with
  | sendInLoop message =>
    simp only [Left.act]
    split
    · exact (Net.World.lasts_sendInLoop write t message _).of_same rfl rfl
    · exact .same rfl rfl
  | setState k =>
    have hopen : w.conn.state_ ≠ .kDisconnected := by simpa [revives, hl] using h
    exact .open hopen (by simp [state_setState])
  | closeInLoop k =>
    cases k with
    | shutdown =>
      simp only [Left.act]
      split
      · exact Net.World.lasts_shutdownInLoop _
      · exact Net.World.lasts_queueInLoop .shutdownInLoop _
    | forceClose => exact Net.World.lasts_queueInLoop .forceCloseInLoop _
    | forceCloseWithDelay => exact .same rfl rfl

/-- A step that does not call `remove` and keeps clear of a closed channel. -/
theorem lasts_step {s : Step} (hw : w.conn.Unwatching) (hp : w.Phase)
    (hremoves : w.removes s = false) (htouches : w.touches s = false)
    (hrevives : w.revives s = false) (hs : w.step s = some w') : w.conn.Lasts w'.conn := by
  cases takes_of_step hs with
  | conn s c ha hconn =>
    refine Net.World.lasts_step hw ?_ (fun t u he => allows_call (he ▸ ha)) (fun hc => ?_) hconn
    · rintro rfl
      exact absurd ha nofun
    · simpa [World.touches, hc] using htouches
  | test t c l _ _ => exact .same rfl rfl
  | refused t c _ => exact .same (refuse_same t c w.conn).1 (refuse_same t c w.conn).2
  | next t write l hl => exact lasts_act write hl hrevives
  | connectDestroyed _ _ => exact .same rfl rfl
  | destroyed _ hstate => exact absurd hremoves (by simp [removes, hstate])
  | disconnect hd => exact ⟨fun hc => absurd hc (hp.close hd), fun _ _ => rfl⟩
  | remove hd => exact absurd hremoves (by simp [removes, hd])

/-- A step that keeps a closed connection closed. -/
theorem phase_step {s : Step} (hp : w.Phase) (hs : w.step s = some w')
    (hclosed : w.conn.state_ = .kDisconnected → w'.conn.state_ = .kDisconnected) : w'.Phase := by
  have hsame {v : World} (hd : v.destroying = w.destroying)
      (hstate : w.destroying ≠ none → v.conn.state_ = w.conn.state_) : v.Phase := by
    refine ⟨fun h => ?_, fun h => ?_⟩
    · rw [hd] at h
      rw [hstate (by rw [h]; nofun)]
      exact hp.close h
    · rw [hd] at h
      rw [hstate (by rw [h]; nofun)]
      exact hp.remove h
  cases takes_of_step hs with
  | conn s c ha hconn => exact hsame rfl fun hd => state_of_allows ha hd hconn
  | test t c l _ _ => exact hsame rfl fun _ => rfl
  | refused t c _ => exact hsame rfl fun _ => (refuse_same t c w.conn).1
  | next t write l hl =>
    refine ⟨fun h => ?_, fun h => hclosed (hp.remove h)⟩
    rcases state_act write t l w.conn with hstate | hstate <;>
      rw [show (w.goOn t write l).conn.state_ = _ from hstate]
    · exact hp.close h
    · exact nofun
  | connectDestroyed _ hstate => exact ⟨fun _ => by rw [hstate]; nofun, nofun⟩
  | destroyed _ _ => exact hsame rfl fun _ => rfl
  | disconnect _ => exact ⟨nofun, fun _ => rfl⟩
  | remove _ => exact ⟨nofun, nofun⟩

theorem touched {s : Step} (hw : w.conn.Unwatching) (h : w.touches s = true)
    (hs : w.step s = some w') :
    w.conn.state_ = .kDisconnected ∧ w'.conn.channel_ ≠ w.conn.channel_ := by
  cases takes_of_step hs with
  | conn s c _ hconn =>
    simp only [World.touches, Bool.and_eq_true, decide_eq_true_eq] at h
    exact ⟨h.1, Net.World.touched (hw h.1) h.2 hconn⟩
  | _ => exact absurd h Bool.false_ne_true

theorem revived {s : Step} (h : w.revives s = true) (hs : w.step s = some w') :
    w.conn.state_ = .kDisconnected ∧ w'.conn.state_ ≠ .kDisconnected := by
  cases takes_of_step hs with
  | next t write l hl =>
    cases l with
    | setState k =>
      refine ⟨by simpa [revives, hl] using h, ?_⟩
      simp [goOn, state_setState]
    | _ => exact absurd h (by simp [revives, hl])
  | _ => exact absurd h Bool.false_ne_true

/-- A step short of `remove`. -/
theorem leavesClosed_other {s : Step} (hw : w.conn.Unwatching) (hp : w.Phase)
    (hremoves : w.removes s = false) (hs : w.step s = some w') :
    w.LeavesClosed s w' ↔ w.KeepsClear s := by
  constructor
  · intro h
    refine ⟨?_, ?_, fun hd hstate => ?_⟩
    · by_contra htouches
      obtain ⟨hclosed, hchannel⟩ := touched hw (by simpa using htouches) hs
      exact hchannel (h.channel hclosed hremoves)
    · by_contra hrevives
      obtain ⟨hclosed, hopen⟩ := revived (by simpa using hrevives) hs
      exact hopen (h.closed hclosed)
    · subst hd
      have hconnected : w.conn.state_ = .kConnected := by simpa [removes] using hremoves
      rcases hstate with hstate | hstate <;> exact absurd (hconnected.symm.trans hstate) nofun
  · intro h
    have hlasts := lasts_step hw hp hremoves h.touches h.revives hs
    exact ⟨fun hc => (hlasts.closed hc).1, fun hc _ => (hlasts.closed hc).2,
      hlasts.unwatching hw, fun hr => absurd hremoves (by rw [hr]; nofun)⟩

/-- The two places where `connectDestroyed` calls `remove`. -/
theorem leavesClosed_removes {s : Step} (hw : w.conn.Unwatching) (hp : w.Phase)
    (hremoves : w.removes s = true) (hs : w.step s = some w') :
    w.LeavesClosed s w' ↔ w.KeepsClear s := by
  have hfalse (hr : w.removes s = false) : False := Bool.false_ne_true (hr.symm.trans hremoves)
  have hmapped := Net.World.mapped_removeChannel w.conn
  cases takes_of_step hs with
  | destroyed _ hstate =>
    constructor
    · exact fun h => ⟨rfl, rfl, fun _ _ => (h.removed hremoves).1⟩
    · intro h
      have hnone : w.conn.channel_.isNoneEvent = true := by
        cases hs : w.conn.state_ with
        | kConnected => exact absurd hs hstate
        | kDisconnected => exact hw hs
        | kConnecting => exact h.destroyed rfl (.inl hs)
        | kDisconnecting => exact h.destroyed rfl (.inr hs)
      exact ⟨id, fun _ hr => (hfalse hr).elim, fun _ => hnone, fun _ => ⟨hnone, hmapped⟩⟩
  | remove hd =>
    have hnone : w.conn.channel_.isNoneEvent = true := hw (hp.remove hd)
    refine iff_of_true ?_ ⟨rfl, rfl, fun h => absurd h nofun⟩
    exact ⟨id, fun _ hr => (hfalse hr).elim, fun _ => hnone, fun _ => ⟨hnone, hmapped⟩⟩
  | disconnect hd => exact absurd hremoves (by simp [removes, hd])
  | connectDestroyed _ hstate => exact absurd hremoves (by simp [removes, hstate])
  | conn | test | refused | next => exact absurd hremoves Bool.false_ne_true

/-- A step leaves a closed connection's channel alone exactly if it meets the condition. -/
theorem leavesClosed_iff {s : Step} (hw : w.conn.Unwatching) (hp : w.Phase)
    (hs : w.step s = some w') : w.LeavesClosed s w' ↔ w.KeepsClear s := by
  cases hremoves : w.removes s with
  | false => exact leavesClosed_other hw hp hremoves hs
  | true => exact leavesClosed_removes hw hp hremoves hs

/-- In every run, the steps leave the channel of a closed connection alone exactly if none
of them starts to read on it, stops what was being read, closes it again from a handler,
sets its state back, or destroys a connection that is not yet or no longer connected and
still watches events. -/
theorem closedChannel_leftAlone_iff (c : Config) (steps : List Step) (w : World)
    (hw : run step (new c) steps = some w) :
    EveryStep step LeavesClosed (new c) steps ↔ StepsMeet step KeepsClear (new c) steps := by
  have hiff (w : World) (s : Step) (w' : World) (h : w.conn.Unwatching ∧ w.Phase) (_ : True)
      (hs : w.step s = some w') : w.LeavesClosed s w' ↔ w.KeepsClear s :=
    leavesClosed_iff h.1 h.2 hs
  have hkeep (w : World) (s : Step) (w' : World) (h : w.conn.Unwatching ∧ w.Phase) (_ : True)
      (hs : w.step s = some w') (hleaves : w.LeavesClosed s w') :
      w'.conn.Unwatching ∧ w'.Phase :=
    ⟨hleaves.watching, phase_step h.2 hs hleaves.closed⟩
  exact everyStep_iff step hiff hkeep ⟨fun _ => rfl, nofun, nofun⟩ (.trivial step _ _) hw

/-- The owner destroys a connection, whose user calls from the callback and reads no more;
another thread has yet to queue its message. -/
def destroyedAndLate : List Step :=
  [.conn .connectEstablished, .conn (.call .loop .stopRead), .conn (.call .loop .startRead),
    .test (.other 1) (.send [1]), .connectDestroyed, .resumeDestroyed,
    .test .loop (.close .forceClose), .test .loop (.sendBuffer [2]), .next .loop (.count 1),
    .resumeDestroyed, .next (.other 1) (.count 0), .conn (.functor (.count 1)),
    .test (.other 1) (.close .shutdown)]

theorem closedChannel_leftAlone_destroyedAndLate :
    ∃ w, run step (new {}) destroyedAndLate = some w ∧
      EveryStep step LeavesClosed (new {}) destroyedAndLate := by
  have hsome : (run step (new {}) destroyedAndLate).isSome = true := by decide
  obtain ⟨w, hw⟩ := Option.isSome_iff_exists.mp hsome
  exact ⟨w, hw, (closedChannel_leftAlone_iff {} _ w hw).mpr (by decide)⟩

/-- Another thread starts to read; the peer closes before the loop gets to it. -/
def startReadAfterClose : List Step :=
  [.conn .connectEstablished, .conn (.poll { pollin := true }),
    .conn (.call (.other 1) .startRead), .conn .handleEvent,
    .conn (.resume .error (.count 0)), .conn (.resume .error (.count 0)),
    .conn (.resume (.bytes []) (.count 0)), .conn (.resume .error (.count 0)),
    .conn (.resume .error (.count 0)), .conn (.functor (.count 0)), .connectDestroyed]

theorem closedChannel_startRead : ¬ ∀ (c : Config) (steps : List Step),
    EveryStep step LeavesClosed (new c) steps := by
  intro h
  exact absurd (h {} startReadAfterClose) (by decide)

end Threads.World

end Cnet.Net
