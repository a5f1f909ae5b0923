import Cnet.Net.TcpConnection

/-!
# What each member function of the connection can do

One description a function that branches: the fields it changes, the events it
adds, and the condition of each branch. The invariants are derived from these and
do not unfold the functions again.
-/

namespace Cnet.Net

namespace World

/-- The channel after `rest` is put in the output buffer. -/
def writingChannel (rest : Bytes) (c : Channel) : Channel :=
  if rest = [] || c.isWriting then c else c.enableWriting

theorem isWriting_writingChannel (rest : Bytes) (c : Channel) :
    (writingChannel rest c).isWriting = (c.isWriting || !rest.isEmpty) := by
  unfold writingChannel
  cases rest <;> cases hc : c.isWriting <;> simp [hc]

/-- `keepRemaining` buffers the rest, asks for write events, and may queue one
high-water-mark notification. -/
theorem keepRemaining_eq (rest : Bytes) (w : World) :
    ∃ q, (∀ f ∈ q, ∃ n, f = Functor.highWaterMarkCallback n) ∧
      w.keepRemaining rest = { w with
        channel_ := writingChannel rest w.channel_
        outputBuffer_ := w.outputBuffer_ ++ rest
        pendingFunctors_ := w.pendingFunctors_ ++ q
        trace := w.trace ++ if rest = [] then [] else [.buffered rest] } := by
  by_cases hr : rest = []
  · subst hr
    exact ⟨[], by simp, by simp [keepRemaining, writingChannel]⟩
  · by_cases hm : (w.highWaterMark_ ≤ w.outputBuffer_.length + rest.length &&
        w.outputBuffer_.length < w.highWaterMark_ && w.highWaterMarkCallback_) = true
    · refine ⟨[.highWaterMarkCallback (w.outputBuffer_.length + rest.length)], by simp, ?_⟩
      cases hc : w.channel_.isWriting <;>
        simp [keepRemaining, hr, hm, writingChannel, hc, queueInLoop, record]
    · refine ⟨[], by simp, ?_⟩
      cases hc : w.channel_.isWriting <;>
        simp [keepRemaining, hr, hm, writingChannel, hc, record]

/-- How `sendInLoop` came to leave `rest` for the output buffer. -/
inductive SendPath (r : WriteResult) (message : Bytes) (w : World) :
    Option WriteResult → List Event → Bytes → Prop
  /-- Output is pending already: everything is buffered. -/
  | behind (h : ¬ (w.channel_.isWriting = false ∧ w.outputBuffer_ = [])) :
      SendPath r message w none [] message
  /-- The direct write took `n` bytes. -/
  | wrote (hw : w.channel_.isWriting = false) (ho : w.outputBuffer_ = []) (n : Nat)
      (hr : r = .count n) :
      SendPath r message w (some r) [.write message r] (message.drop (min n message.length))
  /-- The direct write failed for now. -/
  | retry (hw : w.channel_.isWriting = false) (ho : w.outputBuffer_ = []) (e : Errno)
      (hr : r = .error e) (he : e.isFault = false) :
      SendPath r message w (some r) [.write message r] message
  /-- The direct write failed for good: the message is dropped. -/
  | fault (hw : w.channel_.isWriting = false) (ho : w.outputBuffer_ = []) (e : Errno)
      (hr : r = .error e) (he : e.isFault = true) :
      SendPath r message w (some r) [.write message r] []

theorem sendInLoop_closed {w : World} (h : w.state_ = .kDisconnected) (r : WriteResult)
    (t : Thread) (message : Bytes) :
    w.sendInLoop r t message = w.record (.gaveUp t message) := if_pos h

/-- `sendInLoop` in an open state: a direct write or none, then `keepRemaining`. -/
theorem sendInLoop_open {w : World} (h : w.state_ ≠ .kDisconnected) (r : WriteResult)
    (t : Thread) (message : Bytes) :
    ∃ direct events rest q, SendPath r message w direct events rest ∧
      (∀ f ∈ q, f = Functor.writeCompleteCallback ∨ ∃ n, f = .highWaterMarkCallback n) ∧
      w.sendInLoop r t message = { w with
        channel_ := writingChannel rest w.channel_
        outputBuffer_ := w.outputBuffer_ ++ rest
        pendingFunctors_ := w.pendingFunctors_ ++ q
        trace := w.trace ++ .processed t message direct :: events ++
          if rest = [] then [] else [.buffered rest] } := by
  by_cases hd : w.channel_.isWriting = false ∧ w.outputBuffer_ = []
  · obtain ⟨hw, ho⟩ := hd
    cases r with
    | count n =>
      by_cases hc : message.drop (min n message.length) = [] ∧ w.writeCompleteCallback_ = true
      · refine ⟨_, _, _, [.writeCompleteCallback], .wrote hw ho n rfl, by simp, ?_⟩
        simp [sendInLoop, h, hw, ho, hc, record, queueInLoop, keepRemaining, writingChannel]
      · obtain ⟨q, hq, he⟩ := keepRemaining_eq (message.drop (min n message.length))
          ((w.record (.processed t message (some (.count n)))).record (.write message (.count n)))
        refine ⟨_, _, _, q, .wrote hw ho n rfl, fun f hf => .inr (hq f hf), ?_⟩
        unfold sendInLoop
        rw [if_neg h, if_pos (by simp [hw, ho])]
        dsimp only
        rw [if_neg (by simpa [record] using hc), he]
        simp [record]
    | error e =>
      by_cases hf : e.isFault = true
      · refine ⟨_, _, _, [], .fault hw ho e rfl hf, by simp, ?_⟩
        simp [sendInLoop, h, hw, ho, hf, record, writingChannel]
      · have hf' : e.isFault = false := by simpa using hf
        obtain ⟨q, hq, he⟩ := keepRemaining_eq message
          ((w.record (.processed t message (some (.error e)))).record (.write message (.error e)))
        refine ⟨_, _, _, q, .retry hw ho e rfl hf', fun f hf => .inr (hq f hf), ?_⟩
        unfold sendInLoop
        rw [if_neg h, if_pos (by simp [hw, ho])]
        dsimp only
        rw [if_neg hf, he]
        simp [record]
  · obtain ⟨q, hq, he⟩ := keepRemaining_eq message (w.record (.processed t message none))
    refine ⟨_, _, _, q, .behind hd, fun f hf => .inr (hq f hf), ?_⟩
    unfold sendInLoop
    rw [if_neg h, if_neg (by simpa using hd), he]
    simp [record]

theorem state_sendInLoop (r : WriteResult) (t : Thread) (message : Bytes) (w : World) :
    (w.sendInLoop r t message).state_ = w.state_ := by
  by_cases hd : w.state_ = .kDisconnected
  · rw [sendInLoop_closed hd]
    rfl
  · obtain ⟨direct, events, rest, q, -, -, he⟩ := sendInLoop_open hd r t message
    rw [he]

theorem state_shutdownInLoop (w : World) : w.shutdownInLoop.state_ = w.state_ := by
  unfold shutdownInLoop
  split <;> rfl

/-- A `send` was called and takes the message. -/
def accept (t : Thread) (message : Bytes) (w : World) : World :=
  (w.record (.send t message)).record (.accepted t message)

theorem send_refused {w : World} (h : w.state_ ≠ .kConnected) (r : WriteResult) (t : Thread)
    (message : Bytes) : w.send r t message = w.record (.send t message) := if_neg h

theorem send_loop {w : World} (h : w.state_ = .kConnected) (r : WriteResult) (message : Bytes) :
    w.send r .loop message = (w.accept .loop message).sendInLoop r .loop message := if_pos h

theorem send_other {w : World} (h : w.state_ = .kConnected) {t : Thread} (ht : t ≠ .loop)
    (r : WriteResult) (message : Bytes) :
    w.send r t message = (w.accept t message).queueInLoop (.sendInLoop t message) := by
  simp [send, accept, record, h, ht, Thread.isInLoopThread]

theorem sendBuffer_loop (w : World) (r : WriteResult) (buf : Bytes) :
    w.sendBuffer r .loop buf = ((w.accept .loop buf).sendInLoop r .loop buf, []) := by
  by_cases h : w.state_ = .kConnected <;>
    simp [sendBuffer, accept, record, h, Thread.isInLoopThread]

/-- The branch that does nothing: connected, called from another thread. -/
theorem sendBuffer_ignored {w : World} (h : w.state_ = .kConnected) {t : Thread} (ht : t ≠ .loop)
    (r : WriteResult) (buf : Bytes) :
    w.sendBuffer r t buf = (w.record (.send t buf), buf) := by
  simp [sendBuffer, record, h, ht, Thread.isInLoopThread]

theorem sendBuffer_other {w : World} (h : w.state_ ≠ .kConnected) {t : Thread} (ht : t ≠ .loop)
    (r : WriteResult) (buf : Bytes) :
    w.sendBuffer r t buf = ((w.accept t buf).queueInLoop (.sendInLoop t buf), []) := by
  simp [sendBuffer, accept, record, h, ht, Thread.isInLoopThread]

theorem open_of_forceClose {w : World}
    (h : (w.state_ = .kConnected || w.state_ = .kDisconnecting) = true) :
    w.state_ ≠ .kDisconnected := by
  intro hs
  simp [hs] at h

/-- What `handleWrite` did with the pending output. -/
inductive WritePath (r : WriteResult) (w : World) : World → Prop
  | idle (h : w.channel_.isWriting = false) : WritePath r w w
  /-- The write failed, or took nothing. -/
  | stuck (h : w.channel_.isWriting = true) (hn : r.nwrote w.outputBuffer_.length = 0) :
      WritePath r w (w.record (.write w.outputBuffer_ r))
  /-- The write took a proper part. -/
  | part (h : w.channel_.isWriting = true) (hn : 0 < r.nwrote w.outputBuffer_.length)
      (hlt : r.nwrote w.outputBuffer_.length < w.outputBuffer_.length) :
      WritePath r w { w.record (.write w.outputBuffer_ r) with
        outputBuffer_ := w.outputBuffer_.drop (r.nwrote w.outputBuffer_.length) }
  /-- The write took everything: no more write events, and `SHUT_WR` if it was put off. -/
  | drained (h : w.channel_.isWriting = true) (hn : 0 < w.outputBuffer_.length)
      (hall : r.nwrote w.outputBuffer_.length = w.outputBuffer_.length)
      (q : List Functor) (hq : ∀ f ∈ q, f = Functor.writeCompleteCallback) :
      WritePath r w { w with
        outputBuffer_ := []
        channel_ := w.channel_.disableWriting
        pendingFunctors_ := w.pendingFunctors_ ++ q
        trace := w.trace ++ .write w.outputBuffer_ r ::
          if w.state_ = .kDisconnecting then [.shutdownWrite []] else [] }

theorem nwrote_le (r : WriteResult) (len : Nat) : r.nwrote len ≤ len := by
  cases r with
  | count n => exact Nat.min_le_right n len
  | error e => exact Nat.zero_le len

theorem handleWrite_path (r : WriteResult) (w : World) : WritePath r w (w.handleWrite r) := by
  cases hw : w.channel_.isWriting with
  | false =>
    have he : w.handleWrite r = w := by simp [handleWrite, hw]
    rw [he]
    exact .idle hw
  | true =>
    have hle := nwrote_le r w.outputBuffer_.length
    by_cases hn : r.nwrote w.outputBuffer_.length = 0
    · have he : w.handleWrite r = w.record (.write w.outputBuffer_ r) := by
        simp [handleWrite, hw, hn]
      rw [he]
      exact .stuck hw hn
    · by_cases hall : r.nwrote w.outputBuffer_.length = w.outputBuffer_.length
      · have hpath := WritePath.drained hw (r := r) (by omega) hall
          (if w.writeCompleteCallback_ then [.writeCompleteCallback] else [])
          (by cases w.writeCompleteCallback_ <;> simp)
        have hd : w.outputBuffer_.drop (r.nwrote w.outputBuffer_.length) = [] := by
          rw [hall, List.drop_length]
        convert hpath using 1
        cases hc : w.writeCompleteCallback_ <;> by_cases hs : w.state_ = .kDisconnecting <;>
          simp [handleWrite, hw, Nat.pos_of_ne_zero hn, hd, hc, hs, record, queueInLoop,
            shutdownInLoop]
      · have hlt : r.nwrote w.outputBuffer_.length < w.outputBuffer_.length := by omega
        have hd : w.outputBuffer_.drop (r.nwrote w.outputBuffer_.length) ≠ [] := by
          intro h0
          have := congrArg List.length h0
          rw [List.length_drop, List.length_nil] at this
          omega
        have he : w.handleWrite r = { w.record (.write w.outputBuffer_ r) with
            outputBuffer_ := w.outputBuffer_.drop (r.nwrote w.outputBuffer_.length) } := by
          unfold handleWrite
          rw [if_pos hw]
          dsimp only [record]
          rw [if_pos (Nat.pos_of_ne_zero hn)]
          exact if_neg hd
        rw [he]
        exact .part hw (Nat.pos_of_ne_zero hn) hlt

theorem state_handleWrite (r : WriteResult) (w : World) :
    (w.handleWrite r).state_ = w.state_ := by
  have hpath := handleWrite_path r w
  generalize w.handleWrite r = w' at hpath
  cases hpath <;> rfl

/-- What a user call does. -/
inductive CallPath (w : World) : Thread → UserCall → World → Prop
  | sendNow (message : Bytes) (r : WriteResult) (hs : w.state_ = .kConnected) :
      CallPath w .loop (.send message r) ((w.accept .loop message).sendInLoop r .loop message)
  | sendLater (t : Thread) (message : Bytes) (r : WriteResult) (hs : w.state_ = .kConnected)
      (ht : t ≠ .loop) : CallPath w t (.send message r)
        ((w.accept t message).queueInLoop (.sendInLoop t message))
  | sendRefused (t : Thread) (message : Bytes) (r : WriteResult) (hs : w.state_ ≠ .kConnected) :
      CallPath w t (.send message r) (w.record (.send t message))
  | sendBufferNow (buf : Bytes) (r : WriteResult) :
      CallPath w .loop (.sendBuffer buf r) ((w.accept .loop buf).sendInLoop r .loop buf)
  | sendBufferLater (t : Thread) (buf : Bytes) (r : WriteResult) (hs : w.state_ ≠ .kConnected)
      (ht : t ≠ .loop) : CallPath w t (.sendBuffer buf r)
        ((w.accept t buf).queueInLoop (.sendInLoop t buf))
  | sendBufferIgnored (t : Thread) (buf : Bytes) (r : WriteResult)
      (hs : w.state_ = .kConnected) (ht : t ≠ .loop) :
      CallPath w t (.sendBuffer buf r) (w.record (.send t buf))
  | shutdown (t : Thread) : CallPath w t .shutdown (w.shutdown t)
  | forceClose (t : Thread) : CallPath w t .forceClose w.forceClose
  | forceCloseWithDelay (t : Thread) :
      CallPath w t .forceCloseWithDelay w.forceCloseWithDelay
  | startReadNow : CallPath w .loop .startRead w.startReadInLoop
  | startReadLater (t : Thread) : CallPath w t .startRead (w.queueInLoop .startReadInLoop)
  | stopReadNow : CallPath w .loop .stopRead w.stopReadInLoop
  | stopReadLater (t : Thread) : CallPath w t .stopRead (w.queueInLoop .stopReadInLoop)
  | retrieveInput (t : Thread) (n : Nat) :
      CallPath w t (.retrieveInput n) { w with inputBuffer_ := w.inputBuffer_.drop n }

theorem call_path (t : Thread) (c : UserCall) (w : World) : w.CallPath t c (w.call t c) := by
  have hother {t : Thread} (ht : t ≠ .loop) : t.isInLoopThread = false := decide_eq_false ht
  cases c with
  | send message r =>
    show w.CallPath t _ (w.send r t message)
    by_cases hs : w.state_ = .kConnected
    · by_cases ht : t = .loop
      · subst ht
        rw [send_loop hs]
        exact .sendNow message r hs
      · rw [send_other hs ht]
        exact .sendLater t message r hs ht
    · rw [send_refused hs]
      exact .sendRefused t message r hs
  | sendBuffer buf r =>
    show w.CallPath t _ (w.sendBuffer r t buf).1
    by_cases ht : t = .loop
    · subst ht
      rw [sendBuffer_loop]
      exact .sendBufferNow buf r
    · by_cases hs : w.state_ = .kConnected
      · rw [sendBuffer_ignored hs ht]
        exact .sendBufferIgnored t buf r hs ht
      · rw [sendBuffer_other hs ht]
        exact .sendBufferLater t buf r hs ht
  | shutdown => exact .shutdown t
  | forceClose => exact .forceClose t
  | forceCloseWithDelay => exact .forceCloseWithDelay t
  | startRead =>
    show w.CallPath t _ (w.startRead t)
    by_cases ht : t = .loop
    · subst ht
      exact .startReadNow
    · rw [startRead, hother ht]
      exact .startReadLater t
  | stopRead =>
    show w.CallPath t _ (w.stopRead t)
    by_cases ht : t = .loop
    · subst ht
      exact .stopReadNow
    · rw [stopRead, hother ht]
      exact .stopReadLater t
  | retrieveInput n => exact .retrieveInput t n

/-- What the next frame of a handler does. -/
inductive ResumePath (read : ReadResult) (write : WriteResult) (w : World) :
    Frame → World → Prop
  | skip (f : Frame) (hf : f ≠ .closeCallback) : ResumePath read write w f w
  | hangUp (revents : PollMask) (hup : (revents.pollhup && !revents.pollin) = true) :
      ResumePath read write w (.checkHup revents) w.handleClose
  | read (revents : PollMask)
      (hread : (revents.pollin || revents.pollpri || revents.pollrdhup) = true) :
      ResumePath read write w (.checkRead revents) (w.handleRead read)
  | write (revents : PollMask) (hwrite : revents.pollout = true) :
      ResumePath read write w (.checkWrite revents) (w.handleWrite write)
  | closed : ResumePath read write w .closeCallback (w.record .closeCallback)

theorem resume_path (read : ReadResult) (write : WriteResult) (f : Frame) (w : World) :
    w.ResumePath read write f (w.resume read write f) := by
  unfold resume
  cases f with
  | checkHup revents =>
    dsimp only
    split
    · next hup => exact .hangUp revents hup
    · exact .skip _ nofun
  | checkErr revents => exact .skip _ nofun
  | checkRead revents =>
    dsimp only
    split
    · next hread => exact .read revents hread
    · exact .skip _ nofun
  | checkWrite revents =>
    dsimp only
    split
    · next hwrite => exact .write revents hwrite
    · exact .skip _ nofun
  | closeCallback => exact .closed

/-- The steps that are enabled, each with its guard and where it leads. -/
inductive Takes (w : World) : Step → World → Prop
  | call (t : Thread) (c : UserCall) : Takes w (.call t c) (w.call t c)
  | connectEstablished (hi : w.idle = true) (hs : w.state_ = .kConnecting) :
      Takes w .connectEstablished w.connectEstablished
  | connectDestroyed (hi : w.idle = true) : Takes w .connectDestroyed w.connectDestroyed
  | poll (revents mask : PollMask) (hi : w.idle = true) (hm : w.channel_.slot.interest = some mask)
      (hsub : revents.subset mask.reportable = true) :
      Takes w (.poll revents) { w with revents_ := some revents }
  | handleEvent (r : PollMask) (hr : w.revents_ = some r) (hf : w.frames = []) :
      Takes w .handleEvent { w with
        revents_ := none, frames := [.checkHup r, .checkErr r, .checkRead r, .checkWrite r] }
  | resume (f : Frame) (rest : List Frame) (read : ReadResult) (write : WriteResult)
      (hf : w.frames = f :: rest) :
      Takes w (.resume read write) (resume read write f { w with frames := rest })
  | functor (f : Functor) (rest : List Functor) (write : WriteResult) (hi : w.idle = true)
      (hf : w.pendingFunctors_ = f :: rest) :
      Takes w (.functor write) (runFunctor write f { w with pendingFunctors_ := rest })
  | timer (hf : w.frames = []) (hd : 0 < w.delayed) :
      Takes w .timer (forceCloseInLoop { w with delayed := w.delayed - 1 })

theorem takes_of_step {w w' : World} {s : Step} (h : w.step s = some w') : w.Takes s w' := by
  cases s with
  | call t c =>
    obtain rfl := Option.some.inj h
    exact .call t c
  | connectEstablished =>
    obtain ⟨hg, he⟩ := Option.ite_none_right_eq_some.mp h
    obtain rfl := Option.some.inj he
    simp only [Bool.and_eq_true, decide_eq_true_eq] at hg
    exact .connectEstablished hg.1 hg.2
  | connectDestroyed =>
    obtain ⟨hg, he⟩ := Option.ite_none_right_eq_some.mp h
    obtain rfl := Option.some.inj he
    exact .connectDestroyed hg
  | poll revents =>
    cases hm : w.channel_.slot.interest with
    | none => simp [step, hm] at h
    | some mask =>
      simp only [step, hm] at h
      obtain ⟨hg, he⟩ := Option.ite_none_right_eq_some.mp h
      obtain rfl := Option.some.inj he
      simp only [Bool.and_eq_true] at hg
      exact .poll revents mask hg.1 hm hg.2
  | handleEvent =>
    cases hr : w.revents_ with
    | none => simp [step, hr] at h
    | some r =>
      simp only [step, hr] at h
      obtain ⟨hg, he⟩ := Option.ite_none_right_eq_some.mp h
      obtain rfl := Option.some.inj he
      exact .handleEvent r hr (List.isEmpty_iff.mp hg)
  | resume read write =>
    cases hf : w.frames with
    | nil => simp [step, hf] at h
    | cons f rest =>
      simp only [step, hf] at h
      obtain rfl := Option.some.inj h
      exact .resume f rest read write hf
  | functor write =>
    cases hf : w.pendingFunctors_ with
    | nil => simp [step, hf] at h
    | cons f rest =>
      simp only [step, hf] at h
      obtain ⟨hg, he⟩ := Option.ite_none_right_eq_some.mp h
      obtain rfl := Option.some.inj he
      exact .functor f rest write hg hf
  | timer =>
    obtain ⟨hg, he⟩ := Option.ite_none_right_eq_some.mp h
    obtain rfl := Option.some.inj he
    simp only [Bool.and_eq_true, decide_eq_true_eq] at hg
    exact .timer (List.isEmpty_iff.mp hg.1) hg.2

end World

end Cnet.Net
