import Cnet.Net.Buffer
import Cnet.Net.Channel

/-!
# One TCP connection and its share of the event loop

`World` is a `TcpConnection`, what its `EventLoop` holds on its behalf, and the
history of what it did. The member functions keep the source's names. The loop
thread leaves an event's handler at every callback into user code, so what is left of
the handler is a stack of frames, and user calls from any thread fall between two steps.
A call is one step here, as is `connectDestroyed` with its callback; `ConnectionThreads`
goes through them statement by statement.

The buffers are byte queues here. `handleError` only logs. Asserts do not stop a
run, as in the default build, a release with `NDEBUG`; the history records what they
test. The servers, the timers and the examples stop at one, as a debug build does.
-/

namespace Cnet.Net

/-- The thread of the loop, or another one. -/
inductive Thread
  | loop
  | other (n : Nat)
deriving DecidableEq, Repr

def Thread.isInLoopThread (t : Thread) : Bool := t = .loop

inductive StateE
  | kDisconnected
  | kConnecting
  | kConnected
  | kDisconnecting
deriving DecidableEq, Repr

inductive Errno
  | EWOULDBLOCK
  | EPIPE
  | ECONNRESET
  | other (n : Nat)
deriving DecidableEq, Repr

/-- The errors after which `sendInLoop` drops the message. -/
def Errno.isFault (e : Errno) : Bool := e = .EPIPE || e = .ECONNRESET

/-- What `write(2)` answers. -/
inductive WriteResult
  | count (n : Nat)
  | error (e : Errno)
deriving DecidableEq, Repr

/-- The bytes taken out of `len` offered; never more than were offered. -/
def WriteResult.nwrote (len : Nat) : WriteResult → Nat
  | .count n => min n len
  | .error _ => 0

/-- What `readFd` answers: the bytes read, none of them at end of file. -/
inductive ReadResult
  | bytes (data : Bytes)
  | error
deriving DecidableEq, Repr

/-- A functor in `pendingFunctors_`. `sendInLoop` also carries the thread that sent. -/
inductive Functor
  | sendInLoop (sender : Thread) (message : Bytes)
  | shutdownInLoop
  | forceCloseInLoop
  | startReadInLoop
  | stopReadInLoop
  | writeCompleteCallback
  | highWaterMarkCallback (pending : Nat)
deriving DecidableEq, Repr

/-- What the loop thread still has to do when a callback returns: the checks of
`handleEventWithGuard` in their order, or the end of `handleClose`. -/
inductive Frame
  | checkHup (revents : PollMask)
  | checkErr (revents : PollMask)
  | checkRead (revents : PollMask)
  | checkWrite (revents : PollMask)
  | closeCallback
deriving DecidableEq, Repr

/-- What happened, in order. -/
inductive Event
  /-- A call of a `send` overload. -/
  | send (sender : Thread) (message : Bytes)
  /-- A `send` that took the message: `sendInLoop` has run or is queued for it. -/
  | accepted (sender : Thread) (message : Bytes)
  /-- `sendInLoop` ran in a state other than `kDisconnected`; its direct write, if any. -/
  | processed (sender : Thread) (message : Bytes) (direct : Option WriteResult)
  /-- `sendInLoop` ran in state `kDisconnected`. -/
  | gaveUp (sender : Thread) (message : Bytes)
  /-- `sockets::write(fd, data)`. -/
  | write (data : Bytes) (result : WriteResult)
  /-- `outputBuffer_.append(data)`. -/
  | buffered (data : Bytes)
  /-- `shutdown()` took effect, with this output pending. -/
  | shutdown (output : Bytes)
  /-- `shutdown(fd, SHUT_WR)`, with this output pending. -/
  | shutdownWrite (output : Bytes)
  | connectionCallback (connected : Bool)
  | messageCallback
  | closeCallback
  /-- `handleClose` was entered in this state. -/
  | handleClose (state : StateE)
deriving DecidableEq, Repr

structure World where
  -- TcpConnection
  state_ : StateE
  reading_ : Bool
  channel_ : Channel
  inputBuffer_ : Bytes
  outputBuffer_ : Bytes
  highWaterMark_ : Nat
  writeCompleteCallback_ : Bool
  highWaterMarkCallback_ : Bool
  -- EventLoop: functors, armed `forceCloseWithDelay` timers, a poll result not yet handled
  pendingFunctors_ : List Functor
  delayed : Nat
  revents_ : Option PollMask
  frames : List Frame
  trace : List Event
deriving DecidableEq, Repr

/-- What the owner sets on a connection before it is established. -/
structure Config where
  highWaterMark : Nat := 64 * 1024 * 1024
  writeComplete : Bool := false
  highWater : Bool := false
deriving DecidableEq, Repr

namespace World

/-- A connection as constructed and configured by its owner. -/
def new (c : Config) : World where
  state_ := .kConnecting
  reading_ := true
  channel_ := Channel.new
  inputBuffer_ := []
  outputBuffer_ := []
  highWaterMark_ := c.highWaterMark
  writeCompleteCallback_ := c.writeComplete
  highWaterMarkCallback_ := c.highWater
  pendingFunctors_ := []
  delayed := 0
  revents_ := none
  frames := []
  trace := []

def record (e : Event) (w : World) : World := { w with trace := w.trace ++ [e] }
def setState (s : StateE) (w : World) : World := { w with state_ := s }
def connected (w : World) : Bool := w.state_ = .kConnected

/-- `EventLoop::queueInLoop` -/
def queueInLoop (f : Functor) (w : World) : World :=
  { w with pendingFunctors_ := w.pendingFunctors_ ++ [f] }

/-- The end of `sendInLoop`: what was not written goes to the output buffer. -/
def keepRemaining (rest : Bytes) (w : World) : World :=
  if rest = [] then w
  else
    let oldLen := w.outputBuffer_.length
    let w :=
      if w.highWaterMark_ ≤ oldLen + rest.length && oldLen < w.highWaterMark_ &&
          w.highWaterMarkCallback_ then
        w.queueInLoop (.highWaterMarkCallback (oldLen + rest.length))
      else w
    let w := record (.buffered rest) { w with outputBuffer_ := w.outputBuffer_ ++ rest }
    if w.channel_.isWriting then w else { w with channel_ := w.channel_.enableWriting }

/-- `sendInLoop`, with the kernel's answer to its direct write. -/
def sendInLoop (r : WriteResult) (sender : Thread) (message : Bytes) (w : World) : World :=
  if w.state_ = .kDisconnected then w.record (.gaveUp sender message)
  else if !w.channel_.isWriting && w.outputBuffer_.isEmpty then
    let w := (w.record (.processed sender message (some r))).record (.write message r)
    match r with
    | .count n =>
      let rest := message.drop (min n message.length)
      let w :=
        if rest = [] && w.writeCompleteCallback_ then w.queueInLoop .writeCompleteCallback else w
      w.keepRemaining rest
    | .error e => if e.isFault then w else w.keepRemaining message
  else (w.record (.processed sender message none)).keepRemaining message

/-- `send(const StringPiece&)` -/
def send (r : WriteResult) (t : Thread) (message : Bytes) (w : World) : World :=
  let w := w.record (.send t message)
  if w.state_ = .kConnected then
    let w := w.record (.accepted t message)
    if t.isInLoopThread then w.sendInLoop r t message
    else w.queueInLoop (.sendInLoop t message)
  else w

/-- `send(Buffer*)`: the connection, and what is left in the caller's buffer. -/
def sendBuffer (r : WriteResult) (t : Thread) (buf : Bytes) (w : World) : World × Bytes :=
  let w := w.record (.send t buf)
  if w.state_ = .kConnected then
    if t.isInLoopThread then
      ((w.record (.accepted t buf)).sendInLoop r t buf, [])
    else (w, buf)
  else
    -- the `else` of the outer test: retrieveAllAsString, then runInLoop
    let w := w.record (.accepted t buf)
    if t.isInLoopThread then (w.sendInLoop r t buf, [])
    else (w.queueInLoop (.sendInLoop t buf), [])

def shutdownInLoop (w : World) : World :=
  if w.channel_.isWriting then w else w.record (.shutdownWrite w.outputBuffer_)

def shutdown (t : Thread) (w : World) : World :=
  if w.state_ = .kConnected then
    let w := (w.setState .kDisconnecting).record (.shutdown w.outputBuffer_)
    if t.isInLoopThread then w.shutdownInLoop else w.queueInLoop .shutdownInLoop
  else w

def handleClose (w : World) : World :=
  let w := w.record (.handleClose w.state_)
  let w := { w with state_ := .kDisconnected, channel_ := w.channel_.disableAll }
  let w := w.record (.connectionCallback w.connected)
  { w with frames := .closeCallback :: w.frames }

def forceClose (w : World) : World :=
  if w.state_ = .kConnected || w.state_ = .kDisconnecting then
    (w.setState .kDisconnecting).queueInLoop .forceCloseInLoop
  else w

def forceCloseWithDelay (w : World) : World :=
  if w.state_ = .kConnected || w.state_ = .kDisconnecting then
    { w.setState .kDisconnecting with delayed := w.delayed + 1 }
  else w

def forceCloseInLoop (w : World) : World :=
  if w.state_ = .kConnected || w.state_ = .kDisconnecting then w.handleClose else w

def startReadInLoop (w : World) : World :=
  if !w.reading_ || !w.channel_.isReading then
    { w with channel_ := w.channel_.enableReading, reading_ := true }
  else w

def stopReadInLoop (w : World) : World :=
  if w.reading_ || w.channel_.isReading then
    { w with channel_ := w.channel_.disableReading, reading_ := false }
  else w

def startRead (t : Thread) (w : World) : World :=
  if t.isInLoopThread then w.startReadInLoop else w.queueInLoop .startReadInLoop

def stopRead (t : Thread) (w : World) : World :=
  if t.isInLoopThread then w.stopReadInLoop else w.queueInLoop .stopReadInLoop

def connectEstablished (w : World) : World :=
  let w := { w with state_ := .kConnected, channel_ := w.channel_.enableReading }
  w.record (.connectionCallback w.connected)

def connectDestroyed (w : World) : World :=
  let w :=
    if w.state_ = .kConnected then
      let w := { w with state_ := .kDisconnected, channel_ := w.channel_.disableAll }
      w.record (.connectionCallback w.connected)
    else w
  { w with channel_ := w.channel_.remove }

/-- `handleRead`, with the result of `readFd`. -/
def handleRead (r : ReadResult) (w : World) : World :=
  match r with
  | .bytes [] => w.handleClose
  | .bytes data => record .messageCallback { w with inputBuffer_ := w.inputBuffer_ ++ data }
  | .error => w

/-- `handleWrite`, with the kernel's answer to its write. -/
def handleWrite (r : WriteResult) (w : World) : World :=
  if w.channel_.isWriting then
    let n := r.nwrote w.outputBuffer_.length
    let w := w.record (.write w.outputBuffer_ r)
    if 0 < n then
      let w := { w with outputBuffer_ := w.outputBuffer_.drop n }
      if w.outputBuffer_ = [] then
        let w := { w with channel_ := w.channel_.disableWriting }
        let w := if w.writeCompleteCallback_ then w.queueInLoop .writeCompleteCallback else w
        if w.state_ = .kDisconnecting then w.shutdownInLoop else w
      else w
    else w
  else w

/-- One of the four checks of `handleEventWithGuard`, or the end of `handleClose`. -/
def resume (read : ReadResult) (write : WriteResult) (f : Frame) (w : World) : World :=
  match f with
  | .checkHup revents => if revents.pollhup && !revents.pollin then w.handleClose else w
  | .checkErr _ => w
  | .checkRead revents =>
      if revents.pollin || revents.pollpri || revents.pollrdhup then w.handleRead read else w
  | .checkWrite revents => if revents.pollout then w.handleWrite write else w
  | .closeCallback => w.record .closeCallback

/-- Run one functor. The two notifications run user code only. -/
def runFunctor (write : WriteResult) (f : Functor) (w : World) : World :=
  match f with
  | .sendInLoop sender message => w.sendInLoop write sender message
  | .shutdownInLoop => w.shutdownInLoop
  | .forceCloseInLoop => w.forceCloseInLoop
  | .startReadInLoop => w.startReadInLoop
  | .stopReadInLoop => w.stopReadInLoop
  | .writeCompleteCallback => w
  | .highWaterMarkCallback _ => w

end World

/-- What a user may call, from any thread. A send that writes at once gets the
kernel's answer with it; `retrieveInput` is a message callback consuming its buffer. -/
inductive UserCall
  | send (message : Bytes) (write : WriteResult)
  | sendBuffer (buf : Bytes) (write : WriteResult)
  | shutdown
  | forceClose
  | forceCloseWithDelay
  | startRead
  | stopRead
  | retrieveInput (n : Nat)
deriving DecidableEq, Repr

/-- One step of the loop thread, or one user call in some thread. -/
inductive Step
  | call (t : Thread) (c : UserCall)
  | connectEstablished
  | connectDestroyed
  /-- `poll` puts the channel on the active list with these events. -/
  | poll (revents : PollMask)
  /-- `Channel::handleEvent` begins. -/
  | handleEvent
  /-- The next frame of the running handler. -/
  | resume (read : ReadResult) (write : WriteResult)
  /-- `doPendingFunctors` runs the next functor. -/
  | functor (write : WriteResult)
  /-- A `forceCloseWithDelay` timer expires. -/
  | timer
deriving DecidableEq, Repr

namespace World

def call (t : Thread) (c : UserCall) (w : World) : World :=
  match c with
  | .send message write => w.send write t message
  | .sendBuffer buf write => (w.sendBuffer write t buf).1
  | .shutdown => w.shutdown t
  | .forceClose => w.forceClose
  | .forceCloseWithDelay => w.forceCloseWithDelay
  | .startRead => w.startRead t
  | .stopRead => w.stopRead t
  | .retrieveInput n => { w with inputBuffer_ := w.inputBuffer_.drop n }

/-- No handler of this connection is running and no poll result waits for one. -/
def idle (w : World) : Bool := w.frames.isEmpty && w.revents_.isNone

def step (w : World) : Step → Option World
  | .call t c => some (w.call t c)
  | .connectEstablished =>
      if w.idle && w.state_ = .kConnecting then some w.connectEstablished else none
  | .connectDestroyed => if w.idle then some w.connectDestroyed else none
  | .poll revents =>
      match w.channel_.slot.interest with
      | some mask =>
        if w.idle && revents.subset mask.reportable then some { w with revents_ := some revents }
        else none
      | none => none
  | .handleEvent =>
      match w.revents_ with
      | some r =>
        if w.frames.isEmpty then
          some { w with
            revents_ := none
            frames := [.checkHup r, .checkErr r, .checkRead r, .checkWrite r] }
        else none
      | none => none
  | .resume read write =>
      match w.frames with
      | f :: rest => some (resume read write f { w with frames := rest })
      | [] => none
  | .functor write =>
      match w.pendingFunctors_ with
      | f :: rest =>
        if w.idle then some (runFunctor write f { w with pendingFunctors_ := rest }) else none
      | [] => none
  | .timer =>
      if w.frames.isEmpty && 0 < w.delayed then
        some (forceCloseInLoop { w with delayed := w.delayed - 1 })
      else none

end World

end Cnet.Net
