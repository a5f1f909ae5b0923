import Cnet.Net.Channel

/-!
# The connector and its share of the event loop

`World` is a `Connector`, the functors and retry timers that its `EventLoop` holds
for it, and the history of what it did. The member functions keep the source's names;
one that uses a null `channel_` has no result. Asserts do not stop a run, as in the
default build; the history records what they test.

A socket is identified by the order of its creation, so that a descriptor number used
again does not identify two of them. The answers of the kernel come with the steps.
-/

namespace Cnet.Net.Connectors

inductive States
  | kDisconnected
  | kConnecting
  | kConnected
deriving DecidableEq, Repr

def kMaxRetryDelayMs : Nat := 30 * 1000
def kInitRetryDelayMs : Nat := 500

/-- `savedErrno` in `connect`; `success` is 0. -/
inductive SavedErrno
  | success
  | EINPROGRESS
  | EINTR
  | EISCONN
  | EAGAIN
  | EADDRINUSE
  | EADDRNOTAVAIL
  | ECONNREFUSED
  | ENETUNREACH
  | EACCES
  | EPERM
  | EAFNOSUPPORT
  | EALREADY
  | EBADF
  | EFAULT
  | ENOTSOCK
  | other (n : Nat)
deriving DecidableEq, Repr

/-- A `Channel` with the socket it was made for. -/
structure SocketChannel where
  fd : Nat
  channel : Channel
deriving DecidableEq, Repr

inductive Functor
  | stopInLoop
  | resetChannel
deriving DecidableEq, Repr

/-- What happened, in order. -/
inductive Event
  /-- `startInLoop` was entered in this state. -/
  | startInLoop (state : States)
  /-- `createNonblockingOrDie` -/
  | socket (sockfd : Nat)
  /-- `connecting` was entered with this `channel_`. -/
  | connecting (channel : Option SocketChannel)
  /-- `resetChannel` destroyed this channel. -/
  | resetChannel (channel : Option SocketChannel)
  | close (sockfd : Nat)
  | newConnectionCallback (sockfd : Nat)
  | runAfter (delayMs : Nat)
deriving DecidableEq, Repr

structure World where
  -- Connector
  connect_ : Bool
  state_ : States
  channel_ : Option SocketChannel
  retryDelayMs_ : Nat
  -- EventLoop: functors, pending retry timers
  pendingFunctors_ : List Functor
  retryTimers : Nat
  -- sockets created so far
  sockets : Nat
  trace : List Event
deriving DecidableEq, Repr

namespace World

def new : World where
  connect_ := false
  state_ := .kDisconnected
  channel_ := none
  retryDelayMs_ := kInitRetryDelayMs
  pendingFunctors_ := []
  retryTimers := 0
  sockets := 0
  trace := []

def record (e : Event) (w : World) : World := { w with trace := w.trace ++ [e] }
def setState (s : States) (w : World) : World := { w with state_ := s }

/-- `EventLoop::queueInLoop` -/
def queueInLoop (f : Functor) (w : World) : World :=
  { w with pendingFunctors_ := w.pendingFunctors_ ++ [f] }

def retry (sockfd : Nat) (w : World) : World :=
  let w := (w.record (.close sockfd)).setState .kDisconnected
  if w.connect_ then
    record (.runAfter w.retryDelayMs_) { w with
      retryTimers := w.retryTimers + 1
      retryDelayMs_ := min (w.retryDelayMs_ * 2) kMaxRetryDelayMs }
  else w

def connecting (sockfd : Nat) (w : World) : World :=
  let w := (w.setState .kConnecting).record (.connecting w.channel_)
  { w with channel_ := some ⟨sockfd, Channel.new.enableWriting⟩ }

/-- `connect`, with the errno of `connect(2)`. -/
def connect (savedErrno : SavedErrno) (w : World) : World :=
  let sockfd := w.sockets
  let w := record (.socket sockfd) { w with sockets := sockfd + 1 }
  match savedErrno with
  | .success | .EINPROGRESS | .EINTR | .EISCONN => w.connecting sockfd
  | .EAGAIN | .EADDRINUSE | .EADDRNOTAVAIL | .ECONNREFUSED | .ENETUNREACH => w.retry sockfd
  | .EACCES | .EPERM | .EAFNOSUPPORT | .EALREADY | .EBADF | .EFAULT | .ENOTSOCK =>
      w.record (.close sockfd)
  | .other _ => w.record (.close sockfd)

def startInLoop (savedErrno : SavedErrno) (w : World) : World :=
  let w := w.record (.startInLoop w.state_)
  if w.connect_ then w.connect savedErrno else w

/-- `start`, in the loop's thread. -/
def start (savedErrno : SavedErrno) (w : World) : World :=
  startInLoop savedErrno { w with connect_ := true }

def stop (w : World) : World := queueInLoop .stopInLoop { w with connect_ := false }

def restart (savedErrno : SavedErrno) (w : World) : World :=
  startInLoop savedErrno
    { w.setState .kDisconnected with retryDelayMs_ := kInitRetryDelayMs, connect_ := true }

def removeAndResetChannel (w : World) : Option (Nat × World) :=
  match w.channel_ with
  | some c =>
      some (c.fd, queueInLoop .resetChannel { w with
        channel_ := some { c with channel := c.channel.disableAll.remove } })
  | none => none

def resetChannel (w : World) : World :=
  record (.resetChannel w.channel_) { w with channel_ := none }

def stopInLoop (w : World) : Option World :=
  if w.state_ = .kConnecting then do
    let (sockfd, w) ← (w.setState .kDisconnected).removeAndResetChannel
    some (w.retry sockfd)
  else some w

/-- `handleWrite`, with whether `SO_ERROR` is set and whether the socket met itself. -/
def handleWrite (err selfConnect : Bool) (w : World) : Option World :=
  if w.state_ = .kConnecting then do
    let (sockfd, w) ← w.removeAndResetChannel
    if err then some (w.retry sockfd)
    else if selfConnect then some (w.retry sockfd)
    else
      let w := w.setState .kConnected
      if w.connect_ then some (w.record (.newConnectionCallback sockfd))
      else some (w.record (.close sockfd))
  else some w

def handleError (w : World) : Option World :=
  if w.state_ = .kConnecting then do
    let (sockfd, w) ← w.removeAndResetChannel
    some (w.retry sockfd)
  else some w

/-- `Channel::handleEventWithGuard`, with the two callbacks the connector sets. -/
def handleEvent (revents : PollMask) (err selfConnect : Bool) (w : World) : Option World :=
  (if revents.pollerr || revents.pollnval then w.handleError else some w).bind fun w =>
    if revents.pollout then w.handleWrite err selfConnect else some w

def runFunctor (f : Functor) (w : World) : Option World :=
  match f with
  | .stopInLoop => w.stopInLoop
  | .resetChannel => some w.resetChannel

end World

inductive Step
  | start (savedErrno : SavedErrno)
  | stop
  | restart (savedErrno : SavedErrno)
  /-- The poller reports these events on the channel. -/
  | event (revents : PollMask) (err selfConnect : Bool)
  /-- A retry timer expires. -/
  | timer (savedErrno : SavedErrno)
  /-- `doPendingFunctors` runs the next functor. -/
  | functor
deriving DecidableEq, Repr

namespace World

def step (w : World) : Step → Option World
  | .start savedErrno => some (w.start savedErrno)
  | .stop => some w.stop
  | .restart savedErrno => some (w.restart savedErrno)
  | .event revents err selfConnect =>
      match w.channel_ with
      | some c =>
        match c.channel.slot.interest with
        | some mask =>
          if revents.subset mask.reportable then w.handleEvent revents err selfConnect else none
        | none => none
      | none => none
  | .timer savedErrno =>
      if 0 < w.retryTimers then
        some (startInLoop savedErrno { w with retryTimers := w.retryTimers - 1 })
      else none
  | .functor =>
      match w.pendingFunctors_ with
      | f :: fs => runFunctor f { w with pendingFunctors_ := fs }
      | [] => none

end World

end Cnet.Net.Connectors
