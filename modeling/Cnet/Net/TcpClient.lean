import Cnet.Net.Connector
import Cnet.Net.TcpConnection

/-!
# The TCP client

`World` is a `TcpClient` with its `Connector`, the connections it has made, what its
`EventLoop` holds for all of them, and the history of the client. The connector is the
one of the connector model; the loop's queue is kept here in order, and an entry of the
connector in it stands for the first of the functors that the connector has queued.

A connection is identified by the order of its creation. Its own behaviour is reduced to
its `state_`: `handleClose` runs in `kConnected` or `kDisconnecting`, as it asserts, tells
the user, and then calls `TcpClient::removeConnection`. The user may call the client from
any thread, and from that notification too.
-/

namespace Cnet.Net.Clients

open Cnet.Net.Connectors (SavedErrno)

/-- A `TcpConnection`, with the number in its name. -/
structure Connection where
  sockfd : Nat
  connId : Nat
  state_ : StateE
deriving DecidableEq, Repr

inductive Functor
  /-- The next functor of the connector. -/
  | connector
  /-- `Connector::startInLoop`, from a `connect()` in another thread. -/
  | startInLoop
  | connectDestroyed (c : Nat)
deriving DecidableEq, Repr

/-- What happened, in order. -/
inductive Event
  /-- `newConnection` stored this connection, over this `connection_`. -/
  | newConnection (c : Nat) (old : Option Nat)
  /-- `removeConnection` was called for this connection, with this `connection_`. -/
  | removeConnection (c : Nat) (found : Option Nat)
  /-- `connectDestroyed` was queued for this connection. -/
  | queued (c : Nat)
  | connectDestroyed (c : Nat)
deriving DecidableEq, Repr

structure World where
  -- TcpClient
  connector_ : Connectors.World
  retry_ : Bool
  connect_ : Bool
  nextConnId_ : Nat
  connection_ : Option Nat
  -- every connection made, and the one whose user is being told that it is down
  connections : List Connection
  closing : Option Nat
  -- EventLoop
  pendingFunctors_ : List Functor
  trace : List Event
deriving DecidableEq, Repr

namespace World

def new : World where
  connector_ := Connectors.World.new
  retry_ := false
  connect_ := true
  nextConnId_ := 1
  connection_ := none
  connections := []
  closing := none
  pendingFunctors_ := []
  trace := []

def record (e : Event) (w : World) : World := { w with trace := w.trace ++ [e] }

/-- `EventLoop::queueInLoop` -/
def queueInLoop (f : Functor) (w : World) : World :=
  { w with pendingFunctors_ := w.pendingFunctors_ ++ [f] }

/-- The state of a connection. -/
def stateOf (c : Nat) (w : World) : Option StateE := w.connections[c]?.map Connection.state_

def setState (c : Nat) (s : StateE) (w : World) : World :=
  { w with connections := w.connections.modify c fun conn => { conn with state_ := s } }

/-- The connector has become `connector`; what it has queued is in the loop's queue. -/
def setConnector (connector : Connectors.World) (w : World) : World :=
  { w with
    connector_ := connector
    pendingFunctors_ := w.pendingFunctors_ ++ List.replicate
      (connector.pendingFunctors_.length - w.connector_.pendingFunctors_.length) .connector }

/-- `newConnection`; its `connectEstablished` sets `kConnected`. -/
def newConnection (sockfd : Nat) (w : World) : World :=
  let c := w.connections.length
  let w := { w with
    nextConnId_ := w.nextConnId_ + 1
    connections := w.connections ++ [(⟨sockfd, w.nextConnId_, .kConnecting⟩ : Connection)] }
  let w := record (.newConnection c w.connection_) { w with connection_ := some c }
  w.setState c .kConnected

/-- `removeConnection`, with the errno of the `connect(2)` of a reconnection. -/
def removeConnection (savedErrno : SavedErrno) (c : Nat) (w : World) : World :=
  let w := record (.removeConnection c w.connection_) { w with connection_ := none }
  let w := (w.queueInLoop (.connectDestroyed c)).record (.queued c)
  if w.retry_ && w.connect_ then w.setConnector (w.connector_.restart savedErrno) else w

/-- `connect`. In another thread `startInLoop` is queued. -/
def connect (t : Thread) (savedErrno : SavedErrno) (w : World) : World :=
  let w := { w with connect_ := true }
  if t.isInLoopThread then w.setConnector (w.connector_.start savedErrno)
  else queueInLoop .startInLoop { w with connector_ := { w.connector_ with connect_ := true } }

def disconnect (w : World) : World :=
  let w := { w with connect_ := false }
  match w.connection_ with
  | some c => if w.stateOf c = some .kConnected then w.setState c .kDisconnecting else w
  | none => w

def stop (w : World) : World :=
  let w := { w with connect_ := false }
  w.setConnector w.connector_.stop

def enableRetry (w : World) : World := { w with retry_ := true }

/-- `TcpConnection::handleClose`, as far as its connection callback. -/
def handleClose (c : Nat) (w : World) : World :=
  { w.setState c .kDisconnected with closing := some c }

def connectDestroyed (c : Nat) (w : World) : World :=
  let w := if w.stateOf c = some .kConnected then w.setState c .kDisconnected else w
  w.record (.connectDestroyed c)

/-- The socket that the connector has handed over since it was `old`. -/
def delivered (old new : Connectors.World) : Option Nat :=
  (new.trace.drop old.trace.length).findSome? fun
    | .newConnectionCallback sockfd => some sockfd
    | _ => none

/-- The connector has handled an event; its last act may have been to hand over a socket. -/
def afterEvent (connector : Connectors.World) (w : World) : World :=
  match delivered w.connector_ connector with
  | some sockfd => (w.setConnector connector).newConnection sockfd
  | none => w.setConnector connector

def runFunctor (savedErrno : SavedErrno) (f : Functor) (w : World) : Option World :=
  match f with
  | .connector =>
      match w.connector_.pendingFunctors_ with
      | g :: gs =>
        -- the functor leaves the connector's queue before it runs
        let w := { w with connector_ := { w.connector_ with pendingFunctors_ := gs } }
        (Connectors.World.runFunctor g w.connector_).map fun connector => w.setConnector connector
      | [] => none
  | .startInLoop => some (w.setConnector (w.connector_.startInLoop savedErrno))
  | .connectDestroyed c => some (w.connectDestroyed c)

end World

/-- `savedErrno` is the answer of `connect(2)`, should the step call it. -/
inductive Step
  | connect (t : Thread) (savedErrno : SavedErrno)
  | disconnect
  | stop
  | enableRetry
  /-- The poller reports these events on the connector's channel. -/
  | event (revents : PollMask) (err selfConnect : Bool)
  /-- A retry timer of the connector expires. -/
  | timer (savedErrno : SavedErrno)
  /-- `doPendingFunctors` runs the next functor. -/
  | functor (savedErrno : SavedErrno)
  /-- The connection enters `handleClose`. -/
  | handleClose (c : Nat)
  /-- The end of that `handleClose`: the close callback. -/
  | closeCallback (savedErrno : SavedErrno)
deriving DecidableEq, Repr

namespace World

/-- The connection is established and has not been closed. -/
def isLive (c : Nat) (w : World) : Bool :=
  w.stateOf c = some .kConnected || w.stateOf c = some .kDisconnecting

/-- The loop thread does nothing else while it is in the connection callback. -/
def step (w : World) : Step → Option World
  | .connect t savedErrno => some (w.connect t savedErrno)
  | .disconnect => some w.disconnect
  | .stop => some w.stop
  | .enableRetry => some w.enableRetry
  | .event revents err selfConnect =>
      if w.closing.isNone then
        (w.connector_.step (.event revents err selfConnect)).map fun connector =>
          w.afterEvent connector
      else none
  | .timer savedErrno =>
      if w.closing.isNone then
        (w.connector_.step (.timer savedErrno)).map fun connector => w.setConnector connector
      else none
  | .functor savedErrno =>
      match w.pendingFunctors_ with
      | f :: fs =>
        if w.closing.isNone then runFunctor savedErrno f { w with pendingFunctors_ := fs } else none
      | [] => none
  | .handleClose c =>
      if w.closing.isNone && w.isLive c then some (w.handleClose c) else none
  | .closeCallback savedErrno =>
      w.closing.map fun c => removeConnection savedErrno c { w with closing := none }

end World

end Cnet.Net.Clients
