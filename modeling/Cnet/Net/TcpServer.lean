import Mathlib.Data.List.AList
import Mathlib.Logic.Function.Basic
import Cnet.Base.Printf
import Cnet.Support.Memory
import Cnet.Net.TcpConnection

/-!
# The TCP server

`World` is a `TcpServer`, the connections it has made, and the event loops: loop `0` is
`loop_`, where connections are accepted, and loops `1, …, numThreads` are those of the
thread pool. Each loop has its functor queue and is somewhere in its `loop()`; the loops
take their steps in any order. A handler or a functor runs to its end in one step, but
for `handleClose`, which tells the user before it calls `closeCallback_`, and for the
server's destructor. An assert that fails, as in a build with `assert`, and an `int` that
overflows, have no result.

A connection is identified by the order of its creation, and reduced to what the server
and the loops do with it. Its channel is watched for reading or not at all. `history` is
what has happened to it; the server may be destroyed, and what is then still called on it
is kept in `dangling`. The loops of the pool go on after the server: `threadPool()` hands out
a shared pointer, and the pool lives on while anyone holds it.
-/

namespace Cnet.Net.Servers

open Cnet.Base (snprintf)
open Cnet.Support

/-- What happened to a connection, and in which loop. -/
inductive Event
  | connectEstablished (l : Nat)
  /-- `Channel::handleEvent`: its event handlers run. -/
  | handleEvent (l : Nat)
  | closeCallback
  /-- `connections_.erase` has erased this many entries. -/
  | erase (n : Nat)
  | connectDestroyed (l : Nat)
deriving DecidableEq, Repr

/-- A `TcpConnection` with its channel. -/
structure Connection where
  name_ : String
  loop_ : Nat
  state_ : StateE
  isReading : Bool
  addedToLoop_ : Bool
  history : List Event
deriving DecidableEq, Repr

inductive Functor
  | connectEstablished (c : Nat)
  | connectDestroyed (c : Nat)
  | removeConnectionInLoop (c : Nat)
deriving DecidableEq, Repr

/-- Where a loop is. -/
inductive Position
  /-- In `poll`, or outside `loop()`. -/
  | polling
  /-- Handling events, but of none of the connections; `todo` are still to be handled. -/
  | handling (activeChannels todo : List Nat)
  /-- In `handleEvent` of a connection's channel. -/
  | handler (activeChannels : List Nat) (current : Nat) (todo : List Nat)
  /-- In `doPendingFunctors`, with the rest of the batch. -/
  | functors (batch : List Functor)
deriving DecidableEq, Repr

def Position.batch : Position → List Functor
  | .functors batch => batch
  | _ => []

inductive Server
  | alive
  /-- In the loop of the destructor. -/
  | sweeping
  | destroyed
deriving DecidableEq, Repr

/-- What a server is made with. No address with its port is longer. -/
structure Settings where
  name_ : String
  ipPort_ : String
  numThreads : Nat
  fits : ipPort_.length ≤ 51

structure World where
  -- TcpServer
  server : Server
  nextConnId_ : Nat
  connections_ : AList fun _ : String => Nat
  -- EventLoopThreadPool
  next_ : Nat
  -- every connection made
  connections : List Connection
  -- EventLoop, for every loop; `closing` is the connection whose user is being told
  position : Nat → Position
  pendingFunctors_ : Nat → List Functor
  closing : Nat → Option Nat
  -- the connections for which the server was called after its destruction
  dangling : List Nat

namespace World

def new : World where
  server := .alive
  nextConnId_ := 1
  connections_ := ∅
  next_ := 0
  connections := []
  position := fun _ => .polling
  pendingFunctors_ := fun _ => []
  closing := fun _ => none
  dangling := []

/-- The name of a connection. -/
def connName (s : Settings) (connId : Nat) : String :=
  s.name_ ++ snprintf 64 ("-" ++ s.ipPort_ ++ "#" ++ Nat.repr connId)

def setConnection (c : Nat) (conn : Connection) (w : World) : World :=
  { w with connections := w.connections.set c conn }

def setPosition (l : Nat) (p : Position) (w : World) : World :=
  { w with position := Function.update w.position l p }

def setClosing (l : Nat) (c : Option Nat) (w : World) : World :=
  { w with closing := Function.update w.closing l c }

/-- `EventLoop::queueInLoop` -/
def queueInLoop (l : Nat) (f : Functor) (w : World) : World :=
  { w with
    pendingFunctors_ := Function.update w.pendingFunctors_ l (w.pendingFunctors_ l ++ [f]) }

/-- `TcpConnection::connectEstablished`, in loop `l`. -/
def connectEstablished (l c : Nat) (w : World) : Option World := do
  let conn ← w.connections[c]?
  assert (conn.loop_ = l)
  assert (conn.state_ = .kConnecting)
  some (w.setConnection c { conn with
    state_ := .kConnected
    isReading := true
    addedToLoop_ := true
    history := conn.history ++ [.connectEstablished l] })

/-- The assert of `EventLoop::removeChannel`. -/
def removable (l c : Nat) (w : World) : Bool :=
  match w.position l with
  | .handling activeChannels _ => !activeChannels.contains c
  | .handler activeChannels current _ => current = c || !activeChannels.contains c
  | _ => true

/-- `TcpConnection::connectDestroyed`, in loop `l`. -/
def connectDestroyed (l c : Nat) (w : World) : Option World := do
  let conn ← w.connections[c]?
  assert (conn.loop_ = l)
  let conn :=
    if conn.state_ = .kConnected then { conn with state_ := .kDisconnected, isReading := false }
    else conn
  assert (conn.isReading = false)
  assert (w.removable l c = true)
  assert (conn.addedToLoop_ = true)
  some (w.setConnection c { conn with
    addedToLoop_ := false
    history := conn.history ++ [.connectDestroyed l] })

/-- `removeConnectionInLoop`, on a server that may have been destroyed. -/
def removeConnectionInLoop (c : Nat) (w : World) : Option World :=
  if w.server = .destroyed then some { w with dangling := w.dangling ++ [c] }
  else do
    let conn ← w.connections[c]?
    let n := if (w.connections_.lookup conn.name_).isSome then 1 else 0
    let w := { w with connections_ := w.connections_.erase conn.name_ }
    let w := w.setConnection c { conn with history := conn.history ++ [.erase n] }
    assert (n = 1)
    some (w.queueInLoop conn.loop_ (.connectDestroyed c))

/-- `removeConnection`, called in loop `l`, on a server that may have been destroyed. -/
def removeConnection (l c : Nat) (w : World) : Option World :=
  if w.server = .destroyed then some { w with dangling := w.dangling ++ [c] }
  else if l = 0 then w.removeConnectionInLoop c
  else some (w.queueInLoop 0 (.removeConnectionInLoop c))

/-- `EventLoopThreadPool::getNextLoop`: the loop, and the new `next_`. -/
def getNextLoop (s : Settings) (w : World) : Nat × Nat :=
  if s.numThreads = 0 then (0, w.next_)
  else (w.next_ + 1, if s.numThreads ≤ w.next_ + 1 then 0 else w.next_ + 1)

/-- The greatest `int`. -/
def intMax : Nat := 2147483647

def newConnection (s : Settings) (w : World) : Option World := do
  let (ioLoop, next) := w.getNextLoop s
  assert (w.nextConnId_ < intMax)
  let name := connName s w.nextConnId_
  let c := w.connections.length
  let w := { w with
    next_ := next
    nextConnId_ := w.nextConnId_ + 1
    connections := w.connections ++ [(⟨name, ioLoop, .kConnecting, false, false, []⟩ : Connection)]
    connections_ := w.connections_.insert name c }
  if ioLoop = 0 then w.connectEstablished 0 c
  else some (w.queueInLoop ioLoop (.connectEstablished c))

/-- `TcpConnection::handleClose`, in loop `l`, as far as its connection callback. -/
def handleClose (l c : Nat) (w : World) : Option World := do
  let conn ← w.connections[c]?
  assert (conn.loop_ = l)
  assert (conn.state_ = .kConnected ∨ conn.state_ = .kDisconnecting)
  some ((w.setConnection c { conn with state_ := .kDisconnected, isReading := false }).setClosing l
    (some c))

/-- `closeCallback_(guardThis)`, at the end of `handleClose`. -/
def closeCallback (l c : Nat) (w : World) : Option World := do
  let conn ← w.connections[c]?
  let w := w.setConnection c { conn with history := conn.history ++ [.closeCallback] }
  (w.setClosing l none).removeConnection l c

def runFunctor (l : Nat) (f : Functor) (w : World) : Option World :=
  match f with
  | .connectEstablished c => w.connectEstablished l c
  | .connectDestroyed c => w.connectDestroyed l c
  | .removeConnectionInLoop c => w.removeConnectionInLoop c

/-- One entry of `connections_`, in the destructor's loop. -/
def sweep (name : String) (w : World) : Option World := do
  let c ← w.connections_.lookup name
  let conn ← w.connections[c]?
  let w := { w with connections_ := w.connections_.erase name }
  if conn.loop_ = 0 then w.connectDestroyed 0 c
  else some (w.queueInLoop conn.loop_ (.connectDestroyed c))

/-- The thread of loop `l` is not in the destructor, nor in the callback of `handleClose`. -/
def isFree (l : Nat) (w : World) : Bool := (l ≠ 0 || w.server ≠ .sweeping) && (w.closing l).isNone

/-- `poll` may report the channel to loop `l`. -/
def isReady (l c : Nat) (w : World) : Bool :=
  w.connections[c]?.any fun conn => conn.loop_ = l && conn.addedToLoop_ && conn.isReading

end World

inductive Step
  /-- `Acceptor::handleRead`, with a new socket. -/
  | accept
  /-- `poll` reports these channels to loop `l`. -/
  | poll (l : Nat) (activeChannels : List Nat)
  /-- Loop `l` calls `handleEvent` of the next channel. -/
  | handleEvent (l : Nat)
  /-- `handleClose`, in an event handler or in a `forceCloseInLoop` functor. -/
  | handleClose (l c : Nat)
  | closeCallback (l : Nat)
  /-- `handleEvent` or `doPendingFunctors` returns. -/
  | returned (l : Nat)
  /-- `shutdown` or `forceClose` sets `kDisconnecting`. -/
  | disconnecting (c : Nat)
  /-- Loop `l` has no more events to handle, and takes its queue. -/
  | doPendingFunctors (l : Nat)
  /-- Loop `l` runs the next functor of the batch. -/
  | functor (l : Nat)
  /-- `~TcpServer` begins, in loop `0`. -/
  | destroy
  | sweep (name : String)
  /-- `~TcpServer` returns. -/
  | destroyed
deriving DecidableEq, Repr

namespace World

variable (s : Settings)

def step (w : World) : Step → Option World
  | .accept =>
      match w.position 0 with
      | .handling _ _ => if w.isFree 0 ∧ w.server = .alive then w.newConnection s else none
      | _ => none
  | .poll l activeChannels =>
      if w.isFree l ∧ w.position l = .polling ∧ activeChannels.Nodup ∧
          ∀ c ∈ activeChannels, w.isReady l c then
        some (w.setPosition l (.handling activeChannels activeChannels))
      else none
  | .handleEvent l =>
      match w.position l with
      | .handling activeChannels (c :: todo) => do
          assert (w.isFree l)
          let conn ← w.connections[c]?
          let w := w.setConnection c { conn with history := conn.history ++ [.handleEvent l] }
          some (w.setPosition l (.handler activeChannels c todo))
      | _ => none
  | .handleClose l c =>
      match w.position l with
      | .handler _ current _ => if w.isFree l ∧ current = c then w.handleClose l c else none
      | .functors _ => if w.isFree l then w.handleClose l c else none
      | _ => none
  | .closeCallback l =>
      match w.closing l with
      | some c => if l ≠ 0 ∨ w.server ≠ .sweeping then w.closeCallback l c else none
      | none => none
  | .returned l =>
      match w.position l with
      | .handler activeChannels _ todo =>
          if w.isFree l then some (w.setPosition l (.handling activeChannels todo)) else none
      | .functors [] => if w.isFree l then some (w.setPosition l .polling) else none
      | _ => none
  | .disconnecting c => do
      let conn ← w.connections[c]?
      assert (conn.state_ = .kConnected)
      some (w.setConnection c { conn with state_ := .kDisconnecting })
  | .doPendingFunctors l =>
      match w.position l with
      | .handling _ [] =>
          if w.isFree l then
            some { w.setPosition l (.functors (w.pendingFunctors_ l)) with
              pendingFunctors_ := Function.update w.pendingFunctors_ l [] }
          else none
      | _ => none
  | .functor l =>
      match w.position l with
      | .functors (f :: batch) =>
          if w.isFree l then (w.setPosition l (.functors batch)).runFunctor l f else none
      | _ => none
  | .destroy => if w.server = .alive then some { w with server := .sweeping } else none
  | .sweep name => if w.server = .sweeping then w.sweep name else none
  | .destroyed =>
      if w.server = .sweeping ∧ w.connections_.entries = [] then
        some { w with server := .destroyed }
      else none

end World

end Cnet.Net.Servers
