import Mathlib.Data.List.AList
import Cnet.Support.Runs
import Cnet.Net.Channel

/-!
# The epoll poller

`World` is an `EPollPoller` with any number of channels: `events_` and `index_` of each
channel, `channels_`, the kernel's interest list, and the `epoll_ctl` calls made so far.
Channels are identified by their addresses; `fd` is their `fd_`, and two channels may
have the same descriptor at different times. Asserts do not stop a run, and neither does
a refused `epoll_ctl`: the history records it.

What the poller holds for one channel is the `Channel` of the single-descriptor model,
and an update or a removal does to it what `Channel.update` and `Channel.remove` do.
-/

namespace Cnet.Net.EPollPollers

open Cnet.Support

/-- What a channel holds of its registration. -/
structure Fields where
  events_ : PollMask
  index_ : Index
deriving DecidableEq, Repr

inductive Errno
  | EEXIST
  | ENOENT
deriving DecidableEq, Repr

/-- One call of `epoll_ctl(2)`, with the error it met. -/
structure Ctl where
  op : EpollOp
  fd : Nat
  errno : Option Errno
deriving DecidableEq, Repr

structure World where
  channel : Nat → Fields
  channels_ : AList fun _ : Nat => Nat
  /-- The kernel's interest list: `data.ptr` and `events` for each descriptor. -/
  interest : AList fun _ : Nat => Nat × PollMask
  trace : List Ctl

namespace World

/-- A poller as constructed, and channels as their constructor leaves them. -/
def new : World where
  channel := fun _ => ⟨PollMask.kNoneEvent, .kNew⟩
  channels_ := ∅
  interest := ∅
  trace := []

def setEvents (c : Nat) (events : PollMask) (w : World) : World :=
  { w with channel := Function.update w.channel c { w.channel c with events_ := events } }

def setIndex (c : Nat) (index : Index) (w : World) : World :=
  { w with channel := Function.update w.channel c { w.channel c with index_ := index } }

def record (call : Ctl) (w : World) : World := { w with trace := w.trace ++ [call] }

/-- `epoll_ctl(2)` -/
def epollCtl (op : EpollOp) (f ptr : Nat) (events : PollMask) (w : World) : World :=
  match op with
  | .add =>
      if f ∈ w.interest then w.record ⟨op, f, some .EEXIST⟩
      else record ⟨op, f, none⟩ { w with interest := w.interest.insert f (ptr, events) }
  | .mod =>
      if f ∈ w.interest then
        record ⟨op, f, none⟩ { w with interest := w.interest.insert f (ptr, events) }
      else w.record ⟨op, f, some .ENOENT⟩
  | .del =>
      if f ∈ w.interest then record ⟨op, f, none⟩ { w with interest := w.interest.erase f }
      else w.record ⟨op, f, some .ENOENT⟩

variable (fd : Nat → Nat)

def update (op : EpollOp) (c : Nat) (w : World) : World :=
  w.epollCtl op (fd c) c (w.channel c).events_

def updateChannel (c : Nat) (w : World) : World :=
  match (w.channel c).index_ with
  | .kNew =>
      update fd .add c (setIndex c .kAdded { w with channels_ := w.channels_.insert (fd c) c })
  | .kDeleted => update fd .add c (w.setIndex c .kAdded)
  | .kAdded =>
      if (w.channel c).events_ = PollMask.kNoneEvent then
        setIndex c .kDeleted (w.update fd .del c)
      else w.update fd .mod c

def removeChannel (c : Nat) (w : World) : World :=
  let index := (w.channel c).index_
  let w := { w with channels_ := w.channels_.erase (fd c) }
  let w := if index = .kAdded then w.update fd .del c else w
  w.setIndex c .kNew

end World

inductive Step
  /-- The channel's interest is set and `updateChannel` called for it. -/
  | updateChannel (c : Nat) (events : PollMask)
  | removeChannel (c : Nat)
  /-- `close(2)` of a descriptor; the kernel forgets it. -/
  | close (f : Nat)
deriving DecidableEq, Repr

namespace World

variable (fd : Nat → Nat)

def step (w : World) : Step → Option World
  | .updateChannel c events => some ((w.setEvents c events).updateChannel fd c)
  | .removeChannel c => some (w.removeChannel fd c)
  | .close f => some { w with interest := w.interest.erase f }

/-- The channel is in `channels_`. -/
def Registered (w : World) (c : Nat) : Prop := w.channels_.lookup (fd c) = some c

/-- No other channel is registered under the descriptor. -/
def Alone (w : World) (c : Nat) : Prop := ∀ d ∈ w.channels_.lookup (fd c), d = c

/-- The calls in question: descriptors are distinct while registered and open until the
removal, and a channel is removed while it is registered and without interest. -/
def Proper (w : World) : Step → Prop
  | .updateChannel c _ => w.Alone fd c
  | .removeChannel c => w.Registered fd c ∧ (w.channel c).events_ = PollMask.kNoneEvent
  | .close f => w.channels_.lookup f = none

instance (w : World) (c : Nat) : Decidable (w.Registered fd c) :=
  inferInstanceAs (Decidable (_ = _))

instance (w : World) (c : Nat) : Decidable (w.Alone fd c) :=
  inferInstanceAs (Decidable (∀ d ∈ w.channels_.lookup (fd c), d = c))

instance (w : World) (s : Step) : Decidable (w.Proper fd s) := by
  unfold Proper
  split <;> infer_instance

end World

end Cnet.Net.EPollPollers
