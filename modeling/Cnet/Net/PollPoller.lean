import Mathlib.Data.List.AList
import Cnet.Support.Runs
import Cnet.Net.Channel

/-!
# The poll poller

`World` is a `PollPoller` with any number of channels: `events_` and `index_` of each
channel, `pollfds_` and `channels_`. Channels are identified by their addresses, and
`fd` is their `fd_`. Asserts do not stop a run; an access outside `pollfds_`, or through
an iterator that found nothing, has no result.
-/

namespace Cnet.Net.PollPollers

/-- What a channel holds of its registration; its `index_` is an index of `pollfds_`. -/
structure Fields where
  events_ : PollMask
  index_ : Int
deriving DecidableEq, Repr

/-- `struct pollfd` -/
structure PollFd where
  fd : Int
  events : PollMask
  revents : PollMask
deriving DecidableEq, Repr

/-- What `poll(2)` does with an entry: a negative descriptor is ignored. -/
def PollFd.poll (ready : Nat → PollMask) (pfd : PollFd) : PollFd where
  fd := pfd.fd
  events := pfd.events
  revents :=
    if 0 ≤ pfd.fd then (ready pfd.fd.toNat).and pfd.events.reportable else PollMask.kNoneEvent

structure World where
  channel : Nat → Fields
  pollfds_ : List PollFd
  channels_ : AList fun _ : Nat => Nat

namespace World

/-- A poller as constructed, and channels as their constructor leaves them. -/
def new : World where
  channel := fun _ => ⟨PollMask.kNoneEvent, -1⟩
  pollfds_ := []
  channels_ := ∅

def setEvents (c : Nat) (events : PollMask) (w : World) : World :=
  { w with channel := Function.update w.channel c { w.channel c with events_ := events } }

/-- The entry that the channel's index leads to, if there is one. -/
def entry (w : World) (c : Nat) : Option PollFd :=
  if 0 ≤ (w.channel c).index_ then w.pollfds_[(w.channel c).index_.toNat]? else none

variable (fd : Nat → Nat)

/-- The descriptor of an ignored entry. -/
def ignored (c : Nat) : Int := -(fd c : Int) - 1

/-- The first branch of `updateChannel`: a new one, add to `pollfds_`. -/
def addChannel (c : Nat) (w : World) : World :=
  { w with
    pollfds_ := w.pollfds_ ++ [⟨fd c, (w.channel c).events_, PollMask.kNoneEvent⟩]
    channel := Function.update w.channel c { w.channel c with index_ := w.pollfds_.length }
    channels_ := w.channels_.insert (fd c) c }

/-- What the second branch of `updateChannel` makes of the entry. -/
def updateEntry (c : Nat) (events : PollMask) (pfd : PollFd) : PollFd where
  fd := if events = PollMask.kNoneEvent then ignored fd c else pfd.fd
  events := events
  revents := PollMask.kNoneEvent

def updateChannel (c : Nat) (w : World) : Option World :=
  if (w.channel c).index_ < 0 then some (w.addChannel fd c)
  else
    (w.entry c).map fun pfd =>
      { w with
        pollfds_ := w.pollfds_.set (w.channel c).index_.toNat
          (updateEntry fd c (w.channel c).events_ pfd) }

def removeChannel (c : Nat) (w : World) : Option World :=
  (w.entry c).map fun _ =>
    { w with
      channels_ := w.channels_.erase (fd c)
      pollfds_ := w.pollfds_.eraseIdx (w.channel c).index_.toNat }

/-- `poll(2)`, with what is ready on each descriptor. -/
def poll (ready : Nat → PollMask) (w : World) : World :=
  { w with pollfds_ := w.pollfds_.map (PollFd.poll ready) }

/-- `fillActiveChannels`: the channels of the entries with events, and these events. -/
def fillActiveChannels (w : World) : Option (List (Nat × PollMask)) :=
  (w.pollfds_.filter fun pfd => pfd.revents ≠ PollMask.kNoneEvent).mapM fun pfd =>
    if 0 ≤ pfd.fd then (w.channels_.lookup pfd.fd.toNat).map fun c => (c, pfd.revents) else none

end World

inductive Step
  /-- The channel's interest is set and `updateChannel` called for it. -/
  | updateChannel (c : Nat) (events : PollMask)
  | removeChannel (c : Nat)
deriving DecidableEq, Repr

namespace World

variable (fd : Nat → Nat)

def step (w : World) : Step → Option World
  | .updateChannel c events => (w.setEvents c events).updateChannel fd c
  | .removeChannel c => w.removeChannel fd c

/-- The channel is in `channels_`. -/
def Registered (w : World) (c : Nat) : Prop := w.channels_.lookup (fd c) = some c

instance (w : World) (c : Nat) : Decidable (w.Registered fd c) :=
  inferInstanceAs (Decidable (_ = _))

/-- The asserts of the two functions. -/
def Proper (w : World) : Step → Prop
  | .updateChannel c _ =>
      if (w.channel c).index_ < 0 then w.channels_.lookup (fd c) = none
      else
        w.Registered fd c ∧ ∃ pfd ∈ w.entry c, pfd.fd = fd c ∨ pfd.fd = ignored fd c
  | .removeChannel c =>
      w.Registered fd c ∧ (w.channel c).events_ = PollMask.kNoneEvent ∧
        ∃ pfd ∈ w.entry c, pfd.fd = ignored fd c ∨ pfd.events = (w.channel c).events_

instance (w : World) (s : Step) : Decidable (w.Proper fd s) := by
  unfold Proper
  split <;> infer_instance

end World

end Cnet.Net.PollPollers
