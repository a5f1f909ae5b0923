import Mathlib.Data.List.Basic

/-!
# A channel and the poller's record of its descriptor

`PollMask` is the bit set of `poll(2)`, one field a bit. `Slot` is what an
`EPollPoller` holds about one descriptor: whether `channels_` maps it, and what
the kernel's interest list says. A channel owns its descriptor, so its own slot is
all that `Channel::update` and `Channel::remove` touch.
-/

namespace Cnet.Net

/-- The bits of `events_` and `revents_`. -/
structure PollMask where
  pollin : Bool := false
  pollpri : Bool := false
  pollout : Bool := false
  pollerr : Bool := false
  pollhup : Bool := false
  pollnval : Bool := false
  pollrdhup : Bool := false
deriving DecidableEq, Repr

namespace PollMask

def kNoneEvent : PollMask := {}
def kReadEvent : PollMask := { pollin := true, pollpri := true }
def kWriteEvent : PollMask := { pollout := true }

/-- `a | b` -/
def or (a b : PollMask) : PollMask where
  pollin := a.pollin || b.pollin
  pollpri := a.pollpri || b.pollpri
  pollout := a.pollout || b.pollout
  pollerr := a.pollerr || b.pollerr
  pollhup := a.pollhup || b.pollhup
  pollnval := a.pollnval || b.pollnval
  pollrdhup := a.pollrdhup || b.pollrdhup

/-- `a & b` -/
def and (a b : PollMask) : PollMask where
  pollin := a.pollin && b.pollin
  pollpri := a.pollpri && b.pollpri
  pollout := a.pollout && b.pollout
  pollerr := a.pollerr && b.pollerr
  pollhup := a.pollhup && b.pollhup
  pollnval := a.pollnval && b.pollnval
  pollrdhup := a.pollrdhup && b.pollrdhup

/-- `a & ~b` -/
def clear (a b : PollMask) : PollMask where
  pollin := a.pollin && !b.pollin
  pollpri := a.pollpri && !b.pollpri
  pollout := a.pollout && !b.pollout
  pollerr := a.pollerr && !b.pollerr
  pollhup := a.pollhup && !b.pollhup
  pollnval := a.pollnval && !b.pollnval
  pollrdhup := a.pollrdhup && !b.pollrdhup

/-- `(a & b) != 0` -/
def meets (a b : PollMask) : Bool :=
  (a.pollin && b.pollin) || (a.pollpri && b.pollpri) || (a.pollout && b.pollout) ||
  (a.pollerr && b.pollerr) || (a.pollhup && b.pollhup) || (a.pollnval && b.pollnval) ||
  (a.pollrdhup && b.pollrdhup)

/-- Every bit of `a` is in `b`. -/
def subset (a b : PollMask) : Bool := a.clear b = kNoneEvent

theorem subset_pollrdhup (a : PollMask) {b : PollMask} (h : a.subset b = true) :
    a.pollrdhup = true → b.pollrdhup = true := by
  intro ha
  have hc := congrArg PollMask.pollrdhup (of_decide_eq_true h)
  simpa [clear, kNoneEvent, ha] using hc

/-- What `poll(2)` may report for a watched mask: its own bits, and `POLLERR` and
`POLLHUP`, which need not be asked for. -/
def reportable (mask : PollMask) : PollMask := { mask with pollerr := true, pollhup := true }

end PollMask

/-- `Channel::index_` under an `EPollPoller`. -/
inductive Index
  | kNew
  | kAdded
  | kDeleted
deriving DecidableEq, Repr

/-- One descriptor in an `EPollPoller`: its entry in `channels_`, and its mask in the
kernel's interest list. -/
structure Slot where
  mapped : Bool
  interest : Option PollMask
deriving DecidableEq, Repr

inductive EpollOp
  | add
  | mod
  | del
deriving DecidableEq, Repr

namespace Slot

def absent : Slot := ⟨false, none⟩

/-- `epoll_ctl(2)` on one descriptor. A call it refuses changes nothing. -/
def ctl (mask : PollMask) (interest : Option PollMask) : EpollOp → Option PollMask
  | .add => some (interest.getD mask)
  | .mod => interest.map fun _ => mask
  | .del => none

/-- `EPollPoller::update` -/
def update (s : Slot) (op : EpollOp) (events : PollMask) : Slot :=
  { s with interest := ctl events s.interest op }

/-- `EPollPoller::updateChannel`: the new slot and the channel's new index. -/
def updateChannel (s : Slot) (index : Index) (events : PollMask) : Slot × Index :=
  match index with
  | .kNew => (update { s with mapped := true } .add events, .kAdded)
  | .kDeleted => (s.update .add events, .kAdded)
  | .kAdded =>
    if events = PollMask.kNoneEvent then (s.update .del events, .kDeleted)
    else (s.update .mod events, .kAdded)

/-- `EPollPoller::removeChannel` -/
def removeChannel (s : Slot) (index : Index) (events : PollMask) : Slot × Index :=
  let s := { s with mapped := false }
  (if index = .kAdded then s.update .del events else s, .kNew)

end Slot

/-- A channel, together with the poller's slot for its descriptor. -/
structure Channel where
  events_ : PollMask
  index_ : Index
  slot : Slot
deriving DecidableEq, Repr

namespace Channel

/-- A channel as its constructor leaves it. -/
def new : Channel := ⟨PollMask.kNoneEvent, .kNew, Slot.absent⟩

def isNoneEvent (c : Channel) : Bool := c.events_ = PollMask.kNoneEvent
def isWriting (c : Channel) : Bool := c.events_.meets PollMask.kWriteEvent
def isReading (c : Channel) : Bool := c.events_.meets PollMask.kReadEvent

def update (c : Channel) : Channel :=
  let (slot, index) := c.slot.updateChannel c.index_ c.events_
  { c with slot := slot, index_ := index }

def remove (c : Channel) : Channel :=
  let (slot, index) := c.slot.removeChannel c.index_ c.events_
  { c with slot := slot, index_ := index }

def enableReading (c : Channel) : Channel :=
  update { c with events_ := c.events_.or PollMask.kReadEvent }
def disableReading (c : Channel) : Channel :=
  update { c with events_ := c.events_.clear PollMask.kReadEvent }
def enableWriting (c : Channel) : Channel :=
  update { c with events_ := c.events_.or PollMask.kWriteEvent }
def disableWriting (c : Channel) : Channel :=
  update { c with events_ := c.events_.clear PollMask.kWriteEvent }
def disableAll (c : Channel) : Channel := update { c with events_ := PollMask.kNoneEvent }

@[simp] theorem update_events (c : Channel) : c.update.events_ = c.events_ := rfl
@[simp] theorem remove_events (c : Channel) : c.remove.events_ = c.events_ := rfl

theorem isWriting_eq (c : Channel) : c.isWriting = c.events_.pollout := by
  simp [isWriting, PollMask.meets, PollMask.kWriteEvent]

theorem isReading_eq (c : Channel) : c.isReading = (c.events_.pollin || c.events_.pollpri) := by
  simp [isReading, PollMask.meets, PollMask.kReadEvent]

@[simp] theorem isWriting_new : new.isWriting = false := rfl

@[simp] theorem isWriting_enableReading (c : Channel) :
    c.enableReading.isWriting = c.isWriting := by
  simp [isWriting_eq, enableReading, PollMask.or, PollMask.kReadEvent]

@[simp] theorem isWriting_disableReading (c : Channel) :
    c.disableReading.isWriting = c.isWriting := by
  simp [isWriting_eq, disableReading, PollMask.clear, PollMask.kReadEvent]

@[simp] theorem isWriting_enableWriting (c : Channel) : c.enableWriting.isWriting = true := by
  simp [isWriting_eq, enableWriting, PollMask.or, PollMask.kWriteEvent]

@[simp] theorem isWriting_disableWriting (c : Channel) :
    c.disableWriting.isWriting = false := by
  simp [isWriting_eq, disableWriting, PollMask.clear, PollMask.kWriteEvent]

@[simp] theorem isWriting_disableAll (c : Channel) : c.disableAll.isWriting = false := rfl

@[simp] theorem isReading_enableWriting (c : Channel) :
    c.enableWriting.isReading = c.isReading := by
  simp [isReading_eq, enableWriting, PollMask.or, PollMask.kWriteEvent]

@[simp] theorem isReading_disableWriting (c : Channel) :
    c.disableWriting.isReading = c.isReading := by
  simp [isReading_eq, disableWriting, PollMask.clear, PollMask.kWriteEvent]

@[simp] theorem isReading_enableReading (c : Channel) : c.enableReading.isReading = true := by
  simp [isReading_eq, enableReading, PollMask.or, PollMask.kReadEvent]

@[simp] theorem isReading_disableReading (c : Channel) :
    c.disableReading.isReading = false := by
  simp [isReading_eq, disableReading, PollMask.clear, PollMask.kReadEvent]

@[simp] theorem isWriting_remove (c : Channel) : c.remove.isWriting = c.isWriting := rfl

/-- What an `EPollPoller` knows of a channel in use: it watches exactly `events_`, or
nothing once `events_` has become empty. -/
def Watched (c : Channel) : Prop :=
  (c.index_ = .kAdded ∧ c.events_ ≠ PollMask.kNoneEvent ∧ c.slot.interest = some c.events_) ∨
    (c.index_ = .kDeleted ∧ c.events_ = PollMask.kNoneEvent ∧ c.slot.interest = none)

/-- Nothing is watched. -/
def Unwatched (c : Channel) : Prop :=
  c.events_ = PollMask.kNoneEvent ∧ c.slot.interest = none

/-- `update` keeps a channel watched unless it adds an empty mask to the poller. -/
theorem Watched.update {c : Channel} (h : c.Watched) {events : PollMask}
    (he : c.events_ ≠ PollMask.kNoneEvent ∨ events ≠ PollMask.kNoneEvent) :
    (Channel.update { c with events_ := events }).Watched := by
  rcases h with ⟨hi, hn, hs⟩ | ⟨hi, hn, hs⟩
  · by_cases hz : events = PollMask.kNoneEvent
    · right
      simp [Channel.update, Slot.updateChannel, hi, hz, Slot.update, Slot.ctl]
    · left
      simp [Channel.update, Slot.updateChannel, hi, hz, Slot.update, Slot.ctl, hs]
  · have hz : events ≠ PollMask.kNoneEvent := he.resolve_left fun hne => hne hn
    left
    simp [Channel.update, Slot.updateChannel, hi, hz, Slot.update, Slot.ctl, hs]

theorem Watched.enableReading {c : Channel} (h : c.Watched) : c.enableReading.Watched :=
  h.update (.inr (by simp [PollMask.or, PollMask.kReadEvent, PollMask.kNoneEvent]))

theorem Watched.enableWriting {c : Channel} (h : c.Watched) : c.enableWriting.Watched :=
  h.update (.inr (by simp [PollMask.or, PollMask.kWriteEvent, PollMask.kNoneEvent]))

theorem Watched.disableReading {c : Channel} (h : c.Watched) (hr : c.isReading = true) :
    c.disableReading.Watched :=
  h.update (.inl fun hn => by simp [isReading_eq, hn, PollMask.kNoneEvent] at hr)

theorem Watched.disableWriting {c : Channel} (h : c.Watched) (hw : c.isWriting = true) :
    c.disableWriting.Watched :=
  h.update (.inl fun hn => by simp [isWriting_eq, hn, PollMask.kNoneEvent] at hw)

theorem Watched.disableAll {c : Channel} (h : c.Watched)
    (hn : c.events_ ≠ PollMask.kNoneEvent) : c.disableAll.Unwatched := by
  rcases h with ⟨hi, -, -⟩ | ⟨-, hz, -⟩
  · simp [Channel.disableAll, Channel.update, Slot.updateChannel, hi, Slot.update, Slot.ctl,
      Unwatched]
  · exact absurd hz hn

theorem watched_new_enableReading : new.enableReading.Watched := by
  left
  decide

end Channel

end Cnet.Net
