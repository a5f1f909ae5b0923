import Cnet.Net.EPollConsistency

/-!
# What an epoll poller watches

`updateChannel` adds a channel whose index is not `kAdded` whatever its `events_` are. A
channel that has no interest and is disabled is therefore watched, with an empty mask,
and that is the only way in which the interest list departs from the interests.
-/

namespace Cnet.Net

/-- The channel is watched when it has an interest. -/
def Channel.Quiet (c : Channel) : Prop := c.index_ = .kAdded ↔ c.events_ ≠ PollMask.kNoneEvent

theorem Channel.Quiet.update {c : Channel} (h : c.Quiet) {events : PollMask}
    (he : c.events_ ≠ PollMask.kNoneEvent ∨ events ≠ PollMask.kNoneEvent) :
    (Channel.update { c with events_ := events }).Quiet := by
  obtain ⟨old, index, slot⟩ := c
  rw [Quiet] at h
  cases index with
  | kNew | kDeleted =>
    have hold : old = PollMask.kNoneEvent := by simpa using h
    exact ⟨fun _ => he.resolve_left fun hne => hne hold, fun _ => rfl⟩
  | kAdded =>
    by_cases hnone : events = PollMask.kNoneEvent
    · simp [Channel.update, Slot.updateChannel, Quiet, hnone]
    · simp [Channel.update, Slot.updateChannel, Quiet, hnone]

theorem Channel.Quiet.remove {c : Channel} (h : c.events_ = PollMask.kNoneEvent) :
    c.remove.Quiet :=
  ⟨nofun, fun he => absurd h he⟩

namespace EPollPollers

open Cnet.Support

/-- The member functions of a channel that reach the poller. -/
inductive Op
  | enableReading (c : Nat)
  | disableReading (c : Nat)
  | enableWriting (c : Nat)
  | disableWriting (c : Nat)
  | disableAll (c : Nat)
  | remove (c : Nat)
  | close (f : Nat)
deriving DecidableEq, Repr

/-- The call that the member function makes. -/
def Op.toStep (w : World) : Op → Step
  | .enableReading c => .updateChannel c ((w.channel c).events_.or PollMask.kReadEvent)
  | .disableReading c => .updateChannel c ((w.channel c).events_.clear PollMask.kReadEvent)
  | .enableWriting c => .updateChannel c ((w.channel c).events_.or PollMask.kWriteEvent)
  | .disableWriting c => .updateChannel c ((w.channel c).events_.clear PollMask.kWriteEvent)
  | .disableAll c => .updateChannel c PollMask.kNoneEvent
  | .remove c => .removeChannel c
  | .close f => .close f

namespace World

variable {fd : Nat → Nat} {w : World} {c : Nat}

variable (fd) in
def call (w : World) (op : Op) : Option World := step fd w (op.toStep w)

variable (fd) in
/-- The kernel watches the descriptors of the registered channels with an interest. -/
def WatchesInterest (w : World) : Prop :=
  ∀ f, f ∈ w.interest ↔
    ∃ c, fd c = f ∧ w.Registered fd c ∧ (w.channel c).events_ ≠ PollMask.kNoneEvent

/-- The condition on a call: it does not disable a channel that has no interest. -/
def Changes (w : World) : Step → Prop
  | .updateChannel c events =>
      (w.channel c).events_ ≠ PollMask.kNoneEvent ∨ events ≠ PollMask.kNoneEvent
  | _ => True

instance (w : World) : (s : Step) → Decidable (w.Changes s)
  | .updateChannel _ _ => @instDecidableOr _ _ instDecidableNot instDecidableNot
  | .removeChannel _ | .close _ => inferInstanceAs (Decidable True)

variable (fd) in
/-- Every view is in order, and watched when its channel has an interest. -/
structure QuietInv (w : World) : Prop extends Inv fd w where
  quiet : ∀ c, (w.view fd c).Quiet

theorem Inv.mem_interest_of_added (h : w.Inv fd) (hi : (w.view fd c).index_ = .kAdded) :
    w.Registered fd c ∧ fd c ∈ w.interest := by
  have hslot := h.recorded c
  rw [Channel.Recorded, hi] at hslot
  have hreg : w.Registered fd c := of_decide_eq_true (congrArg Slot.mapped hslot)
  refine ⟨hreg, (h.mem_interest hreg.alone).mpr ?_⟩
  rw [hslot]
  exact Option.some_ne_none _

theorem QuietInv.watchesInterest (h : w.QuietInv fd) : w.WatchesInterest fd := by
  intro f
  constructor
  · intro hf
    obtain ⟨p, hp⟩ := Option.isSome_iff_exists.mp (AList.lookup_isSome.mpr hf)
    have hreg := h.owner f p hp
    have hfd := h.fds f _ hreg
    subst hfd
    have ha : w.Alone fd p.1 := Registered.alone hreg
    exact ⟨p.1, rfl, hreg, (h.quiet p.1).mp ((h.toInv.consistent.added p.1 ha).mpr hf)⟩
  · rintro ⟨c, rfl, -, he⟩
    exact (h.mem_interest_of_added ((h.quiet c).mpr he)).2

theorem quietInv_new : (new : World).QuietInv fd where
  toInv := inv_new
  quiet := fun _ => ⟨nofun, fun h => absurd rfl h⟩

/-- A local change keeps the other views. -/
theorem QuietInv.of_local {w' : World} (h : w.QuietInv fd) (ha : w.Alone fd c)
    (hl : Local fd w w' c) (hinv : w'.Inv fd) (hquiet : (w'.view fd c).Quiet) :
    w'.QuietInv fd where
  toInv := hinv
  quiet := by
    intro d
    by_cases hd : d = c
    · rw [hd]
      exact hquiet
    · rw [hl.view_other h.toInv ha hd]
      exact h.quiet d

theorem quietInv_step (w : World) (s : Step) (w' : World) (h : w.QuietInv fd)
    (hp : w.Proper fd s) (hs : w.Changes s) (hstep : step fd w s = some w') :
    w'.QuietInv fd := by
  have hinv := inv_step w s w' h.toInv hp hstep
  cases s with
  | updateChannel c events =>
    obtain rfl := Option.some.inj hstep
    obtain ⟨hl, hview, -⟩ := updateChannel_spec h.toInv hp events
    exact h.of_local hp hl hinv (hview ▸ (h.quiet c).update hs)
  | removeChannel c =>
    obtain rfl := Option.some.inj hstep
    obtain ⟨hl, hview, -⟩ := removeChannel_spec h.toInv hp.1.alone
    exact h.of_local hp.1.alone hl hinv (hview ▸ Channel.Quiet.remove hp.2)
  | close f =>
    obtain rfl := Option.some.inj hstep
    exact ⟨hinv, h.quiet⟩

/-- Disabling a channel without interest adds it to the kernel's list. -/
theorem not_watchesInterest (s : Step) (h : w.QuietInv fd) (hp : w.Proper fd s)
    (hs : ¬ w.Changes s) : ∃ w' ∈ step fd w s, ¬ w'.WatchesInterest fd := by
  cases s with
  | removeChannel c => exact absurd trivial hs
  | close f => exact absurd trivial hs
  | updateChannel c events =>
    simp only [Changes, ne_eq, not_or, not_not] at hs
    obtain ⟨hnone, rfl⟩ := hs
    obtain ⟨-, hview, -⟩ := updateChannel_spec h.toInv hp PollMask.kNoneEvent
    have hinv := h.toInv.updateChannel hp PollMask.kNoneEvent
    have hold : (w.view fd c).index_ ≠ .kAdded := fun hi => (h.quiet c).mp hi hnone
    have hadded : (((w.setEvents c PollMask.kNoneEvent).updateChannel fd c).view fd c).index_ =
        .kAdded := by
      rw [hview, Channel.update, Slot.updateChannel.eq_def]
      cases hi : (w.view fd c).index_ with
      | kNew | kDeleted => rfl
      | kAdded => exact absurd hi hold
    obtain ⟨hreg, hmem⟩ := hinv.mem_interest_of_added hadded
    refine ⟨_, rfl, fun hwatch => ?_⟩
    obtain ⟨d, hfd, hd, hevents⟩ := (hwatch (fd c)).mp hmem
    obtain rfl : d = c := hreg.alone d (hfd ▸ hd)
    exact hevents (congrArg Channel.events_ hview)

/-- In a run of proper calls the kernel watches the interests throughout exactly when no
call disables a channel that has no interest. -/
theorem watches_interest_iff (fd : Nat → Nat) (ops : List Op)
    (hproper : StepsMeet (call fd) (fun w op => w.Proper fd (op.toStep w)) new ops) :
    EveryState (call fd) (WatchesInterest fd) new ops ↔
      StepsMeet (call fd) (fun w op => w.Changes (op.toStep w)) new ops :=
  everyState_iff (call fd) (fun (w : World) (h : w.QuietInv fd) => h.watchesInterest)
    (fun _ _ _ h hp hs hstep => quietInv_step _ _ _ h hp hs hstep)
    (fun _ _ h hp hs => not_watchesInterest _ h hp hs)
    quietInv_new hproper

/-- A channel is enabled, disabled, enabled again and removed beside another one. -/
def enabledAgain : List Op :=
  [.enableReading 0, .enableWriting 1, .disableReading 0, .enableWriting 0, .disableWriting 0,
    .remove 0, .close 0]

theorem watches_interest_iff_enabledAgain :
    EveryState (call id) (WatchesInterest id) new enabledAgain := by
  have hproper : StepsMeet (call id) (fun w op => w.Proper id (op.toStep w)) new enabledAgain := by
    decide
  have hchanges : StepsMeet (call id) (fun w op => w.Changes (op.toStep w)) new enabledAgain := by
    decide
  exact (watches_interest_iff id enabledAgain hproper).mpr hchanges

/-- An acceptor that never listened is destroyed: its channel, never enabled, is disabled. -/
theorem watches_interest_fails_neverEnabled :
    ¬ ∀ fd ops, StepsMeet (call fd) (fun w op => w.Proper fd (op.toStep w)) new ops →
      EveryState (call fd) (WatchesInterest fd) new ops := by
  intro h
  have hproper : StepsMeet (call id) (fun w op => w.Proper id (op.toStep w)) new
      [.disableAll 0] := by decide
  have hrun : ∃ w ∈ call id new (.disableAll 0),
      0 ∈ w.interest ∧ w.channels_.lookup 0 = some 0 ∧
        (w.channel 0).events_ = PollMask.kNoneEvent := by decide
  obtain ⟨w, hw, hmem, hlookup, hnone⟩ := hrun
  have hwatch : w.WatchesInterest id := (h id [.disableAll 0] hproper).2 w hw
  obtain ⟨d, hd, -, hevents⟩ := (hwatch 0).mp hmem
  obtain rfl : d = 0 := hd
  exact hevents hnone

end World

end EPollPollers

end Cnet.Net
