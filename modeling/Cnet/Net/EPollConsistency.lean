import Cnet.Net.EPollPoller

/-!
# Three copies of one fact

The index of a channel, `channels_` and the kernel's interest list agree. Seen from one
channel the poller is the single-descriptor model: `view` is the channel with its own
slot, an update or a removal acts on the view of its channel as the operation of that
model, and leaves every other view as it was. So the agreement is a fact about one slot.
-/

namespace Cnet.Net

attribute [ext] Slot Channel

/-- The slot that an index stands for. -/
def Index.slot (events : PollMask) : Index → Slot
  | .kNew => Slot.absent
  | .kAdded => ⟨true, some events⟩
  | .kDeleted => ⟨true, none⟩

/-- The slot is what the index says. -/
def Channel.Recorded (c : Channel) : Prop := c.slot = c.index_.slot c.events_

theorem Channel.Recorded.update {c : Channel} (h : c.Recorded) (events : PollMask) :
    (Channel.update { c with events_ := events }).Recorded := by
  obtain ⟨old, index, slot⟩ := c
  obtain rfl : slot = index.slot old := h
  cases index with
  | kNew | kDeleted => rfl
  | kAdded =>
    by_cases he : events = PollMask.kNoneEvent
    · simp [Channel.update, Slot.updateChannel, Slot.update, Slot.ctl, Recorded, Index.slot, he]
    · simp [Channel.update, Slot.updateChannel, Slot.update, Slot.ctl, Recorded, Index.slot, he]

theorem Channel.Recorded.remove {c : Channel} (h : c.Recorded) : c.remove.Recorded := by
  obtain ⟨events, index, slot⟩ := c
  obtain rfl : slot = index.slot events := h
  cases index with
  | kNew | kDeleted | kAdded => rfl

namespace EPollPollers

open Cnet.Support

namespace World

variable {fd : Nat → Nat} {w w' : World} {c d f : Nat}

@[simp] theorem setEvents_channel (events : PollMask) :
    (w.setEvents c events).channel c = { w.channel c with events_ := events } :=
  Function.update_self ..

@[simp] theorem setIndex_channel (index : Index) :
    (w.setIndex c index).channel c = { w.channel c with index_ := index } :=
  Function.update_self ..

theorem setEvents_channel_ne (events : PollMask) (h : d ≠ c) :
    (w.setEvents c events).channel d = w.channel d := Function.update_of_ne h ..

theorem setIndex_channel_ne (index : Index) (h : d ≠ c) :
    (w.setIndex c index).channel d = w.channel d := Function.update_of_ne h ..

section epollCtl

variable {op : EpollOp} {ptr : Nat} {events : PollMask}

@[simp] theorem epollCtl_channel : (w.epollCtl op f ptr events).channel = w.channel := by
  cases op <;> rw [epollCtl] <;> split <;> rfl

@[simp] theorem epollCtl_channels : (w.epollCtl op f ptr events).channels_ = w.channels_ := by
  cases op <;> rw [epollCtl] <;> split <;> rfl

theorem epollCtl_lookup_ne (h : d ≠ f) :
    (w.epollCtl op f ptr events).interest.lookup d = w.interest.lookup d := by
  cases op with
  | add =>
    rw [epollCtl]
    split
    · rfl
    · exact AList.lookup_insert_ne h
  | mod =>
    rw [epollCtl]
    split
    · exact AList.lookup_insert_ne h
    · rfl
  | del =>
    rw [epollCtl]
    split
    · exact AList.lookup_erase_ne h
    · rfl

/-- On its descriptor the call does what it does to the slot. -/
theorem epollCtl_lookup (hown : ∀ p ∈ w.interest.lookup f, p.1 = ptr) :
    (w.epollCtl op f ptr events).interest.lookup f =
      (Slot.ctl events ((w.interest.lookup f).map Prod.snd) op).map (Prod.mk ptr) := by
  by_cases hmem : f ∈ w.interest
  · obtain ⟨⟨p, mask⟩, hp⟩ := Option.isSome_iff_exists.mp (AList.lookup_isSome.mpr hmem)
    obtain rfl : p = ptr := hown _ hp
    cases op with
    | add =>
      rw [epollCtl, if_pos hmem, hp]
      exact hp
    | mod =>
      rw [epollCtl, if_pos hmem, hp]
      exact AList.lookup_insert _
    | del =>
      rw [epollCtl, if_pos hmem, hp]
      exact AList.lookup_erase _ _
  · have hnone := AList.lookup_eq_none.mpr hmem
    cases op with
    | add =>
      rw [epollCtl, if_neg hmem, hnone]
      exact AList.lookup_insert _
    | mod =>
      rw [epollCtl, if_neg hmem, hnone]
      exact hnone
    | del =>
      rw [epollCtl, if_neg hmem, hnone]
      exact hnone

/-- The call succeeds when it adds what is absent, or changes or deletes what is present. -/
theorem epollCtl_trace (h : op = .add ↔ w.interest.lookup f = none) :
    (w.epollCtl op f ptr events).trace = w.trace ++ [⟨op, f, none⟩] := by
  rw [AList.lookup_eq_none] at h
  cases op with
  | add =>
    rw [epollCtl, if_neg (h.mp rfl)]
    rfl
  | mod | del =>
    have hmem : f ∈ w.interest := by
      by_contra hmem
      exact nomatch h.mpr hmem
    rw [epollCtl, if_pos hmem]
    rfl

end epollCtl

variable (fd) in
/-- The channel with its own slot of the poller. -/
def view (w : World) (c : Nat) : Channel where
  events_ := (w.channel c).events_
  index_ := (w.channel c).index_
  slot :=
    { mapped := w.Registered fd c
      interest := (w.interest.lookup (fd c)).bind fun p => if p.1 = c then some p.2 else none }

variable (fd) in
/-- The invariant: every view is in order, and what is watched is registered. -/
structure Inv (w : World) : Prop where
  recorded : ∀ c, (w.view fd c).Recorded
  owner : ∀ f, ∀ p ∈ w.interest.lookup f, w.channels_.lookup f = some p.1
  fds : ∀ f, ∀ c ∈ w.channels_.lookup f, fd c = f
  succeeded : ∀ call ∈ w.trace, call.errno = none

theorem own_update (hown : ∀ p ∈ w.interest.lookup (fd c), p.1 = c) (op : EpollOp) :
    ∀ p ∈ (w.update fd op c).interest.lookup (fd c), p.1 = c := by
  rw [update, epollCtl_lookup hown]
  intro p hp
  obtain ⟨mask, -, rfl⟩ := Option.map_eq_some_iff.mp hp
  rfl

variable (fd) in
/-- `w'` differs from `w` at the channel and its descriptor only, which no other channel
has in `w'`. -/
structure Local (w w' : World) (c : Nat) : Prop where
  channel : ∀ d, d ≠ c → w'.channel d = w.channel d
  channels : ∀ f, f ≠ fd c → w'.channels_.lookup f = w.channels_.lookup f
  interest : ∀ f, f ≠ fd c → w'.interest.lookup f = w.interest.lookup f
  alone : w'.Alone fd c
  own : ∀ p ∈ w'.interest.lookup (fd c), p.1 = c

namespace Local

theorem refl (h : w.Inv fd) (ha : w.Alone fd c) : Local fd w w c where
  channel := fun _ _ => rfl
  channels := fun _ _ => rfl
  interest := fun _ _ => rfl
  alone := ha
  own := fun p hp => ha p.1 (h.owner _ p hp)

theorem setEvents (hl : Local fd w w' c) (events : PollMask) :
    Local fd w (w'.setEvents c events) c where
  channel := fun d hd => (setEvents_channel_ne events hd).trans (hl.channel d hd)
  channels := hl.channels
  interest := hl.interest
  alone := hl.alone
  own := hl.own

theorem setIndex (hl : Local fd w w' c) (index : Index) : Local fd w (w'.setIndex c index) c where
  channel := fun d hd => (setIndex_channel_ne index hd).trans (hl.channel d hd)
  channels := hl.channels
  interest := hl.interest
  alone := hl.alone
  own := hl.own

theorem insert (hl : Local fd w w' c) :
    Local fd w { w' with channels_ := w'.channels_.insert (fd c) c } c where
  channel := hl.channel
  channels := fun f hf => (AList.lookup_insert_ne hf).trans (hl.channels f hf)
  interest := hl.interest
  alone := by
    intro d hd
    exact (Option.some.inj ((AList.lookup_insert _).symm.trans hd)).symm
  own := hl.own

theorem erase (hl : Local fd w w' c) :
    Local fd w { w' with channels_ := w'.channels_.erase (fd c) } c where
  channel := hl.channel
  channels := fun f hf => (AList.lookup_erase_ne hf).trans (hl.channels f hf)
  interest := hl.interest
  alone := by
    intro d hd
    exact nomatch (AList.lookup_erase _ _).symm.trans hd
  own := hl.own

theorem update (hl : Local fd w w' c) (op : EpollOp) : Local fd w (w'.update fd op c) c where
  channel := by
    rw [World.update, epollCtl_channel]
    exact hl.channel
  channels := by
    rw [World.update, epollCtl_channels]
    exact hl.channels
  interest := fun f hf => (epollCtl_lookup_ne hf).trans (hl.interest f hf)
  alone := by
    rw [Alone, World.update, epollCtl_channels]
    exact hl.alone
  own := own_update hl.own op

end Local

/-- A channel that is not the one at its descriptor has an empty slot. -/
theorem slot_of_other (hd : d ≠ c) (hfd : fd d = fd c) (ha : w.Alone fd c)
    (hown : ∀ p ∈ w.interest.lookup (fd c), p.1 = c) : (w.view fd d).slot = Slot.absent := by
  have hreg : ¬ w.Registered fd d := fun hr => hd (ha d (hfd ▸ hr))
  have hint : ((w.interest.lookup (fd d)).bind
      fun p => if p.1 = d then some p.2 else none) = none := by
    rw [hfd, Option.bind_eq_none_iff]
    intro p hp
    rw [if_neg fun hpd => hd (hpd.symm.trans (hown p hp))]
  rw [view, hint, decide_eq_false hreg]
  rfl

theorem Local.view_other (h : w.Inv fd) (ha : w.Alone fd c) (hl : Local fd w w' c) (hd : d ≠ c) :
    w'.view fd d = w.view fd d := by
  have hslot : (w'.view fd d).slot = (w.view fd d).slot := by
    by_cases hfd : fd d = fd c
    · rw [slot_of_other hd hfd hl.alone hl.own, slot_of_other hd hfd ha (Local.refl h ha).own]
    · have hreg : w'.Registered fd d ↔ w.Registered fd d := by
        rw [Registered, Registered, hl.channels _ hfd]
      rw [view, view, Slot.mk.injEq]
      exact ⟨decide_eq_decide.mpr hreg, by rw [hl.interest _ hfd]⟩
  have hchannel := hl.channel d hd
  rw [view, view, Channel.mk.injEq]
  exact ⟨by rw [hchannel], by rw [hchannel], hslot⟩

/-- With entries of its own only, the slot has what the kernel's list has. -/
theorem view_interest (hown : ∀ p ∈ w.interest.lookup (fd c), p.1 = c) :
    (w.view fd c).slot.interest = (w.interest.lookup (fd c)).map Prod.snd := by
  cases hp : w.interest.lookup (fd c) with
  | none => simp [view, hp]
  | some p => simp [view, hp, hown p hp]

/-- What a local change keeps of the invariant, when the view of its channel is in order. -/
theorem Inv.of_local (h : w.Inv fd) (ha : w.Alone fd c) (hl : Local fd w w' c)
    (hview : (w'.view fd c).Recorded) (htrace : ∀ call ∈ w'.trace, call.errno = none) :
    w'.Inv fd where
  recorded := by
    intro d
    by_cases hd : d = c
    · rw [hd]
      exact hview
    · rw [hl.view_other h ha hd]
      exact h.recorded d
  owner := by
    intro f p hp
    by_cases hf : f = fd c
    · subst hf
      have hinterest := view_interest hl.own
      rw [Option.mem_def.mp hp, Option.map_some] at hinterest
      have hmapped : (w'.view fd c).slot.mapped = true := by
        rw [Channel.Recorded] at hview
        rw [hview] at hinterest ⊢
        cases hi : (w'.view fd c).index_ with
        | kNew | kDeleted => rw [hi] at hinterest; exact nomatch hinterest
        | kAdded => rfl
      rw [hl.own p hp]
      exact of_decide_eq_true hmapped
    · rw [hl.interest f hf] at hp
      rw [hl.channels f hf]
      exact h.owner f p hp
  fds := by
    intro f d hd
    by_cases hf : f = fd c
    · subst hf
      rw [hl.alone d hd]
    · rw [hl.channels f hf] at hd
      exact h.fds f d hd
  succeeded := htrace

/-! What the operations do to the view of their channel. -/

theorem view_setEvents (events : PollMask) :
    (w.setEvents c events).view fd c = { w.view fd c with events_ := events } := by
  rw [view, setEvents_channel]
  rfl

theorem view_setIndex (index : Index) :
    (w.setIndex c index).view fd c = { w.view fd c with index_ := index } := by
  rw [view, setIndex_channel]
  rfl

theorem view_insert :
    view fd { w with channels_ := w.channels_.insert (fd c) c } c =
      { w.view fd c with slot := { (w.view fd c).slot with mapped := true } } := by
  have hreg : Registered fd { w with channels_ := w.channels_.insert (fd c) c } c :=
    AList.lookup_insert _
  rw [view, decide_eq_true hreg]
  rfl

theorem view_erase :
    view fd { w with channels_ := w.channels_.erase (fd c) } c =
      { w.view fd c with slot := { (w.view fd c).slot with mapped := false } } := by
  have hreg : ¬ Registered fd { w with channels_ := w.channels_.erase (fd c) } c := by
    rw [Registered, AList.lookup_erase]
    exact nofun
  rw [view, decide_eq_false hreg]
  rfl

theorem view_update (hown : ∀ p ∈ w.interest.lookup (fd c), p.1 = c) (op : EpollOp) :
    (w.update fd op c).view fd c =
      { w.view fd c with slot := (w.view fd c).slot.update op (w.channel c).events_ } := by
  have hinterest := view_interest (own_update hown op)
  rw [update, epollCtl_lookup hown, Option.map_map, ← view_interest hown] at hinterest
  have hreg : (w.update fd op c).Registered fd c ↔ w.Registered fd c := by
    rw [Registered, Registered, update, epollCtl_channels]
  refine Channel.ext ?_ ?_ (Slot.ext (decide_eq_decide.mpr hreg) ?_)
  · simp only [view, update, epollCtl_channel]
  · simp only [view, update, epollCtl_channel]
  · rw [update, hinterest]
    exact Option.map_id_apply

/-- `EPOLL_CTL_ADD` succeeds on a slot without interest, the others on one with. -/
theorem update_trace (hown : ∀ p ∈ w.interest.lookup (fd c), p.1 = c) (op : EpollOp)
    (h : op = .add ↔ (w.view fd c).slot.interest = none) :
    (w.update fd op c).trace = w.trace ++ [⟨op, fd c, none⟩] := by
  rw [view_interest hown, Option.map_eq_none_iff] at h
  exact epollCtl_trace h

theorem Inv.own (h : w.Inv fd) (ha : w.Alone fd c) : ∀ p ∈ w.interest.lookup (fd c), p.1 = c :=
  fun p hp => ha p.1 (h.owner _ p hp)

/-- `updateChannel` acts on the view of its channel as the single-descriptor model does,
and its `epoll_ctl` succeeds. -/
theorem updateChannel_spec (h : w.Inv fd) (ha : w.Alone fd c) (events : PollMask) :
    Local fd w ((w.setEvents c events).updateChannel fd c) c ∧
      ((w.setEvents c events).updateChannel fd c).view fd c =
        Channel.update { w.view fd c with events_ := events } ∧
      ∃ op, ((w.setEvents c events).updateChannel fd c).trace = w.trace ++ [⟨op, fd c, none⟩] := by
  have hl := (Local.refl h ha).setEvents events
  have hrecorded := h.recorded c
  rw [Channel.Recorded] at hrecorded
  rw [updateChannel, setEvents_channel]
  have hindex : (w.channel c).index_ = (w.view fd c).index_ := rfl
  cases hi : (w.view fd c).index_ with
  | kNew =>
    rw [hi] at hrecorded hindex
    rw [hindex]
    have hins := (hl.insert.setIndex .kAdded)
    refine ⟨hins.update .add, ?_, .add, ?_⟩
    · rw [view_update hins.own, view_setIndex, view_insert, view_setEvents]
      simp [Channel.update, Slot.updateChannel, hi, setEvents]
    · rw [update_trace hins.own .add]
      · rfl
      · rw [view_setIndex, view_insert, view_setEvents]
        simp [hrecorded, Index.slot, Slot.absent]
  | kDeleted =>
    rw [hi] at hrecorded hindex
    rw [hindex]
    have hset := hl.setIndex .kAdded
    refine ⟨hset.update .add, ?_, .add, ?_⟩
    · rw [view_update hset.own, view_setIndex, view_setEvents]
      simp [Channel.update, Slot.updateChannel, hi]
    · rw [update_trace hset.own .add]
      · rfl
      · rw [view_setIndex, view_setEvents]
        simp [hrecorded, Index.slot]
  | kAdded =>
    rw [hi] at hrecorded hindex
    rw [hindex]
    by_cases he : events = PollMask.kNoneEvent
    · rw [if_pos he]
      refine ⟨(hl.update .del).setIndex .kDeleted, ?_, .del, ?_⟩
      · rw [view_setIndex, view_update hl.own, view_setEvents]
        simp [Channel.update, Slot.updateChannel, hi, he]
      · refine (update_trace hl.own .del ?_).trans rfl
        rw [view_setEvents]
        simp [hrecorded, Index.slot]
    · rw [if_neg he]
      refine ⟨hl.update .mod, ?_, .mod, ?_⟩
      · rw [view_update hl.own, view_setEvents]
        simp [Channel.update, Slot.updateChannel, hi, he]
      · refine (update_trace hl.own .mod ?_).trans rfl
        rw [view_setEvents]
        simp [hrecorded, Index.slot]

/-- `removeChannel` acts on the view of its channel as the single-descriptor model does,
and its `epoll_ctl`, if it makes one, succeeds. -/
theorem removeChannel_spec (h : w.Inv fd) (ha : w.Alone fd c) :
    Local fd w (w.removeChannel fd c) c ∧
      (w.removeChannel fd c).view fd c = (w.view fd c).remove ∧
      ∀ call ∈ (w.removeChannel fd c).trace, call.errno = none := by
  have hl := (Local.refl h ha).erase
  have hrecorded := h.recorded c
  rw [Channel.Recorded] at hrecorded
  rw [removeChannel]
  by_cases hi : (w.view fd c).index_ = .kAdded
  · have hindex : (w.channel c).index_ = .kAdded := hi
    rw [if_pos hindex]
    refine ⟨(hl.update .del).setIndex .kNew, ?_, ?_⟩
    · rw [view_setIndex, view_update hl.own, view_erase]
      simp [Channel.remove, Slot.removeChannel, hi]
      rfl
    · have htrace := update_trace hl.own .del (by
        rw [view_erase]
        simp [hrecorded, hi, Index.slot])
      intro call hcall
      change call ∈ World.trace (update fd .del c _) at hcall
      rw [htrace] at hcall
      rcases List.mem_append.mp hcall with hcall | hcall
      · exact h.succeeded call hcall
      · rw [List.mem_singleton.mp hcall]
  · have hindex : (w.channel c).index_ ≠ .kAdded := hi
    rw [if_neg hindex]
    refine ⟨hl.setIndex .kNew, ?_, h.succeeded⟩
    rw [view_setIndex, view_erase]
    simp [Channel.remove, Slot.removeChannel, hi]

theorem Inv.updateChannel (h : w.Inv fd) (ha : w.Alone fd c) (events : PollMask) :
    ((w.setEvents c events).updateChannel fd c).Inv fd := by
  obtain ⟨hl, hview, op, htrace⟩ := updateChannel_spec h ha events
  refine h.of_local ha hl (hview ▸ (h.recorded c).update events) fun call hcall => ?_
  rw [htrace] at hcall
  rcases List.mem_append.mp hcall with hcall | hcall
  · exact h.succeeded call hcall
  · rw [List.mem_singleton.mp hcall]

theorem Inv.removeChannel (h : w.Inv fd) (ha : w.Alone fd c) : (w.removeChannel fd c).Inv fd := by
  obtain ⟨hl, hview, htrace⟩ := removeChannel_spec h ha
  exact h.of_local ha hl (hview ▸ (h.recorded c).remove) htrace

theorem Registered.alone (h : w.Registered fd c) : w.Alone fd c :=
  fun _ hd => Option.some.inj (hd.symm.trans h)

theorem Inv.close (h : w.Inv fd) (hf : w.channels_.lookup f = none) :
    Inv fd { w with interest := w.interest.erase f } := by
  have hnone : w.interest.lookup f = none := by
    cases hp : w.interest.lookup f with
    | none => rfl
    | some p => exact absurd (hf.symm.trans (h.owner f p hp)) nofun
  have hsame : ∀ g, (w.interest.erase f).lookup g = w.interest.lookup g := by
    intro g
    by_cases hg : g = f
    · rw [hg, AList.lookup_erase, hnone]
    · exact AList.lookup_erase_ne hg
  refine ⟨fun c => ?_, fun g p hp => h.owner g p (hsame g ▸ hp), h.fds, h.succeeded⟩
  have hview : view fd { w with interest := w.interest.erase f } c = w.view fd c := by
    simp only [view, hsame]
    rfl
  exact hview ▸ h.recorded c

theorem inv_new : (new : World).Inv fd where
  recorded := fun _ => rfl
  owner := fun _ _ hp => nomatch hp
  fds := fun _ _ hc => nomatch hc
  succeeded := List.forall_mem_nil _

theorem inv_step (w : World) (s : Step) (w' : World) (h : w.Inv fd) (hs : w.Proper fd s)
    (hstep : step fd w s = some w') : w'.Inv fd := by
  cases s with
  | updateChannel c events =>
    obtain rfl := Option.some.inj hstep
    exact h.updateChannel hs events
  | removeChannel c =>
    obtain rfl := Option.some.inj hstep
    exact h.removeChannel hs.1.alone
  | close f =>
    obtain rfl := Option.some.inj hstep
    exact h.close hs

variable (fd) in
/-- The index, `channels_` and the kernel's list agree on every channel. A channel whose
descriptor another one is registered under has nothing to do with either map. -/
structure Consistent (w : World) : Prop where
  added : ∀ c, w.Alone fd c → ((w.channel c).index_ = .kAdded ↔ fd c ∈ w.interest)
  unmapped : ∀ c, w.Alone fd c → ((w.channel c).index_ = .kNew ↔ fd c ∉ w.channels_)
  deleted : ∀ c, w.Alone fd c →
    ((w.channel c).index_ = .kDeleted ↔ fd c ∈ w.channels_ ∧ fd c ∉ w.interest)
  taken : ∀ c, ¬ w.Alone fd c → (w.channel c).index_ = .kNew
  mask : ∀ f, ∀ p ∈ w.interest.lookup f, fd p.1 = f ∧ p.2 = (w.channel p.1).events_
  succeeded : ∀ call ∈ w.trace, call.errno = none

theorem Inv.mem_interest (h : w.Inv fd) (ha : w.Alone fd c) :
    fd c ∈ w.interest ↔ (w.view fd c).slot.interest ≠ none := by
  rw [view_interest (h.own ha), ne_eq, Option.map_eq_none_iff, AList.lookup_eq_none, not_not]

theorem Alone.mem_channels (ha : w.Alone fd c) :
    fd c ∈ w.channels_ ↔ (w.view fd c).slot.mapped = true := by
  rw [← AList.lookup_isSome, Option.isSome_iff_exists]
  constructor
  · rintro ⟨d, hd⟩
    exact decide_eq_true (hd.trans (congrArg some (ha d hd)))
  · exact fun hm => ⟨c, of_decide_eq_true hm⟩

theorem Inv.consistent (h : w.Inv fd) : w.Consistent fd where
  added := by
    intro c ha
    rw [h.mem_interest ha, h.recorded c]
    show (w.view fd c).index_ = _ ↔ _
    cases (w.view fd c).index_ <;> simp [Index.slot, Slot.absent]
  unmapped := by
    intro c ha
    rw [ha.mem_channels, h.recorded c]
    show (w.view fd c).index_ = _ ↔ _
    cases (w.view fd c).index_ <;> simp [Index.slot, Slot.absent]
  deleted := by
    intro c ha
    rw [h.mem_interest ha, ha.mem_channels, h.recorded c]
    show (w.view fd c).index_ = _ ↔ _
    cases (w.view fd c).index_ <;> simp [Index.slot, Slot.absent]
  taken := by
    intro c ha
    have hreg : ¬ w.Registered fd c := fun hr => ha hr.alone
    have hslot := congrArg Slot.mapped (h.recorded c)
    rw [view, decide_eq_false hreg] at hslot
    change false = (Index.slot _ (w.channel c).index_).mapped at hslot
    cases hi : (w.channel c).index_ with
    | kNew => rfl
    | kAdded | kDeleted =>
      rw [hi] at hslot
      exact nomatch hslot
  mask := by
    rintro f ⟨c, mask⟩ hp
    have hfd := h.fds f c (h.owner f _ hp)
    subst hfd
    have ha : w.Alone fd c := Registered.alone (h.owner _ _ hp)
    have hinterest := view_interest (h.own ha)
    rw [Option.mem_def.mp hp, h.recorded c] at hinterest
    refine ⟨rfl, ?_⟩
    cases hi : (w.view fd c).index_ with
    | kNew | kDeleted => rw [hi] at hinterest; exact nomatch hinterest
    | kAdded =>
      rw [hi] at hinterest
      exact (Option.some.inj hinterest).symm
  succeeded := h.succeeded

/-- Over every run of proper calls, on any channels, no `epoll_ctl` is refused. -/
theorem epoll_consistent (fd : Nat → Nat) (steps : List Step)
    (hok : StepsMeet (step fd) (Proper fd) new steps) :
    ∀ w ∈ run (step fd) new steps, w.Consistent fd :=
  fun _ hw => (run_invariant (step fd) inv_step inv_new hok hw).consistent

/-- Channels 0 and 2 have descriptor 5 in turn, channel 1 has descriptor 6. -/
def descriptorReused : List Step :=
  [.updateChannel 0 PollMask.kReadEvent, .updateChannel 1 PollMask.kWriteEvent,
    .updateChannel 0 PollMask.kNoneEvent, .updateChannel 1 PollMask.kNoneEvent,
    .removeChannel 0, .close 5, .updateChannel 2 PollMask.kReadEvent,
    .updateChannel 1 PollMask.kReadEvent]

theorem epoll_consistent_descriptorReused :
    StepsMeet (step fun c => 5 + c % 2) (Proper fun c => 5 + c % 2) new descriptorReused ∧
      ∃ w ∈ run (step fun c => 5 + c % 2) new descriptorReused,
        w.interest.lookup 5 = some (2, PollMask.kReadEvent) ∧ w.trace.length = 6 ∧
          w.Consistent fun c => 5 + c % 2 := by
  have hok : StepsMeet (step fun c => 5 + c % 2) (Proper fun c => 5 + c % 2) new
      descriptorReused := by decide
  have hrun : ∃ w ∈ run (step fun c => 5 + c % 2) new descriptorReused,
      w.interest.lookup 5 = some (2, PollMask.kReadEvent) ∧ w.trace.length = 6 := by decide
  obtain ⟨w, hw, hreused, hcalls⟩ := hrun
  exact ⟨hok, w, hw, hreused, hcalls, epoll_consistent _ descriptorReused hok w hw⟩

end World

end EPollPollers

end Cnet.Net
