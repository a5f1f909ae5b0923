import Cnet.Net.PollPoller

/-!
# What a poll poller represents

Every registered channel has an entry of its own in `pollfds_`, which `poll` watches or
ignores as the channel has an interest or not. Three kinds of calls break that: one that
registers a channel without interest, one that enables an ignored channel again, since
the entry keeps its negated descriptor, and any `removeChannel`, which leaves the index
of its channel behind (and moves the entries after it away from theirs).
-/

namespace Cnet.Net.PollPollers

open Cnet.Support

namespace World

variable {fd : Nat → Nat} {w w' : World} {c d f : Nat}

variable (fd) in
/-- The entry is what a channel with these events should have. -/
def Entry (c : Nat) (events : PollMask) (pfd : PollFd) : Prop :=
  if events = PollMask.kNoneEvent then pfd.fd = ignored fd c
  else pfd.fd = fd c ∧ pfd.events = events

variable (fd) in
structure Represents (w : World) : Prop where
  entries : ∀ c, w.Registered fd c → ∃ pfd ∈ w.entry c, Entry fd c (w.channel c).events_ pfd
  distinct : ∀ c d, w.Registered fd c → w.Registered fd d →
    (w.channel c).index_ = (w.channel d).index_ → c = d
  size : w.pollfds_.length = w.channels_.entries.length
  again : ∀ c, ¬ w.Registered fd c →
    (w.channel c).index_ < 0 ∧ ∀ events, w.Proper fd (.updateChannel c events)
  watches : ∀ f : Nat, (∃ pfd ∈ w.pollfds_, pfd.fd = f) ↔
    ∃ c, fd c = f ∧ w.Registered fd c ∧ (w.channel c).events_ ≠ PollMask.kNoneEvent

variable (fd) in
/-- The condition on a call: it registers a channel with an interest, leaves the interest
of a registered channel empty if it is, and removes no channel. -/
def Keeps (w : World) : Step → Prop
  | .updateChannel c events =>
      if w.Registered fd c then
        (w.channel c).events_ ≠ PollMask.kNoneEvent ∨ events = PollMask.kNoneEvent
      else events ≠ PollMask.kNoneEvent
  | .removeChannel _ => False

instance (w : World) : (s : Step) → Decidable (w.Keeps fd s)
  | .updateChannel c events => by
    have hkept : Decidable ((w.channel c).events_ ≠ PollMask.kNoneEvent ∨
        events = PollMask.kNoneEvent) := @instDecidableOr _ _ instDecidableNot inferInstance
    have hadded : Decidable (events ≠ PollMask.kNoneEvent) := instDecidableNot
    exact @instDecidableIte _ _ _ inferInstance hkept hadded
  | .removeChannel _ => inferInstanceAs (Decidable False)

variable (fd) in
/-- The invariant: the entries and the registered channels match one to one. -/
structure Inv (w : World) : Prop where
  entries : ∀ c, w.Registered fd c → ∃ pfd ∈ w.entry c, Entry fd c (w.channel c).events_ pfd
  distinct : ∀ c d, w.Registered fd c → w.Registered fd d →
    (w.channel c).index_ = (w.channel d).index_ → c = d
  size : w.pollfds_.length = w.channels_.entries.length
  unregistered : ∀ c, ¬ w.Registered fd c → (w.channel c).index_ < 0
  owned : ∀ i < w.pollfds_.length, ∃ c, w.Registered fd c ∧ (w.channel c).index_ = i
  fds : ∀ f, ∀ c ∈ w.channels_.lookup f, fd c = f

theorem entry_eq_some {pfd : PollFd} :
    w.entry c = some pfd ↔ ∃ i : Nat, (w.channel c).index_ = i ∧ w.pollfds_[i]? = some pfd := by
  rw [entry]
  constructor
  · intro h
    obtain ⟨hpos, hget⟩ := Option.ite_none_right_eq_some.mp h
    exact ⟨_, (Int.toNat_of_nonneg hpos).symm, hget⟩
  · rintro ⟨i, hi, hget⟩
    rw [hi, if_pos (Int.natCast_nonneg i), Int.toNat_natCast]
    exact hget

theorem ignored_neg (fd : Nat → Nat) (c : Nat) : ignored fd c < 0 := by
  rw [ignored]
  omega

theorem Entry.fd_eq {events : PollMask} {pfd : PollFd} (h : Entry fd c events pfd) :
    0 ≤ pfd.fd ↔ events ≠ PollMask.kNoneEvent := by
  rw [Entry] at h
  have hneg := ignored_neg fd c
  split at h
  next hnone =>
    rw [h]
    exact ⟨fun hpos => by omega, fun hne => absurd hnone hne⟩
  next hsome =>
    rw [h.1]
    exact ⟨fun _ => hsome, fun _ => Int.natCast_nonneg _⟩

theorem Inv.lookup_eq_none (hfd : Function.Injective fd) (h : w.Inv fd)
    (hc : ¬ w.Registered fd c) : w.channels_.lookup (fd c) = none := by
  cases hd : w.channels_.lookup (fd c) with
  | none => rfl
  | some d =>
    obtain rfl := hfd (h.fds _ d hd)
    exact absurd hd hc

/-- A registered channel's index is that of an entry. -/
theorem Inv.index_ne_length (h : w.Inv fd) (hc : w.Registered fd c) :
    (w.channel c).index_ ≠ w.pollfds_.length := by
  obtain ⟨pfd, hentry, -⟩ := h.entries c hc
  obtain ⟨i, hi, hget⟩ := entry_eq_some.mp hentry
  have hlt := (List.getElem?_eq_some_iff.mp hget).1
  rw [hi]
  omega

/-- An entry with a descriptor is that of a registered channel with an interest. -/
theorem Inv.exists_channel (h : w.Inv fd) {pfd : PollFd} (hmem : pfd ∈ w.pollfds_)
    (hpos : 0 ≤ pfd.fd) :
    ∃ c, w.Registered fd c ∧ (w.channel c).events_ ≠ PollMask.kNoneEvent ∧
      pfd.fd = fd c ∧ pfd.events = (w.channel c).events_ := by
  obtain ⟨i, hi, hget⟩ := List.getElem_of_mem hmem
  obtain ⟨c, hreg, hindex⟩ := h.owned i hi
  obtain ⟨pfd', hentry, hok⟩ := h.entries c hreg
  have hpfd : w.entry c = some pfd :=
    entry_eq_some.mpr ⟨i, hindex, List.getElem?_eq_some_iff.mpr ⟨hi, hget⟩⟩
  obtain rfl := Option.some.inj (hpfd.symm.trans hentry)
  have hne := hok.fd_eq.mp hpos
  rw [Entry, if_neg hne] at hok
  exact ⟨c, hreg, hne, hok⟩

theorem Inv.represents (hfd : Function.Injective fd) (h : w.Inv fd) : w.Represents fd where
  entries := h.entries
  distinct := h.distinct
  size := h.size
  again := by
    intro c hc
    refine ⟨h.unregistered c hc, fun events => ?_⟩
    rw [Proper, if_pos (h.unregistered c hc)]
    exact h.lookup_eq_none hfd hc
  watches := by
    intro f
    constructor
    · rintro ⟨pfd, hmem, hf⟩
      obtain ⟨c, hreg, hne, hfdc, -⟩ := h.exists_channel hmem (hf ▸ Int.natCast_nonneg f)
      exact ⟨c, Int.natCast_inj.mp (hfdc.symm.trans hf), hreg, hne⟩
    · rintro ⟨c, rfl, hreg, hne⟩
      obtain ⟨pfd, hentry, hok⟩ := h.entries c hreg
      obtain ⟨i, -, hget⟩ := entry_eq_some.mp hentry
      rw [Entry, if_neg hne] at hok
      exact ⟨pfd, List.mem_of_getElem? hget, hok.1⟩

theorem inv_new : (new : World).Inv fd where
  entries := fun _ h => nomatch h
  distinct := fun _ _ h => nomatch h
  size := rfl
  unregistered := fun _ _ => by
    show (-1 : Int) < 0
    decide
  owned := fun _ h => absurd h (Nat.not_lt_zero _)
  fds := fun _ _ h => nomatch h

section addChannel

theorem addChannel_channel (w : World) (c : Nat) (events : PollMask) :
    ((w.setEvents c events).addChannel fd c).channel c = ⟨events, w.pollfds_.length⟩ := by
  simp [addChannel, setEvents]

theorem addChannel_channel_ne (w : World) (events : PollMask) (hd : d ≠ c) :
    ((w.setEvents c events).addChannel fd c).channel d = w.channel d := by
  simp [addChannel, setEvents, hd]

theorem addChannel_registered (hfd : Function.Injective fd) (w : World) (c d : Nat)
    (events : PollMask) :
    ((w.setEvents c events).addChannel fd c).Registered fd d ↔ d = c ∨ w.Registered fd d := by
  by_cases hd : d = c
  · subst hd
    exact ⟨fun _ => .inl rfl, fun _ => AList.lookup_insert _⟩
  · have hlookup : (w.channels_.insert (fd c) c).lookup (fd d) = w.channels_.lookup (fd d) :=
      AList.lookup_insert_ne fun h => hd (hfd h)
    rw [Registered, Registered, ← hlookup]
    exact ⟨.inr, fun h => h.resolve_left hd⟩

/-- Another channel that is registered was registered before, and is as it was. -/
theorem addChannel_old (hfd : Function.Injective fd) {events : PollMask} (hdc : d ≠ c)
    (hd : ((w.setEvents c events).addChannel fd c).Registered fd d) :
    w.Registered fd d ∧
      ((w.setEvents c events).addChannel fd c).channel d = w.channel d :=
  ⟨((addChannel_registered hfd w c d events).mp hd).resolve_left hdc,
    addChannel_channel_ne w events hdc⟩

/-- Entries already there stay where they are. -/
theorem addChannel_entry {pfd : PollFd} (events : PollMask) (hd : d ≠ c)
    (h : w.entry d = some pfd) :
    ((w.setEvents c events).addChannel fd c).entry d = some pfd := by
  obtain ⟨i, hi, hget⟩ := entry_eq_some.mp h
  refine entry_eq_some.mpr ⟨i, ?_, ?_⟩
  · rw [addChannel_channel_ne w events hd]
    exact hi
  · have hlt := (List.getElem?_eq_some_iff.mp hget).1
    exact (List.getElem?_append_left hlt).trans hget

theorem Inv.addChannel (hfd : Function.Injective fd) (h : w.Inv fd) {events : PollMask}
    (hnone : w.channels_.lookup (fd c) = none) (he : events ≠ PollMask.kNoneEvent) :
    ((w.setEvents c events).addChannel fd c).Inv fd where
  entries := by
    intro d hd
    by_cases hdc : d = c
    · subst hdc
      refine ⟨⟨fd d, events, PollMask.kNoneEvent⟩,
        entry_eq_some.mpr ⟨w.pollfds_.length, ?_, ?_⟩, ?_⟩
      · rw [addChannel_channel]
      · simp [World.addChannel, setEvents]
      · rw [Entry, addChannel_channel, if_neg he]
        exact ⟨rfl, rfl⟩
    · obtain ⟨hold, hchannel⟩ := addChannel_old hfd hdc hd
      obtain ⟨pfd, hentry, hok⟩ := h.entries d hold
      rw [hchannel]
      exact ⟨pfd, addChannel_entry events hdc hentry, hok⟩
  distinct := by
    intro d e hd he' heq
    by_cases hdc : d = c
    · subst hdc
      by_cases hec : e = d
      · exact hec.symm
      · obtain ⟨hold, hchannel⟩ := addChannel_old hfd hec he'
        rw [addChannel_channel, hchannel] at heq
        exact absurd heq.symm (h.index_ne_length hold)
    · obtain ⟨hold, hchannel⟩ := addChannel_old hfd hdc hd
      rw [hchannel] at heq
      by_cases hec : e = c
      · subst hec
        rw [addChannel_channel] at heq
        exact absurd heq (h.index_ne_length hold)
      · obtain ⟨hold', hchannel'⟩ := addChannel_old hfd hec he'
        rw [hchannel'] at heq
        exact h.distinct d e hold hold' heq
  size := by
    have hsize : (w.channels_.insert (fd c) c).entries.length = w.channels_.entries.length + 1 := by
      rw [AList.entries_insert_of_notMem (AList.lookup_eq_none.mp hnone), List.length_cons]
    show (w.pollfds_ ++ [_]).length = (w.channels_.insert (fd c) c).entries.length
    rw [hsize, List.length_append, List.length_singleton, h.size]
  unregistered := by
    intro d hd
    rw [addChannel_registered hfd, not_or] at hd
    rw [addChannel_channel_ne w events hd.1]
    exact h.unregistered d hd.2
  owned := by
    intro i hi
    have hi' : i < w.pollfds_.length + 1 := by simpa [World.addChannel, setEvents] using hi
    by_cases hlast : i = w.pollfds_.length
    · refine ⟨c, (addChannel_registered hfd w c c events).mpr (.inl rfl), ?_⟩
      rw [addChannel_channel, hlast]
    · obtain ⟨d, hreg, hindex⟩ := h.owned i (by omega)
      have hdc : d ≠ c := by
        rintro rfl
        exact absurd (hnone.symm.trans hreg) nofun
      refine ⟨d, (addChannel_registered hfd w c d events).mpr (.inr hreg), ?_⟩
      rw [addChannel_channel_ne w events hdc]
      exact hindex
  fds := by
    intro f d hd
    by_cases hf : f = fd c
    · subst hf
      have hsome : (w.channels_.insert (fd c) c).lookup (fd c) = some d := hd
      rw [AList.lookup_insert] at hsome
      rw [Option.some.inj hsome]
    · have hsome : (w.channels_.insert (fd c) c).lookup f = some d := hd
      rw [AList.lookup_insert_ne hf] at hsome
      exact h.fds f d hsome

end addChannel

section updateEntry

variable {events : PollMask} {i : Nat} {pfd : PollFd}

variable (fd) in
/-- The second branch of `updateChannel`, on the entry at `i`. -/
def updated (w : World) (c : Nat) (events : PollMask) (i : Nat) (pfd : PollFd) : World :=
  { w.setEvents c events with pollfds_ := w.pollfds_.set i (updateEntry fd c events pfd) }

theorem updated_channel : (w.updated fd c events i pfd).channel c =
    { w.channel c with events_ := events } := Function.update_self ..

theorem updated_channel_ne (hd : d ≠ c) :
    (w.updated fd c events i pfd).channel d = w.channel d := Function.update_of_ne hd ..

theorem updated_index :
    ((w.updated fd c events i pfd).channel d).index_ = (w.channel d).index_ := by
  by_cases hd : d = c
  · rw [hd, updated_channel]
  · rw [updated_channel_ne hd]

theorem updated_entry (hindex : (w.channel c).index_ = i) (hget : w.pollfds_[i]? = some pfd) :
    (w.updated fd c events i pfd).entry c = some (updateEntry fd c events pfd) := by
  refine entry_eq_some.mpr ⟨i, updated_index.trans hindex, ?_⟩
  exact List.getElem?_set_self (List.getElem?_eq_some_iff.mp hget).1

/-- Only the entry at `i` changes. -/
theorem Inv.updated (h : w.Inv fd) (hreg : w.Registered fd c) (hindex : (w.channel c).index_ = i)
    (hget : w.pollfds_[i]? = some pfd)
    (hold : (w.channel c).events_ ≠ PollMask.kNoneEvent ∨ events = PollMask.kNoneEvent) :
    (w.updated fd c events i pfd).Inv fd where
  entries := by
    intro d hd
    obtain ⟨pfd', hentry, hok⟩ := h.entries d hd
    by_cases hdc : d = c
    · subst hdc
      obtain rfl : pfd = pfd' :=
        Option.some.inj ((entry_eq_some.mpr ⟨i, hindex, hget⟩).symm.trans hentry)
      refine ⟨World.updateEntry fd d events pfd, updated_entry hindex hget, ?_⟩
      · rw [updated_channel, Entry, World.updateEntry]
        by_cases he : events = PollMask.kNoneEvent
        · rw [if_pos he, if_pos he]
        · rw [Entry, if_neg (hold.resolve_right he)] at hok
          rw [if_neg he, if_neg he]
          exact ⟨hok.1, rfl⟩
    · obtain ⟨j, hj, hgetj⟩ := entry_eq_some.mp hentry
      have hij : i ≠ j := by
        rintro rfl
        exact hdc (h.distinct d c hd hreg (hj.trans hindex.symm))
      rw [updated_channel_ne hdc]
      refine ⟨pfd', entry_eq_some.mpr ⟨j, ?_, ?_⟩, hok⟩
      · rw [updated_index]
        exact hj
      · exact (List.getElem?_set_ne hij).trans hgetj
  distinct := by
    intro d e hd he heq
    rw [updated_index, updated_index] at heq
    exact h.distinct d e hd he heq
  size := (List.length_set ..).trans h.size
  unregistered := by
    intro d hd
    rw [updated_index]
    exact h.unregistered d hd
  owned := by
    intro j hj
    obtain ⟨d, hd, hdj⟩ := h.owned j (lt_of_lt_of_eq hj (List.length_set ..))
    refine ⟨d, hd, ?_⟩
    rw [updated_index]
    exact hdj
  fds := h.fds

end updateEntry

/-- What `updateChannel` does within its asserts. -/
theorem updateChannel_cases {events : PollMask} (hp : w.Proper fd (.updateChannel c events)) :
    (¬ w.Registered fd c ∧ w.channels_.lookup (fd c) = none ∧
        step fd w (.updateChannel c events) = some ((w.setEvents c events).addChannel fd c)) ∨
      ∃ (i : Nat) (pfd : PollFd), w.Registered fd c ∧ (w.channel c).index_ = i ∧
        w.pollfds_[i]? = some pfd ∧
        step fd w (.updateChannel c events) = some (w.updated fd c events i pfd) := by
  have hindex : ((w.setEvents c events).channel c).index_ = (w.channel c).index_ := by
    simp [setEvents]
  rw [Proper] at hp
  by_cases hneg : (w.channel c).index_ < 0
  · rw [if_pos hneg] at hp
    refine .inl ⟨fun hr => Option.some_ne_none c (hr.symm.trans hp), hp, ?_⟩
    rw [step, updateChannel, hindex, if_pos hneg]
  · rw [if_neg hneg] at hp
    obtain ⟨hreg, pfd, hentry, -⟩ := hp
    obtain ⟨i, hi, hget⟩ := entry_eq_some.mp hentry
    have hentry' : (w.setEvents c events).entry c = some pfd :=
      entry_eq_some.mpr ⟨i, hindex.trans hi, hget⟩
    refine .inr ⟨i, pfd, hreg, hi, hget, ?_⟩
    rw [step, updateChannel, hindex, if_neg hneg, hentry', hi, Int.toNat_natCast]
    simp [World.updated, setEvents]

theorem inv_step (hfd : Function.Injective fd) (w : World) (s : Step) (w' : World) (h : w.Inv fd)
    (hp : w.Proper fd s) (hs : w.Keeps fd s) (hstep : step fd w s = some w') : w'.Inv fd := by
  cases s with
  | removeChannel c => exact absurd hs id
  | updateChannel c events =>
    rw [Keeps] at hs
    rcases updateChannel_cases hp with ⟨hreg, hnone, heq⟩ | ⟨i, pfd, hreg, hindex, hget, heq⟩
    · rw [if_neg hreg] at hs
      obtain rfl := Option.some.inj (heq.symm.trans hstep)
      exact h.addChannel hfd hnone hs
    · rw [if_pos hreg] at hs
      obtain rfl := Option.some.inj (heq.symm.trans hstep)
      exact h.updated hreg hindex hget hs

/-- Every other call spoils the representation. -/
theorem not_represents (hfd : Function.Injective fd) (w : World) (s : Step) (h : w.Inv fd)
    (hp : w.Proper fd s) (hs : ¬ w.Keeps fd s) :
    ∃ w', step fd w s = some w' ∧ ¬ w'.Represents fd := by
  cases s with
  | removeChannel c =>
    -- the channel is not registered any more, and keeps its index
    obtain ⟨-, -, pfd, hentry, -⟩ := hp
    obtain ⟨i, hi, -⟩ := entry_eq_some.mp hentry
    refine ⟨_, by rw [step, removeChannel, hentry, Option.map_some], fun hrep => ?_⟩
    have hreg : ¬ Registered fd { w with
        channels_ := w.channels_.erase (fd c)
        pollfds_ := w.pollfds_.eraseIdx (w.channel c).index_.toNat } c := by
      rw [Registered, AList.lookup_erase]
      exact fun hnone => Option.some_ne_none c hnone.symm
    have hneg : (w.channel c).index_ < 0 := (hrep.again c hreg).1
    omega
  | updateChannel c events =>
    rw [Keeps] at hs
    rcases updateChannel_cases hp with ⟨hreg, hnone, heq⟩ | ⟨i, pfd, hreg, hindex, hget, heq⟩
    · -- the new entry is watched, without interest
      rw [if_neg hreg, not_not] at hs
      subst hs
      refine ⟨_, heq, fun hrep => ?_⟩
      have hmem : ∃ pfd ∈ ((w.setEvents c PollMask.kNoneEvent).addChannel fd c).pollfds_,
          pfd.fd = fd c :=
        ⟨_, List.mem_append_right _ List.mem_cons_self, rfl⟩
      obtain ⟨d, hd, -, hevents⟩ := (hrep.watches (fd c)).mp hmem
      obtain rfl := hfd hd
      exact hevents (congrArg Fields.events_ (addChannel_channel w d _))
    · -- the ignored entry stays ignored
      rw [if_pos hreg, not_or, not_not] at hs
      obtain ⟨hold, hne⟩ := hs
      obtain ⟨pfd', hentry, hok⟩ := h.entries c hreg
      obtain rfl := Option.some.inj ((entry_eq_some.mpr ⟨i, hindex, hget⟩).symm.trans hentry)
      rw [Entry, if_pos hold] at hok
      refine ⟨_, heq, fun hrep => ?_⟩
      obtain ⟨pfd', hentry', hok'⟩ := hrep.entries c hreg
      rw [updated_entry hindex hget] at hentry'
      obtain rfl := Option.some.inj hentry'
      rw [updated_channel, Entry, if_neg hne, updateEntry, if_neg hne] at hok'
      have hneg := ignored_neg fd c
      have hfd' : pfd.fd = fd c := hok'.1
      omega

/-- A search that succeeds for every element collects what it finds. -/
theorem mapM_total {α β : Type} {g : α → Option β} {l : List α} (h : ∀ x ∈ l, ∃ y, g x = some y) :
    ∃ ys, l.mapM g = some ys ∧ ∀ y, y ∈ ys ↔ ∃ x ∈ l, g x = some y := by
  induction l with
  | nil => exact ⟨[], rfl, by simp⟩
  | cons x l ih =>
    obtain ⟨y, hy⟩ := h x List.mem_cons_self
    obtain ⟨ys, hys, hmem⟩ := ih fun x' hx' => h x' (List.mem_cons_of_mem _ hx')
    refine ⟨y :: ys, by rw [List.mapM_cons, hy, hys]; rfl, fun z => ?_⟩
    rw [List.mem_cons, hmem, List.exists_mem_cons_iff, hy, Option.some.injEq, eq_comm]

/-- `fillActiveChannels` finds the channel of every entry that `poll` reports: those with
an interest of which something is ready. -/
theorem fillActiveChannels_spec (h : w.Inv fd) (ready : Nat → PollMask) :
    ∃ active, (w.poll ready).fillActiveChannels = some active ∧
      ∀ c revents, (c, revents) ∈ active ↔
        w.Registered fd c ∧ (w.channel c).events_ ≠ PollMask.kNoneEvent ∧
          revents = (ready (fd c)).and (w.channel c).events_.reportable ∧
          revents ≠ PollMask.kNoneEvent := by
  have hfound : ∀ pfd ∈ (w.poll ready).pollfds_.filter fun pfd => pfd.revents ≠ PollMask.kNoneEvent,
      ∃ c, w.Registered fd c ∧ (w.channel c).events_ ≠ PollMask.kNoneEvent ∧ pfd.fd = fd c ∧
        pfd.revents = (ready (fd c)).and (w.channel c).events_.reportable ∧
        pfd.revents ≠ PollMask.kNoneEvent := by
    intro pfd hpfd
    obtain ⟨hmem, hne⟩ := List.mem_filter.mp hpfd
    obtain ⟨old, hold, rfl⟩ := List.mem_map.mp hmem
    have hne := of_decide_eq_true hne
    have hpos : 0 ≤ old.fd := by
      by_contra hneg
      exact hne (if_neg hneg)
    obtain ⟨c, hreg, hevents, hfd, heq⟩ := h.exists_channel hold hpos
    refine ⟨c, hreg, hevents, hfd, ?_, hne⟩
    rw [PollFd.poll, if_pos hpos, hfd, heq, Int.toNat_natCast]
  have hsearch : ∀ pfd : PollFd, ∀ c, w.Registered fd c → pfd.fd = fd c →
      (if 0 ≤ pfd.fd then (w.channels_.lookup pfd.fd.toNat).map fun c => (c, pfd.revents)
        else none) = some (c, pfd.revents) := by
    intro pfd c hreg hfd
    rw [hfd, if_pos (Int.natCast_nonneg _), Int.toNat_natCast, hreg]
    rfl
  obtain ⟨active, hactive, hmem⟩ := mapM_total (g := fun pfd : PollFd =>
      if 0 ≤ pfd.fd then (w.channels_.lookup pfd.fd.toNat).map fun c => (c, pfd.revents) else none)
    fun pfd hpfd => by
      obtain ⟨c, hreg, -, hfd, -⟩ := hfound pfd hpfd
      exact ⟨_, hsearch pfd c hreg hfd⟩
  refine ⟨active, hactive, fun c revents => ?_⟩
  rw [hmem]
  constructor
  · rintro ⟨pfd, hpfd, hget⟩
    obtain ⟨d, hreg, hevents, hfd, hrevents, hne⟩ := hfound pfd hpfd
    rw [hsearch pfd d hreg hfd] at hget
    obtain ⟨rfl, rfl⟩ := Prod.mk.inj (Option.some.inj hget)
    exact ⟨hreg, hevents, hrevents, hne⟩
  · rintro ⟨hreg, hevents, hrevents, hne⟩
    obtain ⟨pfd, hentry, hok⟩ := h.entries c hreg
    obtain ⟨i, -, hget⟩ := entry_eq_some.mp hentry
    have hpos := hok.fd_eq.mpr hevents
    rw [Entry, if_neg hevents] at hok
    have hpoll : (pfd.poll ready).revents = revents := by
      rw [PollFd.poll, if_pos hpos, hok.1, hok.2, Int.toNat_natCast, hrevents]
    refine ⟨pfd.poll ready, List.mem_filter.mpr ⟨?_, ?_⟩, ?_⟩
    · exact List.mem_map_of_mem (List.mem_of_getElem? hget)
    · rw [hpoll]
      exact decide_eq_true hne
    · exact (hsearch (pfd.poll ready) c hreg hok.1).trans (by rw [hpoll])

/-- In a run of calls within their asserts the representation holds throughout exactly
when the calls meet the condition. -/
theorem represents_iff (fd : Nat → Nat) (hfd : Function.Injective fd) (steps : List Step)
    (hproper : StepsMeet (step fd) (Proper fd) new steps) :
    EveryState (step fd) (Represents fd) new steps ↔ StepsMeet (step fd) (Keeps fd) new steps :=
  everyState_iff (step fd) (fun _ h => h.represents hfd)
    (fun w s w' h hp hs hstep => inv_step hfd w s w' h hp hs hstep)
    (fun w s h hp hs => not_represents hfd w s h hp hs) inv_new hproper

/-- Two channels, each enabled, changed and disabled. -/
def twoChannels : List Step :=
  [.updateChannel 0 PollMask.kReadEvent, .updateChannel 1 PollMask.kWriteEvent,
    .updateChannel 0 (PollMask.kReadEvent.or PollMask.kWriteEvent),
    .updateChannel 0 PollMask.kNoneEvent, .updateChannel 1 PollMask.kReadEvent,
    .updateChannel 0 PollMask.kNoneEvent]

theorem represents_iff_twoChannels : EveryState (step id) (Represents id) new twoChannels := by
  have hproper : StepsMeet (step id) (Proper id) new twoChannels := by decide
  have hkeeps : StepsMeet (step id) (Keeps id) new twoChannels := by decide
  exact (represents_iff id Function.injective_id twoChannels hproper).mpr hkeeps

/-- A channel is enabled, disabled and enabled again. -/
theorem represents_fails_enabledAgain :
    ¬ ∀ fd, Function.Injective fd → ∀ steps, StepsMeet (step fd) (Proper fd) new steps →
      ∀ w ∈ run (step fd) new steps, w.Represents fd := by
  intro h
  have hproper : StepsMeet (step id) (Proper id) new [.updateChannel 0 PollMask.kReadEvent,
      .updateChannel 0 PollMask.kNoneEvent, .updateChannel 0 PollMask.kReadEvent] := by decide
  have hrun : ∃ w ∈ run (step id) new [.updateChannel 0 PollMask.kReadEvent,
      .updateChannel 0 PollMask.kNoneEvent, .updateChannel 0 PollMask.kReadEvent],
      w.Registered id 0 ∧ (w.channel 0).events_ ≠ PollMask.kNoneEvent ∧
        w.pollfds_ = [⟨-1, PollMask.kReadEvent, PollMask.kNoneEvent⟩] := by decide
  obtain ⟨w, hw, hreg, hne, hpollfds⟩ := hrun
  have hrep := h id Function.injective_id _ hproper w hw
  obtain ⟨pfd, hmem, hpfd⟩ := ((hrep.watches 0).mpr ⟨0, rfl, hreg, hne⟩)
  rw [hpollfds] at hmem
  obtain rfl := List.mem_singleton.mp hmem
  exact absurd hpfd (by decide)

end World

end Cnet.Net.PollPollers
