import Cnet.Net.TimerClock
import Mathlib.Order.MinMax

/-!
# The timerfd is armed in time

Outside `handleRead`, the timerfd is set for every timer in the queue: not later than the
timer expires, or a tenth of a millisecond after it was set. Inside, it is so for the timers
of times that are not valid, which `reset` does not look at: they were added by a callback,
and have armed the timerfd themselves.
-/

namespace Cnet.Net.Timers

open Cnet.Support

theorem howMuchTimeFromNow_spec {when_ now : Int} {ts : Timespec}
    (h : howMuchTimeFromNow when_ now = some ts) :
    ts.Positive ∧ now + ts.microseconds = max when_ (now + 100) := by
  rw [howMuchTimeFromNow, Option.bind_eq_bind, bind_assert] at h
  obtain ⟨-, h⟩ := h
  have hleast : 100 ≤ (if when_ - now < 100 then 100 else when_ - now) := by split <;> omega
  have hvalue : now + (if when_ - now < 100 then 100 else when_ - now) = max when_ (now + 100) := by
    split <;> omega
  generalize (if when_ - now < 100 then 100 else when_ - now) = microseconds at h hleast hvalue
  rw [← Option.some.inj h, ← hvalue]
  rw [Timespec.Positive, Timespec.microseconds, kMicroSecondsPerSecond]
  dsimp only
  rw [Int.tdiv_eq_ediv_of_nonneg (by omega), Int.tmod_eq_emod_of_nonneg (by omega)]
  omega

namespace World

variable {w w' : World}

theorem insert_timers {p : Pointer} {earliest : Bool} (h : w.insert p = some (w', earliest)) :
    ∃ t, w.deref p = some t ∧
      w'.timers_ = (OrderedSet.insert Entry.key ⟨t.expiration_, p⟩ w.timers_).1 ∧
      earliest = earliestChanged t.expiration_ w.timers_ := by
  simp only [insert, Option.bind_eq_bind, Option.bind_eq_some_iff, Option.some.injEq,
    Prod.mk.injEq] at h
  obtain ⟨-, -, t, ht, -, -, -, -, -, -, rfl, rfl⟩ := h
  exact ⟨t, ht, rfl, rfl⟩

/-- Timers that repeat do so after a time that is not negative. -/
def Forward (w : World) : Prop :=
  ∀ p t, w.deref p = some t → t.repeat_ = true → 0 ≤ t.interval_.delta

theorem Forward.carries (h : w.Forward) (hc : Carries SameKind w w') : w'.Forward := by
  intro p t' ht' hrepeat
  obtain ⟨t, ht, hsame, hinterval⟩ := hc p t' ht'
  rw [← hinterval]
  exact h p t ht (hsame.trans hrepeat)

theorem Forward.newTimer (h : w.Forward) {addr : Nat} {when_ : Timestamp} {interval : Interval}
    (hinterval : interval.positive = true → 0 ≤ interval.delta) :
    (w.newTimer addr when_ interval).2.Forward := by
  intro p t ht hrepeat
  rcases deref_newTimer ht with ⟨-, rfl⟩ | ht
  · exact hinterval hrepeat
  · exact h p t ht hrepeat

theorem Forward.of_heap (h : w.Forward) (hheap : w'.heap = w.heap) : w'.Forward :=
  h.carries (Carries.kind (.of_heap hheap))

/-- What one turn of the loop of `reset` puts back is for a time to come. -/
theorem timers_resetTimer {now : Int} {it : Entry} (hnow : 0 < now) (hf : w.Forward)
    (h : w.resetTimer now it = some w') : ∀ e ∈ w'.timers_, e ∈ w.timers_ ∨ 0 < e.first := by
  rw [resetTimer, Option.bind_eq_bind, Option.bind_eq_some_iff] at h
  obtain ⟨t, ht, h⟩ := h
  dsimp only at h
  split at h
  · case isTrue hkept =>
    rw [Option.bind_eq_bind, Option.bind_eq_some_iff] at h
    obtain ⟨⟨w₁, earliest⟩, hinsert, h⟩ := h
    obtain rfl := Option.some.inj h
    obtain ⟨t', ht', htimers, -⟩ := insert_timers hinsert
    have hrepeat := (Bool.and_eq_true_iff.mp hkept).1
    obtain ⟨-, hsequence⟩ := restart_same now t
    have hident : (t.restart now).sequence_ = it.second.object :=
      hsequence.trans (Heap.deref_eq_some.mp ht).2
    obtain rfl := Option.some.inj ((Heap.deref_store_self hident).symm.trans ht')
    have hlater : 0 < (t.restart now).expiration_ := by
      have hdelta := hf it.second t ht hrepeat
      rw [Timer.restart, if_pos hrepeat]
      exact Int.add_pos_of_pos_of_nonneg hnow hdelta
    intro e he
    rw [htimers] at he
    rcases OrderedSet.mem_insert he with rfl | he
    · exact .inr hlater
    · exact .inl he
  · rw [delete_frame h]
    exact fun e he => .inl he

theorem timers_resetTimers {now : Int} (hnow : 0 < now) (expired : List Entry)
    (hf : w.Forward) (h : expired.foldlM (resetTimer now) w = some w') :
    w'.Forward ∧ ∀ e ∈ w'.timers_, e ∈ w.timers_ ∨ 0 < e.first := by
  induction expired generalizing w with
  | nil =>
    obtain rfl := Option.some.inj h
    exact ⟨hf, fun e he => .inl he⟩
  | cons it expired ih =>
    rw [List.foldlM_cons, Option.bind_eq_bind, Option.bind_eq_some_iff] at h
    obtain ⟨w₁, hturn, h⟩ := h
    obtain ⟨hf', hrest⟩ := ih (hf.carries (carries_resetTimer hturn).1) h
    refine ⟨hf', fun e he => ?_⟩
    rcases hrest e he with he | hlater
    · exact timers_resetTimer hnow hf hturn e he
    · exact .inr hlater

/-- In order of their times. -/
theorem head_le {e it : Entry} {timers : List Entry}
    (hs : OrderedSet.Sorted Entry.key (it :: timers)) (he : e ∈ it :: timers) :
    it.first ≤ e.first := by
  rcases List.mem_cons.mp he with rfl | he
  · exact le_refl _
  · exact (List.pairwise_cons.mp (ordered_of_sorted hs)).1 e he

/-- What `earliestChanged` says of the times in the queue. -/
theorem le_of_earliestChanged {when_ : Timestamp} {timers : List Entry}
    (hs : OrderedSet.Sorted Entry.key timers) (h : earliestChanged when_ timers = true) :
    ∀ e ∈ timers, when_ ≤ e.first := by
  cases timers with
  | nil => exact nofun
  | cons it timers =>
    intro e he
    have hlt : when_ < it.first := of_decide_eq_true h
    exact hlt.le.trans (head_le hs he)

theorem exists_of_not_earliestChanged {when_ : Timestamp} {timers : List Entry}
    (h : earliestChanged when_ timers = false) : ∃ it ∈ timers, it.first ≤ when_ := by
  cases timers with
  | nil => exact absurd h.symm Bool.false_ne_true
  | cons it timers => exact ⟨it, List.mem_cons_self, not_lt.mp (of_decide_eq_false h)⟩

end World

namespace Clocked

variable {c c' : Clocked}

/-- The timerfd is armed, or has expired, in time for this entry. -/
def Covers (c : Clocked) (e : Entry) : Prop :=
  ∃ a ∈ c.armed, a.deadline ≤ max e.first (a.since + 100)

theorem Covers.mono {e f : Entry} (h : c.Covers e) (hle : e.first ≤ f.first) : c.Covers f := by
  obtain ⟨a, ha, hdeadline⟩ := h
  exact ⟨a, ha, hdeadline.trans (max_le_max_right _ hle)⟩

/-- The timerfd is armed in time for the entries at such times. -/
def CoversAll (P : Timestamp → Prop) (c : Clocked) : Prop :=
  ∀ e ∈ c.queue.timers_, P e.first → c.Covers e

theorem resetTimerfd_spec {expiration clock : Timestamp}
    (h : c.resetTimerfd expiration clock = some c') :
    c' = { c with
      queue := c.queue.resetTimerfd expiration
      armed := some ⟨max expiration (clock + 100), clock⟩
      settimes := c'.settimes } ∧
    ((∀ ts ∈ c.settimes, ts.Positive) → ∀ ts ∈ c'.settimes, ts.Positive) := by
  rw [resetTimerfd, Option.bind_eq_bind, Option.bind_eq_some_iff] at h
  obtain ⟨newValue, hmuch, h⟩ := h
  obtain ⟨hpositive, hdeadline⟩ := howMuchTimeFromNow_spec hmuch
  obtain rfl := Option.some.inj h
  rw [hdeadline]
  refine ⟨rfl, fun hall ts hts => ?_⟩
  rcases List.mem_append.mp hts with hts | hts
  · exact hall ts hts
  · exact List.mem_singleton.mp hts ▸ hpositive

/-- After arming for a time, the timerfd is armed in time for all that is not earlier. -/
theorem covers_resetTimerfd {expiration clock : Timestamp}
    (h : c.resetTimerfd expiration clock = some c') {e : Entry} (hle : expiration ≤ e.first) :
    c'.Covers e := by
  rw [(resetTimerfd_spec h).1]
  exact ⟨_, rfl, max_le_max_right _ hle⟩

/-- `addTimerInLoop` arms the timerfd for the new timer, or leaves it armed for an earlier
one. -/
theorem addTimerInLoop_covers {P : Timestamp → Prop} (hdown : ∀ s t, s ≤ t → P t → P s)
    {timer : Pointer} {clock : Timestamp} (h : c.addTimerInLoop timer clock = some c')
    (hs : OrderedSet.Sorted Entry.key c.queue.timers_) (hc : c.CoversAll P) :
    c'.CoversAll P ∧ ((∀ ts ∈ c.settimes, ts.Positive) → ∀ ts ∈ c'.settimes, ts.Positive) := by
  rw [addTimerInLoop, Option.bind_eq_bind, Option.bind_eq_some_iff] at h
  obtain ⟨⟨w, earliest⟩, hinsert, h⟩ := h
  obtain ⟨t, ht, htimers, hearliest⟩ := World.insert_timers hinsert
  cases earliest with
  | true =>
    simp only [if_true, Option.bind_eq_bind, Option.bind_eq_some_iff] at h
    obtain ⟨t', ht', h⟩ := h
    have hsame : t' = t := by
      rw [World.insert_frame hinsert] at ht'
      exact Option.some.inj (ht'.symm.trans ht)
    subst hsame
    refine ⟨fun e he _ => ?_, (resetTimerfd_spec h).2⟩
    rw [(resetTimerfd_spec h).1] at he
    have he' : e ∈ w.timers_ := he
    rw [htimers] at he'
    refine covers_resetTimerfd h ?_
    rcases OrderedSet.mem_insert he' with rfl | hold
    · exact le_refl _
    · exact World.le_of_earliestChanged hs hearliest.symm e hold
  | false =>
    simp only [Bool.false_eq_true, if_false, Option.some.injEq] at h
    obtain rfl := h
    refine ⟨fun e he hP => ?_, id⟩
    have he' : e ∈ w.timers_ := he
    rw [htimers] at he'
    rcases OrderedSet.mem_insert he' with rfl | hold
    · obtain ⟨it, hit, hle⟩ := World.exists_of_not_earliestChanged hearliest.symm
      exact (hc it hit (hdown _ _ hle hP)).mono hle
    · exact hc e hold hP

/-- `reset` arms the timerfd for the earliest timer, unless a callback has added one before
all times that are valid. -/
theorem reset_covers {expired : List Entry} {now clock : Timestamp}
    (h : c.reset expired now clock = some c') (hnow : 0 < now)
    (hcore : c.queue.Core (expired.map Entry.second)) (hf : c.queue.Forward)
    (hc : c.CoversAll fun t => t ≤ 0) :
    c'.CoversAll (fun _ => True) ∧
      ((∀ ts ∈ c.settimes, ts.Positive) → ∀ ts ∈ c'.settimes, ts.Positive) := by
  simp only [reset, Option.bind_eq_bind, Option.bind_eq_some_iff] at h
  obtain ⟨w, hloop, nextExpire, hnext, h⟩ := h
  obtain ⟨w₁, hw₁, hcore', -, -⟩ := hcore.resetTimers expired now
  obtain rfl := Option.some.inj (hw₁.symm.trans hloop)
  obtain ⟨-, hput⟩ := World.timers_resetTimers hnow expired hf hloop
  have hdescribed := hcore'.described
  cases htimers : w₁.timers_ with
  | nil =>
    rw [World.nextExpire, htimers] at hnext
    obtain rfl := Option.some.inj hnext
    rw [if_neg (by decide)] at h
    obtain rfl := Option.some.inj h
    refine ⟨fun e he _ => ?_, id⟩
    have he' : e ∈ w₁.timers_ := he
    rw [htimers] at he'
    exact absurd he' List.not_mem_nil
  | cons it timers =>
    have hit : it ∈ w₁.timers_ := htimers ▸ List.mem_cons_self
    have hfirst : nextExpire = it.first := by
      obtain ⟨t, ht, htime⟩ := hdescribed.times it hit
      rw [World.nextExpire, htimers] at hnext
      obtain ⟨t', ht', rfl⟩ := Option.map_eq_some_iff.mp hnext
      exact Option.some.inj (ht.symm.trans ht') ▸ htime
    have hle : ∀ e ∈ w₁.timers_, it.first ≤ e.first := by
      intro e he
      have hsorted := hdescribed.sortedTimers
      rw [htimers] at he hsorted
      exact World.head_le hsorted he
    subst hfirst
    split at h
    · refine ⟨fun e he _ => ?_, (resetTimerfd_spec h).2⟩
      rw [(resetTimerfd_spec h).1] at he
      exact covers_resetTimerfd h (hle e he)
    · case isFalse hinvalid =>
      obtain rfl := Option.some.inj h
      have hpast : it.first ≤ 0 := not_lt.mp fun hlt => hinvalid (decide_eq_true hlt)
      have hold : it ∈ c.queue.timers_ := (hput it hit).resolve_right (not_lt.mpr hpast)
      exact ⟨fun e he _ => Covers.mono (hc it hold hpast) (hle e he), id⟩

/-! ## Runs -/

structure Inv (c : Clocked) : Prop where
  queue : c.queue.Inv
  settimes : ∀ ts ∈ c.settimes, ts.Positive
  covers : c.CoversAll fun t => c.queue.batch = none ∨ t ≤ 0
  now : ∀ b ∈ c.queue.batch, 0 < b.now
  forward : c.queue.Forward

theorem inv_new : new.Inv where
  queue := World.inv_new
  settimes := nofun
  covers := nofun
  now := nofun
  forward := nofun

/-- A step that takes no part in the batch, and leaves the timerfd armed in time. -/
theorem Inv.aside (h : c.Inv) (hq : c'.queue.Inv) (ha : World.Aside c.queue c'.queue)
    (hsettimes : ∀ ts ∈ c'.settimes, ts.Positive)
    (hcovers : c'.CoversAll fun t => c.queue.batch = none ∨ t ≤ 0) (hf : c'.queue.Forward) :
    c'.Inv where
  queue := hq
  settimes := hsettimes
  covers := by
    intro e he hP
    refine hcovers e he (hP.imp_left fun hnone => ?_)
    have hbatch := ha.batch
    rw [hnone] at hbatch
    exact Option.map_eq_none_iff.mp hbatch.symm
  now := by
    intro b' hb'
    have hbatch := ha.batch
    rw [hb', Option.map_some] at hbatch
    obtain ⟨b, hb, heq⟩ := Option.map_eq_some_iff.mp hbatch.symm
    have hnow : b.now = b'.now := congrArg Prod.fst heq
    exact hnow ▸ h.now b hb
  forward := hf

/-- Taking timers out of the queue, or none, needs no arming. -/
theorem CoversAll.of_subset {P : Timestamp → Prop} (h : c.CoversAll P) {w : World}
    (hsub : w.timers_ ⊆ c.queue.timers_) : CoversAll P { c with queue := w } :=
  fun e he hP => h e (hsub he) hP

/-- A step that does not arm the timerfd, outside `handleRead`'s own. -/
theorem Inv.lift {s : Step} (h : c.Inv) (hq : c'.queue.Inv) (hs : c.lift s = some c')
    (haside : World.isAside s = true) (hsub : c'.queue.timers_ ⊆ c.queue.timers_)
    (hf : c'.queue.Forward) : c'.Inv := by
  have ha := World.Aside.of_step (queue_lift hs) haside
  obtain ⟨w, hw, rfl⟩ := Option.map_eq_some_iff.mp hs
  exact h.aside hq ha h.settimes (h.covers.of_subset hsub) hf

theorem Inv.lift_same {s : Step} (h : c.Inv) (hq : c'.queue.Inv) (hs : c.lift s = some c')
    (haside : World.isAside s = true) (htimers : c'.queue.timers_ = c.queue.timers_)
    (hheap : c'.queue.heap = c.queue.heap) : c'.Inv :=
  h.lift hq hs haside (htimers ▸ List.Subset.refl _) (h.forward.of_heap hheap)

theorem cancelled_spec {w w' : World} {id : TimerId} (h : w.cancelled id = some w')
    (hf : w.Forward) : w'.timers_ ⊆ w.timers_ ∧ w'.Forward := by
  obtain ⟨w₁, hcancel, rfl⟩ := Option.map_eq_some_iff.mp h
  obtain ⟨hcarries, hsub, -⟩ := World.cancelInLoop_frame hcancel
  exact ⟨hsub, (hf.carries hcarries.kind).of_heap rfl⟩

/-- Not later than a batch of callbacks allows. -/
theorem past_down (b : Prop) : ∀ s t : Timestamp, s ≤ t → b ∨ t ≤ 0 → b ∨ s ≤ 0 :=
  fun _ _ hle h => h.imp_right fun hpast => hle.trans hpast

/-- The queue's part in a step that arms the timerfd through `addTimerInLoop`. -/
theorem forward_addTimerInLoop {timer : Pointer} {clock : Timestamp}
    (h : c.addTimerInLoop timer clock = some c') (hf : c.queue.Forward) : c'.queue.Forward := by
  have hframe := World.addTimerInLoop_frame (queue_addTimerInLoop h)
  exact hf.of_heap (by rw [hframe])

/-- When `handleRead` begins, what it leaves in the queue is for a time to come. -/
theorem Inv.handleRead {now : Timestamp} {clock : Timestamp} (h : c.Inv) (hq : c'.queue.Inv)
    (hnow : 0 < now) (hb : c.queue.batch = none)
    (hs : (c.readTimerfd clock).lift (.handleRead now) = some c') : c'.Inv := by
  have hread := queue_lift hs
  rw [queue_readTimerfd] at hread
  obtain ⟨expired, w₁, hselects, hw'⟩ := h.queue.handleRead_selects hb hread
  obtain ⟨w, hw, rfl⟩ := Option.map_eq_some_iff.mp hs
  have hw' : w = _ := hw'
  refine ⟨hq, ?_, ?_, ?_, ?_⟩
  · show ∀ ts ∈ (c.readTimerfd clock).settimes, _
    rw [readTimerfd]
    split <;> exact h.settimes
  · intro e he hP
    have hmem : e ∈ w.timers_ := he
    have hbatch : w.batch = none ∨ e.first ≤ 0 := hP
    rw [hw'] at hmem hbatch
    have hlater := ((hselects.timers e).mp hmem).2
    have hpast := hbatch.resolve_left (Option.some_ne_none _)
    exact absurd (hpast.trans hnow.le) hlater
  · intro b hb'
    have hbatch : w.batch = some b := hb'
    rw [hw'] at hbatch
    obtain rfl := Option.some.inj hbatch
    exact hnow
  · show w.Forward
    rw [hw', hselects.only]
    exact h.forward.of_heap rfl

/-- When `handleRead` ends, the timerfd is armed in time. -/
theorem Inv.handleReadEnd {b : Batch} {clock : Timestamp} (h : c.Inv) (hq : c'.queue.Inv)
    (hb : c.queue.batch = some b)
    (hs : reset b.expired b.now clock { c with
      queue := { c.queue with callingExpiredTimers_ := false, batch := none } } = some c') :
    c'.Inv := by
  have hrunning : c.queue.running = b.expired.map Entry.second := by
    rw [World.running, hb]
    rfl
  have hcore : World.Core { c.queue with callingExpiredTimers_ := false, batch := none }
      (b.expired.map Entry.second) :=
    hrunning ▸ h.queue.core.move rfl rfl rfl rfl rfl rfl (.refl _)
  obtain ⟨hcarries, hbatch⟩ := World.carries_reset (queue_reset hs)
  have hpast : CoversAll (fun t => t ≤ 0) { c with
      queue := { c.queue with callingExpiredTimers_ := false, batch := none } } :=
    fun e he hP => h.covers e he (.inr hP)
  have hforward : World.Forward { c.queue with callingExpiredTimers_ := false, batch := none } :=
    h.forward.of_heap rfl
  obtain ⟨hcovers, hsettimes⟩ := reset_covers hs (h.now b hb) hcore hforward hpast
  refine ⟨hq, hsettimes h.settimes, fun e he _ => hcovers e he True.intro, ?_,
    hforward.carries hcarries⟩
  rw [hbatch]
  exact fun b' hb' => absurd hb' (Option.not_mem_none b')

theorem inv_step (c : Clocked) (s : ClockedStep) (c' : Clocked) (h : c.Inv)
    (hs : step c s = some c') : c'.Inv := by
  have hqueue := queue_step hs
  have hq := World.inv_step _ _ _ h.queue hqueue
  obtain ⟨⟨henabled, hpossible⟩, hexec⟩ := Option.ite_none_right_eq_some.mp hs
  have hqexec := (World.step_some hqueue).2
  obtain ⟨s, clock⟩ := s
  cases s with
  | addTiemr t addr when_ interval =>
    have ha := World.Aside.of_step hqexec rfl
    have hnew : (c.queue.newTimer addr when_ interval).2.Forward := h.forward.newTimer hpossible
    cases t with
    | loop =>
      simp only [exec, Option.bind_eq_bind, Option.bind_eq_some_iff, Option.some.injEq] at hexec
      obtain ⟨c₁, hadd, rfl⟩ := hexec
      obtain ⟨hcovers, hsettimes⟩ := addTimerInLoop_covers (past_down (c.queue.batch = none)) hadd
        h.queue.core.described.sortedTimers (h.covers.of_subset (List.Subset.refl _))
      exact h.aside hq ha (hsettimes h.settimes) hcovers
        ((forward_addTimerInLoop hadd hnew).of_heap rfl)
    | other =>
      refine h.lift hq hexec rfl ?_ ?_
      · rw [← Option.some.inj hqexec]
        exact List.Subset.refl _
      · rw [← Option.some.inj hqexec]
        exact hnew.of_heap rfl
  | queueAdd timer =>
    have hlater := Option.some.inj hqexec
    exact h.lift_same hq hexec rfl (by rw [← hlater]; rfl) (by rw [← hlater]; rfl)
  | cancel t id =>
    cases t with
    | loop =>
      obtain ⟨hsub, hforward⟩ := cancelled_spec hqexec h.forward
      exact h.lift hq hexec rfl hsub hforward
    | other =>
      have hlater := Option.some.inj hqexec
      exact h.lift_same hq hexec rfl (by rw [← hlater]; rfl) (by rw [← hlater]; rfl)
  | functor =>
    have ha := World.Aside.of_step hqexec rfl
    obtain ⟨f, fs, hf⟩ := List.exists_cons_of_ne_nil henabled.2
    cases f with
    | addTimerInLoop timer =>
      simp only [exec, hf] at hexec
      obtain ⟨hcovers, hsettimes⟩ := addTimerInLoop_covers (past_down (c.queue.batch = none)) hexec
        h.queue.core.described.sortedTimers (h.covers.of_subset (List.Subset.refl _))
      exact h.aside hq ha (hsettimes h.settimes) hcovers
        (forward_addTimerInLoop hexec (h.forward.of_heap rfl))
    | cancelInLoop id =>
      simp only [exec, hf] at hexec
      simp only [World.exec, hf] at hqexec
      obtain ⟨hsub, hforward⟩ := cancelled_spec hqexec (h.forward.of_heap rfl)
      exact h.lift hq hexec rfl hsub hforward
  | handleRead now => exact h.handleRead hq hpossible.1 henabled hexec
  | runTimer =>
    obtain ⟨b, hb, hne⟩ := henabled
    obtain ⟨it, rest, hrest⟩ := List.exists_cons_of_ne_nil hne
    obtain ⟨w, hw, rfl⟩ := Option.map_eq_some_iff.mp hexec
    obtain ⟨rfl, -⟩ := World.runTimer_eq hb hrest hqexec
    refine ⟨hq, h.settimes, ?_, ?_, h.forward⟩
    · exact fun e he hP => h.covers e he (.inr (hP.resolve_left (Option.some_ne_none _)))
    · rintro b' ⟨rfl⟩
      exact h.now b hb
  | handleReadEnd =>
    obtain ⟨b, hb, -⟩ := henabled
    simp only [exec] at hexec
    rw [hb] at hexec
    exact h.handleReadEnd hq hb hexec

theorem inv_run {steps : List ClockedStep} (hc : run step new steps = some c) : c.Inv :=
  reaches_invariant step inv_step inv_new ⟨steps, hc⟩

/-- What is proved of a state in a run. -/
structure ArmedInTime (c : Clocked) : Prop where
  armed : c.queue.batch = none → c.queue.timers_ ≠ [] →
    ∃ a ∈ c.armed, ∀ e ∈ c.queue.timers_, a.deadline ≤ max e.first (a.since + 100)
  settimes : ∀ ts ∈ c.settimes, ts.Positive

theorem timerfd_armed_inTime (steps : List ClockedStep) (c : Clocked)
    (hc : run step new steps = some c) : c.ArmedInTime := by
  have h := inv_run hc
  refine ⟨fun hidle hne => ?_, h.settimes⟩
  obtain ⟨it, timers, htimers⟩ := List.exists_cons_of_ne_nil hne
  obtain ⟨a, ha, -⟩ := h.covers it (htimers ▸ List.mem_cons_self) (.inl hidle)
  refine ⟨a, ha, fun e he => ?_⟩
  obtain ⟨a', ha', hdeadline⟩ := h.covers e he (.inl hidle)
  obtain rfl := Option.some.inj (ha.symm.trans ha')
  exact hdeadline

/-- A callback adds timers at a time that is not valid and in the past, and cancels the
first. -/
def addsInThePast : List ClockedStep :=
  [⟨.addTiemr .loop 64 2000 ⟨true, 500⟩, 1000⟩, ⟨.handleRead 2000, 2001⟩, ⟨.runTimer, 2002⟩,
    ⟨.addTiemr .loop 96 (-5) ⟨false, 0⟩, 2003⟩, ⟨.addTiemr .loop 128 7 ⟨false, 0⟩, 2004⟩,
    ⟨.cancel .loop (timerId ⟨96, 2⟩), 2005⟩, ⟨.handleReadEnd, 2006⟩]

theorem timerfd_armed_inTime_past :
    ∃ c ∈ run step new addsInThePast, c.ArmedInTime ∧ c.queue.timers_.length = 2 ∧
      c.armed = some ⟨2106, 2006⟩ := by
  have hrun : ∃ c ∈ run step new addsInThePast, c.queue.timers_.length = 2 ∧
      c.armed = some ⟨2106, 2006⟩ := by decide
  obtain ⟨c, hc, hlen, harmed⟩ := hrun
  exact ⟨c, hc, timerfd_armed_inTime addsInThePast c hc, hlen, harmed⟩

end Clocked

end Cnet.Net.Timers
