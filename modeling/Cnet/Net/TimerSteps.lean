import Cnet.Net.TimerQueue

/-!
# What the operations of the timer queue do

`Core` says that the two sets describe the same timers and who holds each timer ever
made. Every operation is described once, on a state with that property: its asserts
hold, it uses no freed timer, and it moves timers between their holders.
-/

namespace Cnet.Net.Timers

open Cnet.Support

/-- The element of `activeTimers_` for an element of `timers_`. -/
def Entry.active (e : Entry) : ActiveTimer := ⟨e.second, e.second.object⟩

theorem Entry.key_inj {e f : Entry} :
    e.key = f.key ↔ e.first = f.first ∧ e.second.addr = f.second.addr := by
  rw [Entry.key, Entry.key, toLex_inj, Prod.mk.injEq]

theorem ActiveTimer.key_inj {a b : ActiveTimer} :
    a.key = b.key ↔ a.first.addr = b.first.addr ∧ a.second = b.second := by
  rw [ActiveTimer.key, ActiveTimer.key, toLex_inj, Prod.mk.injEq]

/-- The two sets describe the same timers, under the times these expire at. -/
structure Described (h : Heap Timer) (timers : List Entry) (active : List ActiveTimer) : Prop where
  sortedTimers : OrderedSet.Sorted Entry.key timers
  sortedActive : OrderedSet.Sorted ActiveTimer.key active
  same : active.Perm (timers.map Entry.active)
  times : ∀ e ∈ timers, ∃ t, h.deref Timer.sequence_ e.second = some t ∧ t.expiration_ = e.first

namespace Described

variable {h : Heap Timer} {timers : List Entry} {active : List ActiveTimer} {p : Pointer}
  {t : Timer}

theorem length_eq (hd : Described h timers active) : timers.length = active.length := by
  rw [hd.same.length_eq, List.length_map]

theorem mem_active (hd : Described h timers active) {a : ActiveTimer} (ha : a ∈ active) :
    ∃ e ∈ timers, a = e.active := by
  obtain ⟨e, he, hea⟩ := List.mem_map.mp (hd.same.mem_iff.mp ha)
  exact ⟨e, he, hea.symm⟩

/-- A change to the heap that the described timers do not see. -/
theorem congr_heap {h' : Heap Timer} (hd : Described h timers active)
    (hh : ∀ e ∈ timers, h'.deref Timer.sequence_ e.second = h.deref Timer.sequence_ e.second) :
    Described h' timers active where
  sortedTimers := hd.sortedTimers
  sortedActive := hd.sortedActive
  same := hd.same
  times := fun e he => by rw [hh e he]; exact hd.times e he

/-- Inserting a timer with an address of its own. -/
theorem insert (hd : Described h timers active) (hp : h.deref Timer.sequence_ p = some t)
    (hnew : ∀ e ∈ timers, e.second.addr ≠ p.addr) :
    (OrderedSet.insert Entry.key ⟨t.expiration_, p⟩ timers).2 = true ∧
      (OrderedSet.insert ActiveTimer.key ⟨p, t.sequence_⟩ active).2 = true ∧
      (OrderedSet.insert Entry.key ⟨t.expiration_, p⟩ timers).1.Perm
        (⟨t.expiration_, p⟩ :: timers) ∧
      Described h (OrderedSet.insert Entry.key ⟨t.expiration_, p⟩ timers).1
        (OrderedSet.insert ActiveTimer.key ⟨p, t.sequence_⟩ active).1 := by
  obtain ⟨hnewT, hpermT, hsortT⟩ := OrderedSet.insert_new (x := ⟨t.expiration_, p⟩)
    hd.sortedTimers fun e he hk => hnew e he (Entry.key_inj.mp hk).2
  obtain ⟨hnewA, hpermA, hsortA⟩ := OrderedSet.insert_new (x := ⟨p, t.sequence_⟩)
    hd.sortedActive fun a ha hk => by
      obtain ⟨e, he, rfl⟩ := hd.mem_active ha
      exact hnew e he (ActiveTimer.key_inj.mp hk).1
  have hseq : t.sequence_ = p.object := (Heap.deref_eq_some.mp hp).2
  refine ⟨hnewT, hnewA, hpermT, hsortT, hsortA, ?_, fun e he => ?_⟩
  · refine hpermA.trans (((hd.same.cons _)).trans ?_)
    rw [hseq]
    exact (hpermT.map Entry.active).symm
  · rcases List.mem_cons.mp (hpermT.mem_iff.mp he) with rfl | he
    · exact ⟨t, hp, rfl⟩
    · exact hd.times e he

/-- Erasing the timer that a lookup in `activeTimers_` has found. -/
theorem erase (hd : Described h timers active) {a : ActiveTimer} (ha : a ∈ active) :
    ∃ e ∈ timers, a = e.active ∧
      (OrderedSet.erase Entry.key e.key timers).2 = 1 ∧
      timers.Perm (e :: (OrderedSet.erase Entry.key e.key timers).1) ∧
      Described h (OrderedSet.erase Entry.key e.key timers).1
        (OrderedSet.erase ActiveTimer.key a.key active).1 := by
  obtain ⟨e, he, rfl⟩ := hd.mem_active ha
  obtain ⟨hone, hpermT, hsortT⟩ := OrderedSet.erase_mem hd.sortedTimers he
  obtain ⟨-, hpermA, hsortA⟩ := OrderedSet.erase_mem hd.sortedActive ha
  refine ⟨e, he, rfl, hone, hpermT, hsortT, hsortA, ?_, fun f hf => ?_⟩
  · have h := hpermA.symm.trans (hd.same.trans (hpermT.map Entry.active))
    exact List.Perm.cons_inv h
  · exact hd.times f (hpermT.mem_iff.mpr (List.mem_cons_of_mem _ hf))

end Described

namespace World

/-- Timers made, and not added to the queue yet. -/
def pending (w : World) : List Pointer := w.creating ++ w.pendingFunctors_.filterMap Functor.adds

/-- Timers in `timers_`. -/
def queued (w : World) : List Pointer := w.timers_.map Entry.second

/-- Timers of the batch being processed. -/
def running (w : World) : List Pointer := w.batch.elim [] fun b => b.expired.map Entry.second

/-- The queue is in order, and every timer is pending, in `running`, queued or freed. -/
structure Core (w : World) (running : List Pointer) : Prop where
  described : Described w.heap w.timers_ w.activeTimers_
  owns : w.heap.Owns Timer.sequence_ (w.pending ++ running ++ w.queued)
  ledger : w.created.Perm (w.pending ++ running ++ w.queued ++ w.freed)
  nodup : w.created.Nodup
  fresh : ∀ p ∈ w.created, p.object ≤ w.numCreated
  bounded : ∀ p ∈ w.created, p.addr < uintptrMax

/-- Taking the head out of the middle part. -/
theorem perm_head (l m r : List Pointer) (p : Pointer) :
    (l ++ (p :: m) ++ r).Perm (p :: (l ++ m ++ r)) := by
  rw [List.append_assoc, List.append_assoc]
  exact List.perm_middle

theorem delete_some {w : World} {p : Pointer} {t : Timer} (ht : w.deref p = some t) :
    w.delete p = some { w with heap := w.heap.free p, freed := p :: w.freed } := by
  rw [delete, ht]
  rfl

namespace Core

variable {w : World} {p q : Pointer} {running : List Pointer}

theorem mem_created (hc : Core w running) (hq : q ∈ w.pending ++ running ++ w.queued) :
    q ∈ w.created :=
  hc.ledger.mem_iff.mpr (List.mem_append_left _ hq)

/-- Timers change hands outside the queue. -/
theorem move {w' : World} {running' : List Pointer} (hc : Core w running)
    (hheap : w'.heap = w.heap) (htimers : w'.timers_ = w.timers_)
    (hactive : w'.activeTimers_ = w.activeTimers_) (hcreated : w'.created = w.created)
    (hfreed : w'.freed = w.freed) (hnum : w'.numCreated = w.numCreated)
    (hperm : (w'.pending ++ running').Perm (w.pending ++ running)) : Core w' running' := by
  have hq : w'.queued = w.queued := by rw [queued, queued, htimers]
  have hheld : (w'.pending ++ running' ++ w'.queued).Perm (w.pending ++ running ++ w.queued) := by
    rw [hq]
    exact hperm.append_right _
  refine ⟨?_, ?_, ?_, ?_, ?_, ?_⟩
  · rw [hheap, htimers, hactive]
    exact hc.described
  · rw [hheap]
    exact hc.owns.perm hheld.symm
  · rw [hcreated, hfreed]
    exact hc.ledger.trans (hheld.symm.append_right _)
  · rw [hcreated]
    exact hc.nodup
  · rw [hcreated, hnum]
    exact hc.fresh
  · rw [hcreated]
    exact hc.bounded

/-- `new Timer`: the caller has it. -/
theorem newTimer (hc : Core w running) {addr : Nat} (when_ : Timestamp) (interval : Interval)
    (hnone : w.heap addr = none) (hmax : addr < uintptrMax) :
    Core (w.newTimer addr when_ interval).2 ((w.newTimer addr when_ interval).1 :: running) := by
  have hold : (⟨addr, w.numCreated + 1⟩ : Pointer) ∉ w.created := by
    intro hm
    have := hc.fresh _ hm
    simp only at this
    omega
  have hnew : (w.pending ++ (⟨addr, w.numCreated + 1⟩ :: running) ++ w.queued).Perm
      (⟨addr, w.numCreated + 1⟩ :: (w.pending ++ running ++ w.queued)) := perm_head ..
  refine ⟨?_, ?_, ?_, ?_, ?_, ?_⟩
  · refine hc.described.congr_heap fun e he => Heap.deref_store_ne fun ha => ?_
    obtain ⟨t, ht, -⟩ := hc.described.times e he
    have := (Heap.deref_eq_some.mp ht).1
    rw [ha, hnone] at this
    exact nomatch this
  · exact (hc.owns.alloc (p := ⟨addr, w.numCreated + 1⟩) hnone rfl).perm hnew.symm
  · exact (hc.ledger.cons _).trans (hnew.symm.append_right w.freed)
  · exact List.nodup_cons.mpr ⟨hold, hc.nodup⟩
  · intro q hq
    rcases List.mem_cons.mp hq with rfl | hq
    · exact Nat.le_refl _
    · exact Nat.le_succ_of_le (hc.fresh q hq)
  · intro q hq
    rcases List.mem_cons.mp hq with rfl | hq
    · exact hmax
    · exact hc.bounded q hq

theorem live (hc : Core w running) (hq : q ∈ w.pending ++ running ++ w.queued) :
    ∃ t, w.deref q = some t :=
  hc.owns.live q hq

/-- The timer in hand has an address that none in the queue has. -/
theorem addr_ne (hc : Core w (p :: running)) {e : Entry} (he : e ∈ w.timers_) :
    e.second.addr ≠ p.addr := by
  have ho := hc.owns.perm (perm_head ..)
  have hq : e.second ∈ w.pending ++ running ++ w.queued :=
    List.mem_append_right _ (List.mem_map_of_mem he)
  have hne : e.second ≠ p := fun h => (List.nodup_cons.mp ho.nodup).1 (h ▸ hq)
  exact ho.addr_ne List.mem_cons_self (List.mem_cons_of_mem _ hq) hne

/-- `insert` puts the timer in hand into the queue. -/
theorem insert (hc : Core w (p :: running)) :
    ∃ timers active earliest,
      w.insert p = some ({ w with timers_ := timers, activeTimers_ := active }, earliest) ∧
      (timers.map Entry.second).Perm (p :: w.queued) ∧
      Core { w with timers_ := timers, activeTimers_ := active } running := by
  obtain ⟨t, ht⟩ := hc.live (q := p) (by simp)
  obtain ⟨hnewT, hnewA, hperm, hd⟩ := hc.described.insert ht fun e he => hc.addr_ne he
  have hheld : (w.pending ++ running ++
      (OrderedSet.insert Entry.key ⟨t.expiration_, p⟩ w.timers_).1.map Entry.second).Perm
      (w.pending ++ (p :: running) ++ w.queued) := by
    refine ((hperm.map Entry.second).append_left _).trans ?_
    refine (List.perm_middle).trans ?_
    exact (perm_head ..).symm
  refine ⟨(OrderedSet.insert Entry.key ⟨t.expiration_, p⟩ w.timers_).1,
    (OrderedSet.insert ActiveTimer.key ⟨p, t.sequence_⟩ w.activeTimers_).1,
    earliestChanged t.expiration_ w.timers_, ?_, hperm.map Entry.second, ?_⟩
  · rw [World.insert, assert_pos hc.described.length_eq]
    simp only [Option.bind_eq_bind, Option.bind_some, ht, assert_pos hnewT, assert_pos hnewA,
      assert_pos hd.length_eq]
  · exact ⟨hd, hc.owns.perm hheld.symm, hc.ledger.trans (hheld.symm.append_right _), hc.nodup,
      hc.fresh, hc.bounded⟩

/-- `delete` frees the timer in hand. -/
theorem delete (hc : Core w (p :: running)) :
    w.delete p = some { w with heap := w.heap.free p, freed := p :: w.freed } ∧
      Core { w with heap := w.heap.free p, freed := p :: w.freed } running := by
  obtain ⟨t, ht⟩ := hc.live (q := p) (by simp)
  refine ⟨delete_some ht, ?_, ?_, ?_, hc.nodup, hc.fresh, hc.bounded⟩
  · exact hc.described.congr_heap fun e he => Heap.deref_free_ne (hc.addr_ne he)
  · exact (hc.owns.perm (perm_head ..)).free
  · refine hc.ledger.trans ?_
    refine ((perm_head ..).append_right _).trans ?_
    exact (List.perm_middle).symm

theorem addTimerInLoop (hc : Core w (p :: running)) :
    ∃ timers active armed,
      w.addTimerInLoop p =
        some { w with timers_ := timers, activeTimers_ := active, timerfd_ := armed } ∧
      (timers.map Entry.second).Perm (p :: w.queued) ∧
      Core { w with timers_ := timers, activeTimers_ := active, timerfd_ := armed } running := by
  obtain ⟨timers, active, earliest, hw, hperm, hcore⟩ := hc.insert
  obtain ⟨t, ht⟩ := hc.live (q := p) (by simp)
  refine ⟨timers, active, if earliest then some t.expiration_ else w.timerfd_, ?_, hperm,
    hcore.move rfl rfl rfl rfl rfl rfl (.refl _)⟩
  rw [World.addTimerInLoop, hw]
  simp only [Option.bind_eq_bind, Option.bind_some]
  cases earliest with
  | true =>
    have ht : deref p { w with timers_ := timers, activeTimers_ := active } = some t := ht
    rw [if_pos rfl, if_pos rfl, ht]
    rfl
  | false => rfl

/-- The timer of an element of `timers_` comes out of the queue into the caller's hands. -/
theorem takeOut (hc : Core w running) {e : Entry} {timers : List Entry}
    {active : List ActiveTimer} (hperm : w.timers_.Perm (e :: timers))
    (hd : Described w.heap timers active) :
    Core { w with timers_ := timers, activeTimers_ := active } (e.second :: running) := by
  have hheld : (w.pending ++ (e.second :: running) ++ timers.map Entry.second).Perm
      (w.pending ++ running ++ w.queued) := by
    refine (perm_head ..).trans ?_
    refine (List.perm_middle).symm.trans ?_
    exact ((hperm.map Entry.second).append_left _).symm
  exact ⟨hd, hc.owns.perm hheld.symm, hc.ledger.trans (hheld.symm.append_right _), hc.nodup,
    hc.fresh, hc.bounded⟩

/-- `cancelInLoop` frees the queued timer that the id names, or notes the id. -/
theorem cancelInLoop (hc : Core w running) (id : TimerId) :
    ∃ w', w.cancelInLoop id = some w' ∧ Core w' running ∧
      ((∃ p timers active, id.names p ∧ w.queued.Perm (p :: timers.map Entry.second) ∧
          w' = { w with
            timers_ := timers
            activeTimers_ := active
            heap := w.heap.free p
            freed := p :: w.freed }) ∨
        ((∀ p ∈ w.queued, ¬ id.names p) ∧
          w' = { w with
            cancelingTimers_ :=
              if w.callingExpiredTimers_ then
                (OrderedSet.insert ActiveTimer.key ⟨id.timer_, id.sequence_⟩ w.cancelingTimers_).1
              else w.cancelingTimers_ })) := by
  rw [World.cancelInLoop, assert_pos hc.described.length_eq]
  simp only [Option.bind_eq_bind, Option.bind_some]
  cases hf : OrderedSet.find ActiveTimer.key
      (ActiveTimer.key ⟨id.timer_, id.sequence_⟩) w.activeTimers_ with
  | some it =>
    obtain ⟨hit, hkey⟩ := OrderedSet.find_some hf
    obtain ⟨e, he, rfl, hone, hperm, hd⟩ := hc.described.erase hit
    obtain ⟨t, ht, hexp⟩ := hc.described.times e he
    have hmid := hc.takeOut hperm hd
    obtain ⟨hdel, hcore⟩ := hmid.delete
    have hnames := ActiveTimer.key_inj.mp hkey
    refine ⟨_, ?_, hcore, .inl ⟨e.second, _, _, ⟨hnames.1.symm, hnames.2.symm⟩,
      hperm.map Entry.second, rfl⟩⟩
    have ht : deref e.active.first w = some t := ht
    have hk : Entry.key ⟨t.expiration_, e.active.first⟩ = e.key := by rw [hexp]; rfl
    simp only [ht, Option.bind_some, hk, assert_pos hone]
    have ht : deref e.active.first { w with
        timers_ := (OrderedSet.erase Entry.key e.key w.timers_).1 } = some t := ht
    simp only [delete_some ht, Option.bind_some, assert_pos hd.length_eq]
    rfl
  | none =>
    have hnone := OrderedSet.find_eq_none.mp hf
    refine ⟨_, ?_, ?_, .inr ⟨?_, rfl⟩⟩
    · have hlen := hc.described.length_eq
      by_cases hcall : w.callingExpiredTimers_ = true
      · simp only [if_pos hcall, Option.bind_some, assert_pos hlen]
      · simp only [if_neg hcall, Option.bind_some, assert_pos hlen]
    · exact hc.move rfl rfl rfl rfl rfl rfl (.refl _)
    · intro p hp hn
      obtain ⟨e, he, rfl⟩ := List.mem_map.mp hp
      have ha : e.active ∈ w.activeTimers_ :=
        hc.described.same.mem_iff.mpr (List.mem_map_of_mem he)
      exact hnone _ ha (ActiveTimer.key_inj.mpr ⟨hn.1.symm, hn.2.symm⟩)

end Core

/-- The loop of `getExpired` erases the expired timers from `activeTimers_`. -/
theorem eraseActive_spec (expired : List Entry) (w : World) {left : List ActiveTimer}
    (hs : OrderedSet.Sorted ActiveTimer.key w.activeTimers_)
    (hp : w.activeTimers_.Perm (expired.map Entry.active ++ left))
    (hlive : ∀ e ∈ expired, ∃ t, w.deref e.second = some t) :
    ∃ active, eraseActive expired w = some { w with activeTimers_ := active } ∧
      OrderedSet.Sorted ActiveTimer.key active ∧ active.Perm left := by
  induction expired generalizing w with
  | nil => exact ⟨w.activeTimers_, rfl, hs, hp⟩
  | cons e expired ih =>
    obtain ⟨t, ht⟩ := hlive e List.mem_cons_self
    have hseq : t.sequence_ = e.second.object := (Heap.deref_eq_some.mp ht).2
    have hmem : e.active ∈ w.activeTimers_ := hp.mem_iff.mpr List.mem_cons_self
    obtain ⟨hone, hperm, hsort⟩ := OrderedSet.erase_mem hs hmem
    obtain ⟨active, hw, hsorted, hleft⟩ := ih
      { w with activeTimers_ := (OrderedSet.erase ActiveTimer.key e.active.key w.activeTimers_).1 }
      hsort (List.Perm.cons_inv (hperm.symm.trans hp))
      fun f hf => hlive f (List.mem_cons_of_mem _ hf)
    refine ⟨active, ?_, hsorted, hleft⟩
    have hk : (⟨e.second, t.sequence_⟩ : ActiveTimer) = e.active := by rw [hseq]; rfl
    rw [eraseActive, ht]
    simp only [Option.bind_eq_bind, Option.bind_some, hk, assert_pos hone]
    exact hw

/-- `getExpired` takes timers out of the queue; every assert in it holds. -/
theorem Core.getExpired {w : World} {running : List Pointer} (hc : Core w running)
    (now : Timestamp) :
    ∃ expired timers active,
      w.getExpired now =
        some (expired, { w with timers_ := timers, activeTimers_ := active }) ∧
      w.timers_ = expired ++ timers ∧
      Core { w with timers_ := timers, activeTimers_ := active }
        (expired.map Entry.second ++ running) := by
  have hd := hc.described
  have hcut : OrderedSet.below Entry.key (Entry.key ⟨now, ⟨uintptrMax, 0⟩⟩) w.timers_ ++
      OrderedSet.from_ Entry.key (Entry.key ⟨now, ⟨uintptrMax, 0⟩⟩) w.timers_ = w.timers_ :=
    OrderedSet.below_append_from ..
  generalize hexp : OrderedSet.below Entry.key (Entry.key ⟨now, ⟨uintptrMax, 0⟩⟩) w.timers_ =
    expired at hcut
  generalize hrest : OrderedSet.from_ Entry.key (Entry.key ⟨now, ⟨uintptrMax, 0⟩⟩) w.timers_ =
    timers at hcut
  have hsub : ∀ e ∈ expired, e ∈ w.timers_ := fun e he => hcut ▸ List.mem_append_left _ he
  have hlater : ∀ e ∈ timers.head?, now < e.first := by
    intro e he
    have hmem : e ∈ timers := List.mem_of_mem_head? he
    have hle := OrderedSet.le_of_mem_from hd.sortedTimers (hrest ▸ hmem)
    rcases Prod.Lex.toLex_le_toLex.mp hle with hlt | ⟨-, haddr⟩
    · exact hlt
    · have hq : e.second ∈ w.pending ++ running ++ w.queued :=
        List.mem_append_right _ (List.mem_map_of_mem (hcut ▸ List.mem_append_right _ hmem))
      exact absurd haddr (Nat.not_le_of_lt (hc.bounded _ (hc.mem_created hq)))
  have hsplit : w.activeTimers_.Perm (expired.map Entry.active ++ timers.map Entry.active) := by
    rw [← List.map_append, hcut]
    exact hd.same
  obtain ⟨active, hw, hsort, hperm⟩ := eraseActive_spec expired { w with timers_ := timers }
    hd.sortedActive hsplit fun e he => by
      obtain ⟨t, ht, -⟩ := hd.times e (hsub e he)
      exact ⟨t, ht⟩
  have hlen : timers.length = active.length := by rw [hperm.length_eq, List.length_map]
  refine ⟨expired, timers, active, ?_, hcut.symm, ?_⟩
  · rw [World.getExpired, assert_pos hd.length_eq]
    simp only [Option.bind_eq_bind, Option.bind_some, hexp, hrest, assert_pos hlater, hw,
      assert_pos hlen]
  · have hheld : (w.pending ++ (expired.map Entry.second ++ running) ++
        timers.map Entry.second).Perm (w.pending ++ running ++ w.queued) := by
      rw [queued, ← hcut, List.map_append]
      simp only [List.append_assoc]
      refine List.Perm.append_left _ ?_
      exact List.perm_append_comm_assoc ..
    refine ⟨⟨?_, hsort, hperm, fun e he => ?_⟩, hc.owns.perm hheld.symm,
      hc.ledger.trans (hheld.symm.append_right _), hc.nodup, hc.fresh, hc.bounded⟩
    · rw [← hrest]
      exact hd.sortedTimers.from_ _
    · exact hd.times e (hcut ▸ List.mem_append_right _ he)

/-- `reset` puts the timer back: it repeats, and is not among the cancelled ones. -/
def Kept (w : World) (p : Pointer) : Prop :=
  ∃ t, w.deref p = some t ∧ t.repeat_ = true ∧
    OrderedSet.find ActiveTimer.key (ActiveTimer.key ⟨p, p.object⟩) w.cancelingTimers_ = none

/-- Timers in hand have gone into the queue or been freed, and nothing else has changed. -/
structure Settles (w w' : World) : Prop where
  queued : w.queued ⊆ w'.queued
  freed : w.freed ⊆ w'.freed
  only : w' = { w with
    timers_ := w'.timers_
    activeTimers_ := w'.activeTimers_
    timerfd_ := w'.timerfd_
    heap := w'.heap
    freed := w'.freed }

/-- The timer is back in the queue if it is kept, and freed otherwise. -/
def Placed (w w' : World) (p : Pointer) : Prop :=
  (w.Kept p ∧ p ∈ w'.queued) ∨ (¬ w.Kept p ∧ p ∈ w'.freed)

theorem Settles.trans {w₁ w₂ w₃ : World} (h : w₁.Settles w₂) (h' : w₂.Settles w₃) :
    w₁.Settles w₃ where
  queued := List.Subset.trans h.queued h'.queued
  freed := List.Subset.trans h.freed h'.freed
  only := by
    rw [h'.only, h.only]

/-- One turn of the loop of `reset`. -/
theorem Core.resetTimer {w : World} {e : Entry} {running : List Pointer}
    (hc : Core w (e.second :: running)) (now : Timestamp) :
    ∃ w', w.resetTimer now e = some w' ∧ Core w' running ∧ w.Settles w' ∧ w.Placed w' e.second ∧
      ∀ p, p.addr ≠ e.second.addr → w'.deref p = w.deref p := by
  obtain ⟨t, ht⟩ := hc.live (q := e.second) (by simp)
  have hseq : t.sequence_ = e.second.object := (Heap.deref_eq_some.mp ht).2
  rw [World.resetTimer, ht]
  simp only [Option.bind_eq_bind, Option.bind_some, hseq]
  have hkept : w.Kept e.second ↔ (t.repeat_ && (OrderedSet.find ActiveTimer.key
      (ActiveTimer.key ⟨e.second, e.second.object⟩) w.cancelingTimers_).isNone) = true := by
    rw [Bool.and_eq_true, Option.isNone_iff_eq_none]
    constructor
    · rintro ⟨t', ht', hrep, hnone⟩
      rw [ht] at ht'
      obtain rfl := Option.some.inj ht'
      exact ⟨hrep, hnone⟩
    · exact fun ⟨hrep, hnone⟩ => ⟨t, ht, hrep, hnone⟩
  by_cases hk : w.Kept e.second
  · rw [if_pos (hkept.mp hk)]
    have hobj : (t.restart now).sequence_ = e.second.object := by
      rw [← hseq, Timer.restart]
      split <;> rfl
    have hmid : Core { w with heap := w.heap.store e.second (t.restart now) }
        (e.second :: running) := by
      refine ⟨?_, hc.owns.store (by simp) hobj, hc.ledger, hc.nodup, hc.fresh, hc.bounded⟩
      exact hc.described.congr_heap fun f hf => Heap.deref_store_ne (hc.addr_ne hf)
    obtain ⟨timers, active, earliest, hw, hperm, hcore⟩ := hmid.insert
    refine ⟨_, by rw [hw]; rfl, hcore, ⟨?_, List.Subset.refl _, rfl⟩, .inl ⟨hk, ?_⟩, ?_⟩
    · exact List.Subset.trans (List.subset_cons_self _ _) hperm.symm.subset
    · exact hperm.mem_iff.mpr List.mem_cons_self
    · exact fun p hp => Heap.deref_store_ne hp
  · rw [if_neg fun h => hk (hkept.mpr h)]
    obtain ⟨hw, hcore⟩ := hc.delete
    refine ⟨_, hw, hcore, ⟨List.Subset.refl _, List.subset_cons_self _ _, rfl⟩,
      .inr ⟨hk, List.mem_cons_self⟩, ?_⟩
    exact fun p hp => Heap.deref_free_ne hp

/-- The loop of `reset` settles every timer of the batch. -/
theorem Core.resetTimers (expired : List Entry) {w : World}
    (hc : Core w (expired.map Entry.second)) (now : Timestamp) :
    ∃ w', expired.foldlM (World.resetTimer now) w = some w' ∧ Core w' [] ∧ w.Settles w' ∧
      ∀ e ∈ expired, w.Placed w' e.second := by
  induction expired generalizing w with
  | nil => exact ⟨w, rfl, hc, ⟨List.Subset.refl _, List.Subset.refl _, rfl⟩, nofun⟩
  | cons e expired ih =>
    obtain ⟨w₁, hw₁, hc₁, hs₁, hp₁, hframe⟩ := hc.resetTimer now
    obtain ⟨w₂, hw₂, hc₂, hs₂, hp₂⟩ := ih hc₁
    refine ⟨w₂, by rw [List.foldlM_cons, hw₁]; exact hw₂, hc₂, hs₁.trans hs₂, fun f hf => ?_⟩
    have hnodup := (hc.owns.perm (perm_head ..)).nodup
    rcases List.mem_cons.mp hf with rfl | hf
    · exact hp₁.imp (fun h => ⟨h.1, hs₂.queued h.2⟩) fun h => ⟨h.1, hs₂.freed h.2⟩
    · have hmem : f.second ∈ w.pending ++ expired.map Entry.second ++ w.queued :=
        List.mem_append_left _ (List.mem_append_right _ (List.mem_map_of_mem hf))
      have hne : f.second ≠ e.second := fun h => (List.nodup_cons.mp hnodup).1 (h ▸ hmem)
      have haddr := (hc.owns.perm (perm_head ..)).addr_ne List.mem_cons_self
        (List.mem_cons_of_mem _ hmem) hne
      have hcanceling : w₁.cancelingTimers_ = w.cancelingTimers_ := by rw [hs₁.only]
      have hkept : w₁.Kept f.second ↔ w.Kept f.second := by
        rw [Kept, Kept, hframe _ haddr, hcanceling]
      exact (hp₂ f hf).imp (fun h => ⟨hkept.mp h.1, h.2⟩)
        fun h => ⟨fun hk => h.1 (hkept.mpr hk), h.2⟩

theorem Core.reset {expired : List Entry} {w : World} (hc : Core w (expired.map Entry.second))
    (now : Timestamp) :
    ∃ w', w.reset expired now = some w' ∧ Core w' [] ∧ w.Settles w' ∧
      ∀ e ∈ expired, w.Placed w' e.second := by
  obtain ⟨w', hw, hc', hs, hp⟩ := hc.resetTimers expired now
  have hnext : ∃ nextExpire, w'.nextExpire = some nextExpire := by
    rw [World.nextExpire]
    cases htimers : w'.timers_ with
    | nil => exact ⟨_, rfl⟩
    | cons it timers =>
      obtain ⟨t, ht, -⟩ := hc'.described.times it (by rw [htimers]; exact List.mem_cons_self)
      have ht : w'.deref it.second = some t := ht
      exact ⟨t.expiration_, by simp only [ht, Option.map_some]⟩
  obtain ⟨nextExpire, hnext⟩ := hnext
  rw [World.reset, hw]
  simp only [Option.bind_eq_bind, Option.bind_some, hnext]
  by_cases hvalid : nextExpire.valid = true
  · rw [if_pos hvalid]
    refine ⟨_, rfl, hc'.move rfl rfl rfl rfl rfl rfl (.refl _), ⟨hs.queued, hs.freed, ?_⟩, hp⟩
    rw [resetTimerfd, hs.only]
  · rw [if_neg hvalid]
    exact ⟨w', rfl, hc', hs, hp⟩

end World

end Cnet.Net.Timers
