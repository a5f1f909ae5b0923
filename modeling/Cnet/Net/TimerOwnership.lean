import Cnet.Support.Runs
import Cnet.Net.TimerSteps

/-!
# Who owns a timer

Every timer made is, at each moment, waiting to be added, in `timers_`, in the batch
that `handleRead` is running, or freed, and in one of these only. From this the
asserts hold and no freed timer is used, whatever the callbacks add and cancel and
wherever the allocator places new timers.
-/

namespace Cnet.Net.Timers

open Cnet.Support

namespace World

/-- Timers of the batch whose callback has not been started. -/
def waiting (w : World) : List Pointer := w.batch.elim [] fun b => b.rest.map Entry.second

structure Inv (w : World) : Prop where
  core : w.Core w.running
  calling : w.callingExpiredTimers_ = w.batch.isSome
  rest : ∀ b ∈ w.batch, b.rest <:+ b.expired
  canceling : ∀ b ∈ w.batch, ∀ e ∈ b.expired,
    OrderedSet.find ActiveTimer.key e.active.key w.cancelingTimers_ = none ↔
      ∀ id ∈ b.cancels, ¬ id.names e.second

/-- A step that does not touch the batch: timers stay freed, and cancels stay noted. -/
structure Keeps (w w' : World) : Prop where
  created : w.created ⊆ w'.created
  freed : w.freed ⊆ w'.freed
  running : w'.running = w.running
  waiting : w'.waiting = w.waiting
  canceling : ∀ k, OrderedSet.find ActiveTimer.key k w'.cancelingTimers_ = none →
    OrderedSet.find ActiveTimer.key k w.cancelingTimers_ = none

theorem inv_new : new.Inv where
  core := {
    described := ⟨.nil, .nil, .refl _, nofun⟩
    owns := ⟨nofun, nofun, .nil⟩
    ledger := .refl _
    nodup := .nil
    fresh := nofun
    bounded := nofun }
  calling := rfl
  rest := nofun
  canceling := nofun

theorem Keeps.of_eq {w w' : World} (hcreated : w.created ⊆ w'.created)
    (hfreed : w'.freed = w.freed) (hbatch : w'.batch = w.batch)
    (hcanceling : w'.cancelingTimers_ = w.cancelingTimers_) : w.Keeps w' where
  created := hcreated
  freed := hfreed ▸ List.Subset.refl _
  running := by rw [World.running, World.running, hbatch]
  waiting := by rw [World.waiting, World.waiting, hbatch]
  canceling := fun _ h => hcanceling ▸ h

namespace Inv

variable {w : World}

theorem of_core {w' : World} (hi : w.Inv) (hcore : Core w' w.running)
    (hcalling : w'.callingExpiredTimers_ = w.callingExpiredTimers_) (hbatch : w'.batch = w.batch)
    (hcanceling : w'.cancelingTimers_ = w.cancelingTimers_) : w'.Inv where
  core := by
    rw [World.running, hbatch]
    exact hcore
  calling := by rw [hcalling, hbatch, hi.calling]
  rest := by rw [hbatch]; exact hi.rest
  canceling := by rw [hbatch, hcanceling]; exact hi.canceling

/-- The timer a queued functor adds goes into the queue. -/
theorem addTimerInLoop {p : Pointer} {w₀ : World} (hi : w₀.Inv)
    (hc : Core w (p :: w₀.running)) (hcalling : w.callingExpiredTimers_ = w₀.callingExpiredTimers_)
    (hbatch : w.batch = w₀.batch) (hcanceling : w.cancelingTimers_ = w₀.cancelingTimers_)
    (hcreated : w₀.created ⊆ w.created) (hfreed : w.freed = w₀.freed) :
    ∃ w', w.addTimerInLoop p = some w' ∧ w'.Inv ∧ w₀.Keeps w' ∧ w'.created = w.created ∧
      w'.trace = w.trace := by
  obtain ⟨timers, active, armed, hw, -, hcore⟩ := hc.addTimerInLoop
  exact ⟨_, hw, hi.of_core hcore hcalling hbatch hcanceling,
    .of_eq hcreated hfreed hbatch hcanceling, rfl, rfl⟩

theorem addTiemr_loop (hi : w.Inv) {addr : Nat} (when_ : Timestamp) (interval : Interval)
    (hnone : w.heap addr = none) (hmax : addr < uintptrMax) :
    ∃ w', w.exec (.addTiemr .loop addr when_ interval) = some w' ∧ w'.Inv ∧ w.Keeps w' ∧
      ∃ p ∈ w'.created, w'.trace = w.trace ++ [.returned (timerId p)] := by
  obtain ⟨w', hw, hi', hk, hcreated, htrace⟩ := hi.addTimerInLoop
    (hi.core.newTimer when_ interval hnone hmax) rfl rfl rfl (List.subset_cons_self _ _) rfl
  refine ⟨w'.record (.returned (timerId ⟨addr, w.numCreated + 1⟩)), ?_, ?_, ?_,
    ⟨addr, w.numCreated + 1⟩, ?_, ?_⟩
  · simp only [exec, hw, Option.bind_eq_bind, Option.bind_some]
    rfl
  · exact hi'.of_core (hi'.core.move rfl rfl rfl rfl rfl rfl (.refl _)) rfl rfl rfl
  · exact ⟨hk.created, hk.freed, hk.running, hk.waiting, hk.canceling⟩
  · rw [record, hcreated]
    exact List.mem_cons_self
  · rw [record, htrace]
    rfl

theorem addTiemr_other (hi : w.Inv) {addr : Nat} (when_ : Timestamp) (interval : Interval)
    (hnone : w.heap addr = none) (hmax : addr < uintptrMax) :
    ∃ w', w.exec (.addTiemr .other addr when_ interval) = some w' ∧ w'.Inv ∧ w.Keeps w' ∧
      w'.trace = w.trace := by
  have hcore := hi.core.newTimer when_ interval hnone hmax
  refine ⟨_, rfl, hi.of_core (hcore.move rfl rfl rfl rfl rfl rfl ?_) rfl rfl rfl,
    .of_eq (List.subset_cons_self _ _) rfl rfl rfl, rfl⟩
  exact (List.perm_middle).symm

theorem queueAdd (hi : w.Inv) {p : Pointer} (hp : p ∈ w.creating) :
    ∃ w', w.exec (.queueAdd p) = some w' ∧ w'.Inv ∧ w.Keeps w' ∧
      ∃ p ∈ w'.created, w'.trace = w.trace ++ [.returned (timerId p)] := by
  have hmem : p ∈ w.pending ++ w.running ++ w.queued :=
    List.mem_append_left _ (List.mem_append_left _ (List.mem_append_left _ hp))
  refine ⟨_, rfl, hi.of_core (hi.core.move rfl rfl rfl rfl rfl rfl ?_) rfl rfl rfl,
    .of_eq (List.Subset.refl _) rfl rfl rfl, p, hi.core.mem_created hmem, rfl⟩
  refine List.Perm.append_right _ ?_
  have hadds : (w.pendingFunctors_ ++ [Functor.addTimerInLoop p]).filterMap Functor.adds =
      w.pendingFunctors_.filterMap Functor.adds ++ [p] := by
    rw [List.filterMap_append]
    rfl
  have hpending : pending ((queueInLoop (.addTimerInLoop p) { w with
      creating := w.creating.erase p }).record (.returned (timerId p))) =
      w.creating.erase p ++ (w.pendingFunctors_.filterMap Functor.adds ++ [p]) :=
    congrArg (w.creating.erase p ++ ·) hadds
  rw [hpending, pending]
  have hcomm : (w.pendingFunctors_.filterMap Functor.adds ++ [p]).Perm
      ([p] ++ w.pendingFunctors_.filterMap Functor.adds) := List.perm_append_comm
  refine (hcomm.append_left _).trans ?_
  refine (List.perm_middle).trans ?_
  exact ((List.perm_cons_erase hp).symm.append_right _)

/-- The batch's record of cancels agrees with `cancelingTimers_` after one more. -/
theorem noteCancelled (hi : w.Inv) {w₁ : World} (id : TimerId) (hcore : Core w₁ w.running)
    (hcalling : w₁.callingExpiredTimers_ = w.callingExpiredTimers_) (hbatch : w₁.batch = w.batch)
    (hcanceling : ∀ b ∈ w.batch, ∀ e ∈ b.expired,
      OrderedSet.find ActiveTimer.key e.active.key w₁.cancelingTimers_ = none ↔
        ¬ id.names e.second ∧
          OrderedSet.find ActiveTimer.key e.active.key w.cancelingTimers_ = none) :
    (w₁.noteCancelled id).Inv ∧ (w₁.noteCancelled id).running = w.running ∧
      (w₁.noteCancelled id).waiting = w.waiting := by
  have hnoted : (w₁.noteCancelled id).batch =
      w.batch.map fun b => { b with cancels := id :: b.cancels } := hbatch ▸ rfl
  have hrunning : (w₁.noteCancelled id).running = w.running := by
    rw [World.running, World.running, hnoted]
    cases w.batch <;> rfl
  have hwaiting : (w₁.noteCancelled id).waiting = w.waiting := by
    rw [World.waiting, World.waiting, hnoted]
    cases w.batch <;> rfl
  refine ⟨⟨?_, ?_, ?_, ?_⟩, hrunning, hwaiting⟩
  · rw [hrunning]
    exact hcore.move rfl rfl rfl rfl rfl rfl (.refl _)
  · rw [hnoted, Option.isSome_map, ← hi.calling, ← hcalling]
    rfl
  · intro b hb
    rw [hnoted] at hb
    obtain ⟨b₀, hb₀, rfl⟩ := Option.map_eq_some_iff.mp hb
    exact hi.rest b₀ hb₀
  · intro b hb e he
    rw [hnoted] at hb
    obtain ⟨b₀, hb₀, rfl⟩ := Option.map_eq_some_iff.mp hb
    rw [List.forall_mem_cons, ← hi.canceling b₀ hb₀ e he]
    exact hcanceling b₀ hb₀ e he

theorem mem_running {b : Batch} (hb : b ∈ w.batch) {e : Entry} (he : e ∈ b.expired) :
    e.second ∈ w.running := by
  rw [running, hb]
  exact List.mem_map_of_mem he

/-- A timer of the batch is not queued. -/
theorem not_queued (hi : w.Inv) {p : Pointer} (hp : p ∈ w.running) : p ∉ w.queued :=
  fun hq => (List.nodup_append.mp hi.core.owns.nodup).2.2 p
    (List.mem_append_right _ hp) p hq rfl

/-- `cancelInLoop` in a run: the timer it names is freed if it is queued, and its id is
noted if its timer is in the batch. -/
theorem cancelled (hi : w.Inv) (id : TimerId) :
    ∃ w', w.cancelled id = some w' ∧ w'.Inv ∧ w.Keeps w' ∧
      w'.trace = w.trace ++ [.cancelled id] ∧
      (∀ p ∈ w.queued, id.names p → p ∈ w'.freed) ∧
      (∀ p ∈ w.running, id.names p →
        OrderedSet.find ActiveTimer.key (ActiveTimer.key ⟨p, p.object⟩) w'.cancelingTimers_ ≠
          none) := by
  have hname : ∀ {p q : Pointer}, id.names p → id.names q → p = q := by
    rintro ⟨a, o⟩ ⟨a', o'⟩ ⟨rfl, rfl⟩ ⟨ha, ho⟩
    simp only at ha ho
    rw [ha, ho]
  obtain ⟨w₁, hw, hcore, ⟨p, timers, active, hp, hperm, rfl⟩ | ⟨hnone, rfl⟩⟩ :=
    hi.core.cancelInLoop id
  · -- the id names a queued timer, so none of the batch
    have hq : p ∈ w.queued := hperm.mem_iff.mpr List.mem_cons_self
    have hrun : ∀ q ∈ w.running, ¬ id.names q :=
      fun q hq' hn => hi.not_queued hq' (hname hp hn ▸ hq)
    obtain ⟨hi', hrunning, hwaiting⟩ := hi.noteCancelled id hcore rfl rfl
      fun b hb e he => ⟨fun h => ⟨hrun _ (mem_running hb he), h⟩, And.right⟩
    refine ⟨_, by rw [World.cancelled, hw]; rfl, hi',
      ⟨List.Subset.refl _, ?_, hrunning, hwaiting, fun _ h => h⟩, rfl, fun q _ hn => ?_,
        fun q hq hn => absurd hn (hrun q hq)⟩
    · exact List.subset_cons_self _ _
    · rw [← hname hp hn]
      exact List.mem_cons_self
  · -- the id names no queued timer; while callbacks run it is noted
    have hnoted : ∀ p : Pointer, w.callingExpiredTimers_ = true →
        (OrderedSet.find ActiveTimer.key (ActiveTimer.key ⟨p, p.object⟩)
            (if w.callingExpiredTimers_ then
              (OrderedSet.insert ActiveTimer.key ⟨id.timer_, id.sequence_⟩ w.cancelingTimers_).1
            else w.cancelingTimers_) = none ↔
          ¬ id.names p ∧ OrderedSet.find ActiveTimer.key (ActiveTimer.key ⟨p, p.object⟩)
            w.cancelingTimers_ = none) := by
      intro p hcall
      rw [if_pos hcall, OrderedSet.find_insert_eq_none]
      exact and_congr_left fun _ => not_congr ActiveTimer.key_inj
    obtain ⟨hi', hrunning, hwaiting⟩ := hi.noteCancelled id hcore rfl rfl
      fun b hb e _ => hnoted e.second (hi.calling.trans (by rw [hb]; rfl))
    refine ⟨_, by rw [World.cancelled, hw]; rfl, hi',
      ⟨List.Subset.refl _, List.Subset.refl _, hrunning, hwaiting, fun k hk => ?_⟩, rfl,
      fun q hq hn => absurd hn (hnone q hq), fun q hq hn hf => ?_⟩
    · by_cases hcall : w.callingExpiredTimers_ = true
      · simp only [World.noteCancelled, record, if_pos hcall] at hk
        exact (OrderedSet.find_insert_eq_none.mp hk).2
      · simpa only [World.noteCancelled, record, if_neg hcall] using hk
    · have hcall : w.callingExpiredTimers_ = true := by
        rw [hi.calling]
        cases hb : w.batch with
        | none => rw [World.running, hb] at hq; exact absurd hq List.not_mem_nil
        | some b => rfl
      exact ((hnoted q hcall).mp hf).1 hn

theorem functor_add (hi : w.Inv) {p : Pointer} {fs : List Functor}
    (hf : w.pendingFunctors_ = .addTimerInLoop p :: fs) :
    ∃ w', w.exec .functor = some w' ∧ w'.Inv ∧ w.Keeps w' ∧ w'.trace = w.trace := by
  have hpending : w.pending = w.creating ++ p :: fs.filterMap Functor.adds := by
    rw [pending, hf]
    rfl
  have hcore : Core { w with pendingFunctors_ := fs } (p :: w.running) := by
    refine hi.core.move rfl rfl rfl rfl rfl rfl ?_
    rw [hpending]
    exact (List.perm_middle).trans (perm_head ..).symm
  obtain ⟨w', hw, hi', hk, -, htrace⟩ :=
    hi.addTimerInLoop hcore rfl rfl rfl (List.Subset.refl _) rfl
  refine ⟨w', ?_, hi', hk, htrace⟩
  rw [exec, hf]
  exact hw

theorem popCancel (hi : w.Inv) {id : TimerId} {fs : List Functor}
    (hf : w.pendingFunctors_ = .cancelInLoop id :: fs) :
    Inv { w with pendingFunctors_ := fs } ∧
      w.exec .functor = World.cancelled id { w with pendingFunctors_ := fs } := by
  refine ⟨hi.of_core (hi.core.move rfl rfl rfl rfl rfl rfl ?_) rfl rfl rfl, ?_⟩
  · rw [pending, pending, hf]
    exact .refl _
  · rw [exec, hf]
    rfl

theorem queueCancel (hi : w.Inv) (id : TimerId) : (w.queueInLoop (.cancelInLoop id)).Inv := by
  refine hi.of_core (hi.core.move rfl rfl rfl rfl rfl rfl ?_) rfl rfl rfl
  have hpending : (w.queueInLoop (.cancelInLoop id)).pending = w.pending := by
    rw [pending, pending, queueInLoop, List.filterMap_append]
    exact congrArg (w.creating ++ ·) (List.append_nil _)
  rw [hpending]

theorem handleRead (hi : w.Inv) (hb : w.batch = none) (now : Timestamp) :
    ∃ w', w.exec (.handleRead now) = some w' ∧ w'.Inv ∧ w'.created = w.created ∧
      w'.freed = w.freed ∧ w'.trace = w.trace := by
  have hcore : Core w [] := by
    have h := hi.core
    rw [World.running, hb] at h
    exact h
  obtain ⟨expired, timers, active, hw, -, hcore⟩ := hcore.getExpired now
  rw [List.append_nil] at hcore
  refine ⟨{ w with
    timers_ := timers
    activeTimers_ := active
    callingExpiredTimers_ := true
    cancelingTimers_ := []
    batch := some { now, expired, rest := expired, cancels := [] } }, ?_, ⟨?_, rfl, ?_, ?_⟩,
    rfl, rfl, rfl⟩
  · rw [exec, hw]
    rfl
  · exact hcore.move rfl rfl rfl rfl rfl rfl (.refl _)
  · rintro b ⟨rfl⟩
    exact List.suffix_refl _
  · rintro b ⟨rfl⟩ e -
    exact ⟨fun _ => nofun, fun _ => rfl⟩

theorem runTimer (hi : w.Inv) {b : Batch} (hb : w.batch = some b) {it : Entry} {rest : List Entry}
    (hrest : b.rest = it :: rest) :
    ∃ w', w.exec .runTimer = some w' ∧ w'.Inv ∧ w'.created = w.created ∧ w'.freed = w.freed ∧
      w'.running = w.running ∧ w.waiting = it.second :: w'.waiting ∧
      w'.cancelingTimers_ = w.cancelingTimers_ ∧ w'.trace = w.trace ++ [.started it.second] := by
  have hsuffix := hi.rest b hb
  rw [hrest] at hsuffix
  have hmem : it.second ∈ w.running := mem_running hb (hsuffix.subset List.mem_cons_self)
  obtain ⟨t, ht⟩ := hi.core.live (List.mem_append_left _ (List.mem_append_right _ hmem))
  have hrunning : w.running = b.expired.map Entry.second := by
    rw [World.running, hb]
    rfl
  refine ⟨record (.started it.second) { w with batch := some { b with rest } }, ?_,
    ⟨?_, ?_, ?_, ?_⟩, rfl, rfl, hrunning.symm, ?_, rfl, rfl⟩
  · simp only [exec, hb, hrest, ht]
    rfl
  · have h := hi.core
    rw [hrunning] at h
    exact h.move rfl rfl rfl rfl rfl rfl (.refl _)
  · exact hi.calling.trans (by rw [hb]; rfl)
  · rintro b' ⟨rfl⟩
    exact (List.suffix_cons it rest).trans hsuffix
  · rintro b' ⟨rfl⟩ e he
    exact hi.canceling b hb e he
  · rw [World.waiting, hb]
    simp only [Option.elim_some, hrest]
    rfl

theorem handleReadEnd (hi : w.Inv) {b : Batch} (hb : w.batch = some b) :
    ∃ w', w.exec .handleReadEnd = some w' ∧ w'.Inv ∧ w'.created = w.created ∧
      w.freed ⊆ w'.freed ∧ w'.trace = w.trace ∧ ∀ e ∈ b.expired, w.Placed w' e.second := by
  have hrunning : w.running = b.expired.map Entry.second := by
    rw [World.running, hb]
    rfl
  have hcore : Core { w with callingExpiredTimers_ := false, batch := none }
      (b.expired.map Entry.second) :=
    hrunning ▸ hi.core.move rfl rfl rfl rfl rfl rfl (.refl _)
  obtain ⟨w', hw, hcore', hs, hp⟩ := hcore.reset b.now
  have hnone : w'.batch = none := by rw [hs.only]
  refine ⟨w', ?_, ⟨?_, ?_, ?_, ?_⟩, by rw [hs.only], hs.freed, by rw [hs.only], hp⟩
  · rw [exec, hb]
    exact hw
  · rw [World.running, hnone]
    exact hcore'
  · rw [hs.only]
    rfl
  · rw [hnone]
    exact nofun
  · rw [hnone]
    exact nofun

/-- Every step that can be taken succeeds, and keeps the invariant. -/
theorem exec (hi : w.Inv) {s : Step} (hs : w.enabled s) : ∃ w', w.exec s = some w' ∧ w'.Inv := by
  cases s with
  | addTiemr t addr when_ interval =>
    cases t with
    | loop =>
      obtain ⟨w', hw, hi', -⟩ := hi.addTiemr_loop when_ interval hs.2.1 hs.2.2
      exact ⟨w', hw, hi'⟩
    | other =>
      obtain ⟨w', hw, hi', -⟩ := hi.addTiemr_other when_ interval hs.2.1 hs.2.2
      exact ⟨w', hw, hi'⟩
  | queueAdd timer =>
    obtain ⟨w', hw, hi', -⟩ := hi.queueAdd hs
    exact ⟨w', hw, hi'⟩
  | cancel t id =>
    cases t with
    | loop =>
      obtain ⟨w', hw, hi', -⟩ := hi.cancelled id
      exact ⟨w', hw, hi'⟩
    | other => exact ⟨_, rfl, hi.queueCancel id⟩
  | functor =>
    obtain ⟨f, fs, hf⟩ := List.exists_cons_of_ne_nil hs.2
    cases f with
    | addTimerInLoop timer =>
      obtain ⟨w', hw, hi', -⟩ := hi.functor_add hf
      exact ⟨w', hw, hi'⟩
    | cancelInLoop id =>
      obtain ⟨hi₀, hw₀⟩ := hi.popCancel hf
      obtain ⟨w', hw, hi', -⟩ := hi₀.cancelled id
      exact ⟨w', hw₀.trans hw, hi'⟩
  | handleRead now =>
    obtain ⟨w', hw, hi', -⟩ := hi.handleRead hs now
    exact ⟨w', hw, hi'⟩
  | runTimer =>
    obtain ⟨b, hb, hne⟩ := hs
    obtain ⟨it, rest, hrest⟩ := List.exists_cons_of_ne_nil hne
    obtain ⟨w', hw, hi', -⟩ := hi.runTimer hb hrest
    exact ⟨w', hw, hi'⟩
  | handleReadEnd =>
    obtain ⟨b, hb, -⟩ := hs
    obtain ⟨w', hw, hi', -⟩ := hi.handleReadEnd hb
    exact ⟨w', hw, hi'⟩

end Inv

theorem step_some {w w' : World} {s : Step} (h : step w s = some w') :
    w.enabled s ∧ w.exec s = some w' := by
  rw [step] at h
  by_cases hs : w.enabled s
  · rw [if_pos hs] at h
    exact ⟨hs, h⟩
  · rw [if_neg hs] at h
    exact nomatch h

theorem inv_step (w : World) (s : Step) (w' : World) (hi : w.Inv) (h : step w s = some w') :
    w'.Inv := by
  obtain ⟨hs, hw⟩ := step_some h
  obtain ⟨w₁, hw₁, hi'⟩ := hi.exec hs
  rw [hw] at hw₁
  obtain rfl := Option.some.inj hw₁
  exact hi'

theorem inv_run {steps : List Step} {w : World} (hw : run step new steps = some w) : w.Inv :=
  reaches_invariant step inv_step inv_new ⟨steps, hw⟩

/-- Every timer made is in exactly one place, and a pointer to it works until it is freed. -/
structure Owned (w : World) : Prop where
  place : w.created.Perm (w.pending ++ w.running ++ w.queued ++ w.freed)
  once : w.created.Nodup
  live : ∀ p ∈ w.pending ++ w.running ++ w.queued, ∃ t, w.deref p = some t
  dead : ∀ p ∈ w.freed, w.deref p = none

theorem Inv.owned {w : World} (hi : w.Inv) : w.Owned where
  place := hi.core.ledger
  once := hi.core.nodup
  live := fun _ hp => hi.core.live hp
  dead := fun p hp => hi.core.owns.dead fun hh =>
    (List.nodup_append.mp (hi.core.ledger.nodup_iff.mp hi.core.nodup)).2.2 p hh p hp rfl

/-- A timer of the batch that goes back into the queue when the callbacks have returned. -/
def Repeats (w : World) (b : Batch) (p : Pointer) : Prop :=
  (∃ t, w.deref p = some t ∧ t.repeat_ = true) ∧ ∀ id ∈ b.cancels, ¬ id.names p

theorem Inv.kept_iff {w : World} (hi : w.Inv) {b : Batch} (hb : b ∈ w.batch) {e : Entry}
    (he : e ∈ b.expired) : w.Kept e.second ↔ w.Repeats b e.second := by
  rw [Repeats, ← hi.canceling b hb e he]
  exact ⟨fun ⟨t, ht, hr, hc⟩ => ⟨⟨t, ht, hr⟩, hc⟩, fun ⟨⟨t, ht, hr⟩, hc⟩ => ⟨t, ht, hr, hc⟩⟩

/-- In every state reached: the two sets agree, every timer is in one place, no step fails
an assert or uses a freed timer, and a batch ends with each of its timers back in the queue
if it repeats and was not cancelled, and freed otherwise. -/
theorem timers_owned (steps : List Step) : ∀ w ∈ run step new steps,
    Described w.heap w.timers_ w.activeTimers_ ∧ w.Owned ∧
      (∀ s, w.enabled s → ∃ w', w.exec s = some w') ∧
      ∀ b ∈ w.batch, ∀ w' ∈ step w .handleReadEnd, ∀ e ∈ b.expired,
        (w.Repeats b e.second → e.second ∈ w'.queued) ∧
          (¬ w.Repeats b e.second → e.second ∈ w'.freed) := by
  intro w hw
  have hi := inv_run hw
  refine ⟨hi.core.described, hi.owned, fun s hs => ?_, fun b hb w' hw' e he => ?_⟩
  · obtain ⟨w', hw', -⟩ := hi.exec hs
    exact ⟨w', hw'⟩
  · obtain ⟨w₁, hw₁, -, -, -, -, hplaced⟩ := hi.handleReadEnd hb
    have hend := (step_some hw').2
    rw [hw₁] at hend
    obtain rfl := Option.some.inj hend
    have hkept := hi.kept_iff hb he
    rcases hplaced e he with ⟨hk, hq⟩ | ⟨hk, hf⟩
    · exact ⟨fun _ => hq, fun h => absurd (hkept.mp hk) h⟩
    · exact ⟨fun h => absurd (hkept.mpr h) hk, fun _ => hf⟩

/-- An address is reused after a cancel; of a batch of three, one timer is cancelled by an
earlier callback, and a stale id names the address of another one. -/
def cancelsInBatch : List Step :=
  [.addTiemr .loop 64 3 ⟨false, 0⟩, .cancel .loop (timerId ⟨64, 1⟩),
    .addTiemr .loop 64 10 ⟨true, 5⟩, .addTiemr .loop 32 10 ⟨true, 0⟩,
    .addTiemr .other 96 10 ⟨false, 0⟩, .queueAdd ⟨96, 4⟩, .functor, .handleRead 12,
    .runTimer, .cancel .loop (timerId ⟨32, 3⟩), .addTiemr .loop 128 11 ⟨false, 0⟩,
    .runTimer, .cancel .loop (timerId ⟨64, 1⟩), .runTimer, .cancel .loop (timerId ⟨128, 5⟩)]

theorem timers_owned_cancelsInBatch :
    ∃ w ∈ run step new cancelsInBatch, w.Owned ∧
      ∃ b ∈ w.batch, ∃ w' ∈ step w .handleReadEnd, b.expired.length = 3 ∧
        ∀ e ∈ b.expired, (w.Repeats b e.second → e.second ∈ w'.queued) ∧
          (¬ w.Repeats b e.second → e.second ∈ w'.freed) := by
  have hrun : ∃ w ∈ run step new cancelsInBatch, ∃ b ∈ w.batch,
      b.expired.length = 3 ∧ (step w .handleReadEnd).isSome = true := by decide
  obtain ⟨w, hw, b, hb, hlen, hsome⟩ := hrun
  obtain ⟨w', hw'⟩ := Option.isSome_iff_exists.mp hsome
  obtain ⟨-, howned, -, hbatch⟩ := timers_owned cancelsInBatch w hw
  exact ⟨w, hw, howned, b, hb, w', hw', hlen, hbatch b hb w' hw'⟩

end World

end Cnet.Net.Timers
