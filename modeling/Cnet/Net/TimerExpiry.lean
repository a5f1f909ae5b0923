import Cnet.Net.TimerOwnership

/-!
# Which timers expire, and when they run

`getExpired` cuts `timers_` at a sentinel that no entry of the same time reaches, so it takes
what has expired and nothing else. A batch runs in the order of its times, and a timer that
does not repeat runs once: `reset` frees it, as `repeat_` never changes.
-/

namespace Cnet.Net.Timers

open Cnet.Support

namespace World

variable {w w' : World}

/-! ## What the functions leave alone -/

theorem insert_frame {p : Pointer} {earliest : Bool} (h : w.insert p = some (w', earliest)) :
    w' = { w with timers_ := w'.timers_, activeTimers_ := w'.activeTimers_ } := by
  simp only [insert, Option.bind_eq_bind, Option.bind_eq_some_iff, Option.some.injEq,
    Prod.mk.injEq] at h
  obtain ⟨-, -, t, -, -, -, -, -, -, -, rfl, -⟩ := h
  rfl

theorem addTimerInLoop_frame {p : Pointer} (h : w.addTimerInLoop p = some w') :
    w' = { w with
      timers_ := w'.timers_
      activeTimers_ := w'.activeTimers_
      timerfd_ := w'.timerfd_ } := by
  rw [addTimerInLoop, Option.bind_eq_bind, Option.bind_eq_some_iff] at h
  obtain ⟨⟨w₁, earliest⟩, hinsert, h⟩ := h
  have hframe := insert_frame hinsert
  cases earliest with
  | true =>
    simp only [if_true, Option.bind_eq_bind, Option.bind_eq_some_iff] at h
    obtain ⟨t, -, h⟩ := h
    obtain rfl := Option.some.inj h
    rw [resetTimerfd, hframe]
  | false =>
    simp only [Bool.false_eq_true, if_false, Option.some.injEq] at h
    obtain rfl := h
    rw [hframe]

theorem delete_frame {p : Pointer} (h : w.delete p = some w') :
    w' = { w with heap := w.heap.free p, freed := p :: w.freed } := by
  rw [delete, Option.bind_eq_bind, Option.bind_eq_some_iff] at h
  obtain ⟨t, -, h⟩ := h
  exact (Option.some.inj h).symm

/-- What never changes of a timer. -/
def SameKind (t t' : Timer) : Prop := t.repeat_ = t'.repeat_ ∧ t.interval_ = t'.interval_

/-- Whatever is found of the timers was there before, and the same in this sense. -/
def Carries (same : Timer → Timer → Prop) (w w' : World) : Prop :=
  ∀ p t', w'.deref p = some t' → ∃ t, w.deref p = some t ∧ same t t'

theorem Carries.of_heap (h : w'.heap = w.heap) : Carries Eq w w' :=
  fun p t' ht' => ⟨t', by rw [deref, ← h]; exact ht', rfl⟩

theorem Carries.of_free {p : Pointer} (h : w'.heap = w.heap.free p) : Carries Eq w w' := by
  intro q t' ht'
  rw [deref, h] at ht'
  exact ⟨t', Heap.deref_of_free ht', rfl⟩

theorem Carries.trans_kind {w₁ w₂ w₃ : World} (h : Carries SameKind w₁ w₂)
    (h' : Carries SameKind w₂ w₃) : Carries SameKind w₁ w₃ := by
  intro p t' ht'
  obtain ⟨t, ht, hsame⟩ := h' p t' ht'
  obtain ⟨t₀, ht₀, hsame₀⟩ := h p t ht
  exact ⟨t₀, ht₀, hsame₀.1.trans hsame.1, hsame₀.2.trans hsame.2⟩

theorem Carries.kind (h : Carries Eq w w') : Carries SameKind w w' := by
  intro p t' ht'
  obtain ⟨t, ht, rfl⟩ := h p t' ht'
  exact ⟨t, ht, rfl, rfl⟩

/-- A new timer is found at its own pointer only, which has a number that none had. -/
theorem deref_newTimer {addr : Nat} {when_ : Timestamp} {interval : Interval} {p : Pointer}
    {t : Timer} (ht : (w.newTimer addr when_ interval).2.deref p = some t) :
    (w.numCreated + 1 = p.object ∧ t = Timer.new when_ interval (w.numCreated + 1)) ∨
      w.deref p = some t := by
  rcases Heap.deref_of_store ht with ⟨-, rfl, hnumber⟩ | ht
  · exact .inl ⟨hnumber, rfl⟩
  · exact .inr ht

/-- `cancelInLoop` frees a timer at most. -/
theorem cancelInLoop_frame {id : TimerId} (h : w.cancelInLoop id = some w') :
    Carries Eq w w' ∧ w'.timers_ ⊆ w.timers_ ∧ w' = { w with
      timers_ := w'.timers_
      activeTimers_ := w'.activeTimers_
      cancelingTimers_ := w'.cancelingTimers_
      heap := w'.heap
      freed := w'.freed } := by
  simp only [cancelInLoop, Option.bind_eq_bind, Option.bind_eq_some_iff] at h
  obtain ⟨-, -, h⟩ := h
  split at h
  · simp only [Option.bind_eq_some_iff, Option.some.injEq] at h
    obtain ⟨t, -, -, -, w₁, hdelete, -, rfl, -, -, rfl⟩ := h
    rw [delete_frame hdelete]
    exact ⟨.of_free rfl, OrderedSet.erase_subset, rfl⟩
  · split at h
    · simp only [Option.bind_eq_some_iff, Option.some.injEq] at h
      obtain ⟨-, rfl, -, -, rfl⟩ := h
      exact ⟨.of_heap rfl, List.Subset.refl _, rfl⟩
    · simp only [Option.bind_eq_some_iff, Option.some.injEq] at h
      obtain ⟨-, rfl, -, -, rfl⟩ := h
      exact ⟨.of_heap rfl, List.Subset.refl _, rfl⟩

/-- The callbacks that were started, in order. -/
def starts (trace : List Event) : List Pointer :=
  trace.filterMap fun
    | .started p => some p
    | _ => none

/-- What the batch is made of, the cancelled ids excepted. -/
def Batch.entries (b : Batch) : Timestamp × List Entry × List Entry := (b.now, b.expired, b.rest)

/-- The step is none of those that make, run and end a batch. -/
def isAside : Step → Bool
  | .handleRead _ | .runTimer | .handleReadEnd => false
  | _ => true

theorem isAside_cases (s : Step) :
    (∃ now, s = .handleRead now) ∨ s = .runTimer ∨ s = .handleReadEnd ∨ isAside s = true := by
  cases s with
  | handleRead now => exact .inl ⟨now, rfl⟩
  | runTimer => exact .inr (.inl rfl)
  | handleReadEnd => exact .inr (.inr (.inl rfl))
  | addTiemr | queueAdd | cancel | functor => exact .inr (.inr (.inr rfl))

/-- A step that takes no part in the batch, and leaves the timers there are as they are. -/
structure Aside (w w' : World) : Prop where
  batch : w'.batch.map Batch.entries = w.batch.map Batch.entries
  starts : starts w'.trace = starts w.trace
  same : ∀ p t, p.object ≤ w.numCreated → w'.deref p = some t → w.deref p = some t

theorem Aside.of_carries (hbatch : w'.batch.map Batch.entries = w.batch.map Batch.entries)
    (hstarts : World.starts w'.trace = World.starts w.trace) (hcarries : Carries Eq w w') :
    Aside w w' where
  batch := hbatch
  starts := hstarts
  same := by
    intro p t' _ ht'
    obtain ⟨t, ht, rfl⟩ := hcarries p t' ht'
    exact ht

theorem Aside.trans {w₁ w₂ w₃ : World} (h : Aside w₁ w₂) (h' : Aside w₂ w₃)
    (hnum : w₁.numCreated ≤ w₂.numCreated) : Aside w₁ w₃ where
  batch := h'.batch.trans h.batch
  starts := h'.starts.trans h.starts
  same p t hp ht := h.same p t hp (h'.same p t (Nat.le_trans hp hnum) ht)

theorem Aside.newTimer (addr : Nat) (when_ : Timestamp) (interval : Interval) :
    Aside w (w.newTimer addr when_ interval).2 where
  batch := rfl
  starts := rfl
  same := by
    intro p t hp ht
    rcases deref_newTimer ht with ⟨hnumber, -⟩ | ht
    · omega
    · exact ht

theorem Aside.of_addTimerInLoop {p : Pointer} (h : w.addTimerInLoop p = some w') : Aside w w' := by
  rw [addTimerInLoop_frame h]
  exact .of_carries rfl rfl (.of_heap rfl)

theorem Aside.of_cancelled {id : TimerId} (h : w.cancelled id = some w') : Aside w w' := by
  obtain ⟨w₁, hcancel, rfl⟩ := Option.map_eq_some_iff.mp h
  obtain ⟨hcarries, -, hframe⟩ := cancelInLoop_frame hcancel
  refine .of_carries ?_ ?_ hcarries
  · rw [hframe]
    show (w.batch.map _).map _ = _
    rw [Option.map_map]
    rfl
  · rw [hframe]
    show World.starts (w.trace ++ [.cancelled id]) = _
    rw [World.starts, List.filterMap_append]
    exact List.append_nil _

theorem Aside.of_step {s : Step} (h : w.exec s = some w') (hs : isAside s = true) :
    Aside w w' := by
  have hreturned : ∀ (trace : List Event) id, World.starts (trace ++ [.returned id]) =
      World.starts trace := by
    intro trace id
    rw [World.starts, List.filterMap_append]
    exact List.append_nil _
  cases s with
  | addTiemr t addr when_ interval =>
    cases t with
    | loop =>
      simp only [exec, Option.bind_eq_bind, Option.bind_eq_some_iff, Option.some.injEq] at h
      obtain ⟨w₁, hadd, rfl⟩ := h
      have hmid := (Aside.newTimer addr when_ interval).trans (.of_addTimerInLoop hadd)
        (Nat.le_succ _)
      exact ⟨hmid.batch, (hreturned _ _).trans hmid.starts, hmid.same⟩
    | other =>
      obtain rfl := Option.some.inj h
      have hnew : Aside w (w.newTimer addr when_ interval).2 := .newTimer addr when_ interval
      exact ⟨hnew.batch, hnew.starts, hnew.same⟩
  | queueAdd timer =>
    obtain rfl := Option.some.inj h
    exact .of_carries rfl (hreturned _ _) (.of_heap rfl)
  | cancel t id =>
    cases t with
    | loop => exact .of_cancelled h
    | other =>
      obtain rfl := Option.some.inj h
      exact .of_carries rfl rfl (.of_heap rfl)
  | functor =>
    rw [exec] at h
    cases hf : w.pendingFunctors_ with
    | nil =>
      rw [hf] at h
      obtain rfl := Option.some.inj h
      exact .of_carries rfl rfl (.of_heap rfl)
    | cons f fs =>
      rw [hf] at h
      cases f with
      | addTimerInLoop timer =>
        have haside := Aside.of_addTimerInLoop h
        exact ⟨haside.batch, haside.starts, haside.same⟩
      | cancelInLoop id =>
        have haside := Aside.of_cancelled h
        exact ⟨haside.batch, haside.starts, haside.same⟩
  | handleRead | runTimer | handleReadEnd => exact absurd hs Bool.false_ne_true

theorem restart_same (now : Timestamp) (t : Timer) :
    SameKind t (t.restart now) ∧ (t.restart now).sequence_ = t.sequence_ := by
  rw [Timer.restart]
  split <;> exact ⟨⟨rfl, rfl⟩, rfl⟩

/-- One turn of the loop of `reset` restarts a timer or frees it. -/
theorem carries_resetTimer {now : Timestamp} {it : Entry} (h : w.resetTimer now it = some w') :
    Carries SameKind w w' ∧ w'.batch = w.batch := by
  rw [resetTimer, Option.bind_eq_bind, Option.bind_eq_some_iff] at h
  obtain ⟨t, ht, h⟩ := h
  dsimp only at h
  split at h
  · rw [Option.bind_eq_bind, Option.bind_eq_some_iff] at h
    obtain ⟨⟨w₁, earliest⟩, hinsert, h⟩ := h
    obtain rfl := Option.some.inj h
    rw [insert_frame hinsert]
    refine ⟨fun q t' ht' => ?_, rfl⟩
    obtain ⟨hkind, hsequence⟩ := restart_same now t
    rcases Heap.deref_of_store ht' with ⟨haddr, rfl, hobject⟩ | ht'
    · have hheap := (Heap.deref_eq_some.mp ht).1
      rw [← haddr] at hheap
      exact ⟨t, Heap.deref_eq_some.mpr ⟨hheap, hsequence.symm.trans hobject⟩, hkind⟩
    · exact ⟨t', ht', rfl, rfl⟩
  · rw [delete_frame h]
    exact ⟨Carries.kind (.of_free rfl), rfl⟩

theorem carries_reset {expired : List Entry} {now : Timestamp}
    (h : w.reset expired now = some w') :
    Carries SameKind w w' ∧ w'.batch = w.batch := by
  rw [reset, Option.bind_eq_bind, Option.bind_eq_some_iff] at h
  obtain ⟨w₁, hloop, h⟩ := h
  rw [Option.bind_eq_bind, Option.bind_eq_some_iff] at h
  obtain ⟨next, -, h⟩ := h
  have hmid : Carries SameKind w w₁ ∧ w₁.batch = w.batch := by
    clear h
    induction expired generalizing w with
    | nil =>
      obtain rfl := Option.some.inj hloop
      exact ⟨Carries.kind (.of_heap rfl), rfl⟩
    | cons it expired ih =>
      rw [List.foldlM_cons, Option.bind_eq_bind, Option.bind_eq_some_iff] at hloop
      obtain ⟨w₂, hturn, hloop⟩ := hloop
      obtain ⟨hcarries, hbatch⟩ := carries_resetTimer hturn
      obtain ⟨hcarries', hbatch'⟩ := ih hloop
      exact ⟨hcarries.trans_kind hcarries', hbatch'.trans hbatch⟩
  obtain rfl := Option.some.inj h
  split
  · exact hmid
  · exact hmid

/-! ## What `getExpired` selects -/

/-- `getExpired` at this time: the entries that have expired, in order, and the queue without
them. -/
structure Selects (now : Timestamp) (w : World) (expired : List Entry) (w' : World) : Prop where
  selected : ∀ e, e ∈ expired ↔ e ∈ w.timers_ ∧ e.first ≤ now
  ordered : expired.Pairwise fun e f => e.first ≤ f.first
  once : expired.Nodup
  timers : ∀ e, e ∈ w'.timers_ ↔ e ∈ w.timers_ ∧ ¬ e.first ≤ now
  active : ∀ a, a ∈ w'.activeTimers_ ↔ a ∈ w.activeTimers_ ∧ ∀ e ∈ expired, e.active ≠ a
  split : w.timers_ = expired ++ w'.timers_
  only : w' = { w with timers_ := w'.timers_, activeTimers_ := w'.activeTimers_ }

theorem getExpired_below {now : Timestamp} {expired : List Entry}
    (h : w.getExpired now = some (expired, w')) :
    expired = OrderedSet.below Entry.key (Entry.key ⟨now, ⟨uintptrMax, 0⟩⟩) w.timers_ := by
  simp only [getExpired, Option.bind_eq_bind, Option.bind_eq_some_iff, Option.some.injEq,
    Prod.mk.injEq] at h
  obtain ⟨-, -, -, -, w₁, -, -, -, hexpired, -⟩ := h
  exact hexpired.symm

/-- Below the sentinel is what has expired, as no address reaches its own. -/
theorem below_sentry {e : Entry} {now : Timestamp} (haddr : e.second.addr < uintptrMax) :
    e.key < Entry.key ⟨now, ⟨uintptrMax, 0⟩⟩ ↔ e.first ≤ now := by
  rw [Entry.key, Entry.key, Prod.Lex.toLex_lt_toLex, le_iff_lt_or_eq]
  exact or_congr_right (and_iff_left haddr)

theorem ordered_of_sorted {entries : List Entry} (h : OrderedSet.Sorted Entry.key entries) :
    entries.Pairwise fun e f => e.first ≤ f.first := by
  refine List.Pairwise.imp (fun {e f} hlt => ?_) h
  rcases Prod.Lex.toLex_lt_toLex.mp hlt with hlt | ⟨heq, -⟩
  · exact hlt.le
  · exact heq.le

/-- What is behind a part of a list without repetitions is the rest of it. -/
theorem mem_behind_iff {α : Type*} {l front behind : List α} (hl : l.Perm (front ++ behind))
    (hnodup : l.Nodup) {x : α} : x ∈ behind ↔ x ∈ l ∧ x ∉ front := by
  have hdisjoint := (List.nodup_append.mp (hl.nodup_iff.mp hnodup)).2.2
  rw [hl.mem_iff, List.mem_append]
  constructor
  · exact fun hx => ⟨.inr hx, fun hfront => hdisjoint x hfront x hx rfl⟩
  · rintro ⟨hx, hnot⟩
    exact hx.resolve_left hnot

theorem Core.getExpired_selects {running : List Pointer} (hc : Core w running)
    (now : Timestamp) :
    ∃ expired w', w.getExpired now = some (expired, w') ∧ w.Selects now expired w' := by
  obtain ⟨expired, timers, active, hw, hsplit, hcore⟩ := hc.getExpired now
  have hbelow := getExpired_below hw
  have hsorted := hc.described.sortedTimers
  have hfrom : timers =
      OrderedSet.from_ Entry.key (Entry.key ⟨now, ⟨uintptrMax, 0⟩⟩) w.timers_ := by
    have hcut : OrderedSet.below Entry.key (Entry.key ⟨now, ⟨uintptrMax, 0⟩⟩) w.timers_ ++
        OrderedSet.from_ Entry.key (Entry.key ⟨now, ⟨uintptrMax, 0⟩⟩) w.timers_ = w.timers_ :=
      OrderedSet.below_append_from ..
    rw [← hbelow, hsplit] at hcut
    rw [hsplit]
    exact (List.append_cancel_left hcut).symm
  have hexpires : ∀ e ∈ w.timers_,
      (e.key < Entry.key ⟨now, ⟨uintptrMax, 0⟩⟩ ↔ e.first ≤ now) := by
    intro e he
    refine below_sentry (hc.bounded _ (hc.mem_created (List.mem_append_right _ ?_)))
    exact List.mem_map_of_mem he
  have hfront := (List.pairwise_append.mp (hsplit ▸ hsorted)).1
  refine ⟨expired, _, hw, ?_, ordered_of_sorted hfront, OrderedSet.Sorted.nodup hfront, ?_, ?_,
    hsplit, rfl⟩
  · intro e
    rw [hbelow, OrderedSet.mem_below hsorted]
    exact and_congr_right (hexpires e)
  · intro e
    show e ∈ timers ↔ _
    rw [hfrom, OrderedSet.mem_from hsorted]
    exact and_congr_right fun he => not_congr (hexpires e he)
  · intro a
    have hbefore : w.activeTimers_.Perm
        (expired.map Entry.active ++ timers.map Entry.active) := by
      rw [← List.map_append, ← hsplit]
      exact hc.described.same
    have hafter : active.Perm (timers.map Entry.active) := hcore.described.same
    show a ∈ active ↔ _
    rw [hafter.mem_iff, mem_behind_iff hbefore hc.described.sortedActive.nodup]
    simp only [List.mem_map, not_exists, not_and]

/-! ## Steps -/

theorem Inv.mem_created (hi : w.Inv) {p : Pointer} {t : Timer} (ht : w.deref p = some t) :
    p ∈ w.created := by
  by_contra hno
  have hdead : w.deref p = none :=
    hi.core.owns.dead fun hheld => hno (hi.core.mem_created hheld)
  rw [hdead] at ht
  exact nomatch ht

theorem Inv.waiting_sublist (hi : w.Inv) : w.waiting.Sublist w.running := by
  rw [waiting, running]
  cases hb : w.batch with
  | none => exact .slnil
  | some b => exact (hi.rest b hb).sublist.map Entry.second

theorem Inv.waiting_subset (hi : w.Inv) : w.waiting ⊆ w.running := hi.waiting_sublist.subset

theorem Inv.waiting_nodup (hi : w.Inv) : w.waiting.Nodup :=
  hi.waiting_sublist.nodup
    (List.nodup_append.mp (List.nodup_append.mp hi.core.owns.nodup).1).2.1

/-- A timer of the batch is not freed. -/
theorem Inv.not_freed (hi : w.Inv) {p : Pointer} (hp : p ∈ w.running) : p ∉ w.freed := by
  intro hf
  obtain ⟨t, ht⟩ := hi.owned.live p (List.mem_append_left _ (List.mem_append_right _ hp))
  rw [hi.owned.dead p hf] at ht
  exact nomatch ht

/-- The steps that take no part in a batch leave its timers where they are. -/
theorem Inv.keeps {s : Step} (hi : w.Inv) (hs : w.enabled s) (h : w.exec s = some w')
    (haside : isAside s = true) : w.Keeps w' := by
  have hsame : ∀ {w₁ : World}, w.exec s = some w₁ → w₁ = w' :=
    fun h₁ => Option.some.inj (h₁.symm.trans h)
  cases s with
  | addTiemr t addr when_ interval =>
    cases t with
    | loop =>
      obtain ⟨w₁, hw₁, -, hk, -⟩ := hi.addTiemr_loop when_ interval hs.2.1 hs.2.2
      exact hsame hw₁ ▸ hk
    | other =>
      obtain ⟨w₁, hw₁, -, hk, -⟩ := hi.addTiemr_other when_ interval hs.2.1 hs.2.2
      exact hsame hw₁ ▸ hk
  | queueAdd timer =>
    obtain ⟨w₁, hw₁, -, hk, -⟩ := hi.queueAdd hs
    exact hsame hw₁ ▸ hk
  | cancel t id =>
    cases t with
    | loop =>
      obtain ⟨w₁, hw₁, -, hk, -⟩ := hi.cancelled id
      exact hsame hw₁ ▸ hk
    | other => exact hsame rfl ▸ .of_eq (List.Subset.refl _) rfl rfl rfl
  | functor =>
    obtain ⟨f, fs, hf⟩ := List.exists_cons_of_ne_nil hs.2
    cases f with
    | addTimerInLoop timer =>
      obtain ⟨w₁, hw₁, -, hk, -⟩ := hi.functor_add hf
      exact hsame hw₁ ▸ hk
    | cancelInLoop id =>
      obtain ⟨hi₀, hw₀⟩ := hi.popCancel hf
      obtain ⟨w₁, hw₁, -, hk, -⟩ := hi₀.cancelled id
      have hk' : w.Keeps w₁ := ⟨hk.created, hk.freed, hk.running, hk.waiting, hk.canceling⟩
      exact hsame (hw₀.trans hw₁) ▸ hk'
  | handleRead | runTimer | handleReadEnd => exact absurd haside Bool.false_ne_true

/-- What `handleRead` does up to its first callback. -/
theorem Inv.handleRead_selects {now : Timestamp} (hi : w.Inv) (hb : w.batch = none)
    (h : w.exec (.handleRead now) = some w') :
    ∃ expired w₁, w.Selects now expired w₁ ∧ w' = { w₁ with
      callingExpiredTimers_ := true
      cancelingTimers_ := []
      batch := some { now, expired, rest := expired, cancels := [] } } := by
  have hcore : Core w [] := by
    have hcore := hi.core
    rw [World.running, hb] at hcore
    exact hcore
  obtain ⟨expired, w₁, hexpired, hselects⟩ := hcore.getExpired_selects now
  rw [World.exec, hexpired] at h
  exact ⟨expired, w₁, hselects, (Option.some.inj h).symm⟩

theorem runTimer_eq {b : Batch} {it : Entry} {rest : List Entry} (hb : w.batch = some b)
    (hrest : b.rest = it :: rest) (h : w.exec .runTimer = some w') :
    w' = record (.started it.second) { w with batch := some { b with rest } } ∧
      ∃ t, w.deref it.second = some t := by
  simp only [World.exec, hb, hrest, Option.bind_eq_bind, Option.bind_eq_some_iff] at h
  obtain ⟨t, ht, h⟩ := h
  exact ⟨(Option.some.inj h).symm, t, ht⟩

/-- Every step keeps the timers there are, and whether and how they repeat. -/
theorem Inv.carries {s : Step} (hi : w.Inv) (hs : w.enabled s) (h : w.exec s = some w') :
    w.created ⊆ w'.created ∧ ∀ p t', p.object ≤ w.numCreated → w'.deref p = some t' →
      ∃ t, w.deref p = some t ∧ SameKind t t' := by
  rcases isAside_cases s with ⟨now, rfl⟩ | rfl | rfl | haside
  · obtain ⟨expired, w₁, hselects, rfl⟩ := hi.handleRead_selects hs h
    rw [hselects.only]
    exact ⟨List.Subset.refl _, fun p t' _ ht' => ⟨t', ht', rfl, rfl⟩⟩
  · obtain ⟨b, hb, hne⟩ := hs
    obtain ⟨it, rest, hrest⟩ := List.exists_cons_of_ne_nil hne
    obtain ⟨rfl, -⟩ := runTimer_eq hb hrest h
    exact ⟨List.Subset.refl _, fun p t' _ ht' => ⟨t', ht', rfl, rfl⟩⟩
  · obtain ⟨b, hb, -⟩ := hs
    obtain ⟨w₁, hw₁, -, hcreated, -⟩ := hi.handleReadEnd hb
    obtain rfl := Option.some.inj (hw₁.symm.trans h)
    rw [World.exec, hb] at h
    obtain ⟨hcarries, -⟩ := carries_reset (w := { w with
      callingExpiredTimers_ := false
      batch := none }) h
    exact ⟨hcreated ▸ List.Subset.refl _, fun p t' _ ht' => hcarries p t' ht'⟩
  · have ha := Aside.of_step h haside
    exact ⟨(hi.keeps hs h haside).created,
      fun p t' hp ht' => ⟨t', ha.same p t' hp ht', rfl, rfl⟩⟩

/-! ## Timers that do not repeat -/

/-- A timer made without repetition; it may be freed by now. -/
def OneShot (w : World) (p : Pointer) : Prop :=
  p ∈ w.created ∧ ∀ t, w.deref p = some t → t.repeat_ = false

/-- Its callback has not been started, or once, and then the timer is freed or about to be. -/
def Once (w : World) (p : Pointer) : Prop :=
  (starts w.trace).count p ≤ 1 ∧
    (p ∈ starts w.trace → p ∈ w.freed ∨ (p ∈ w.running ∧ p ∉ w.waiting))

theorem oneShot_step {s : Step} {p : Pointer} (hi : w.Inv) (hp : w.OneShot p)
    (hs : step w s = some w') : w'.OneShot p := by
  obtain ⟨henabled, h⟩ := step_some hs
  obtain ⟨hcreated, hcarries⟩ := hi.carries henabled h
  refine ⟨hcreated hp.1, fun t' ht' => ?_⟩
  obtain ⟨t, ht, hsame⟩ := hcarries p t' (hi.core.fresh p hp.1) ht'
  exact hsame.1.symm.trans (hp.2 t ht)

theorem Once.of_notMem {p : Pointer} (h : p ∉ starts w.trace) : w.Once p :=
  ⟨by rw [List.count_eq_zero_of_not_mem h]; exact Nat.zero_le _, fun hmem => absurd hmem h⟩

/-- A new batch makes no timer wait that has been started. -/
theorem Once.handleRead {p : Pointer} {now : Timestamp} (ho : w.Once p) (hi : w.Inv)
    (hb : w.batch = none) (h : w.exec (.handleRead now) = some w') : w'.Once p := by
  obtain ⟨hcount, hstarted⟩ := ho
  obtain ⟨expired, w₁, hselects, rfl⟩ := hi.handleRead_selects hb h
  rw [hselects.only]
  refine ⟨hcount, fun hmem => .inl ?_⟩
  rcases hstarted hmem with hfreed | ⟨hrunning, -⟩
  · exact hfreed
  · rw [running, hb] at hrunning
    exact absurd hrunning List.not_mem_nil

/-- The timer that starts has not been started: it was waiting, and now waits no more. -/
theorem Once.runTimer {p : Pointer} {b : Batch} {it : Entry} {rest : List Entry} (ho : w.Once p)
    (hi : w.Inv) (hb : w.batch = some b) (hrest : b.rest = it :: rest)
    (h : w.exec .runTimer = some w') : w'.Once p := by
  obtain ⟨hcount, hstarted⟩ := ho
  obtain ⟨w₁, hw₁, hi', hcreated, hfreed, hrunning, hwaiting, -, htrace⟩ := hi.runTimer hb hrest
  obtain rfl := Option.some.inj (hw₁.symm.trans h)
  have hstarts : starts w₁.trace = starts w.trace ++ [it.second] := by
    rw [htrace, starts, List.filterMap_append]
    rfl
  obtain ⟨hmember, hnot⟩ := List.nodup_cons.mp (hwaiting ▸ hi.waiting_nodup)
  have hhead : it.second ∈ w.waiting := hwaiting ▸ List.mem_cons_self
  rw [Once, hstarts, hrunning, hfreed, List.count_append]
  by_cases heq : p = it.second
  · have hfresh : p ∉ starts w.trace := by
      intro hmem
      rcases hstarted hmem with hdead | ⟨-, hgone⟩
      · exact hi.not_freed (hi.waiting_subset hhead) (heq ▸ hdead)
      · exact hgone (heq ▸ hhead)
    rw [List.count_eq_zero_of_not_mem hfresh, heq, List.count_singleton_self]
    exact ⟨Nat.le_refl _, fun _ => .inr ⟨hi.waiting_subset hhead, hmember⟩⟩
  · rw [List.count_singleton, beq_eq_false_iff_ne.mpr (Ne.symm heq), if_neg Bool.false_ne_true]
    refine ⟨hcount, fun hmem => ?_⟩
    have hmem' := (List.mem_append.mp hmem).resolve_right fun h => heq (List.mem_singleton.mp h)
    refine (hstarted hmem').imp_right (And.imp_right fun hwait hlater => hwait ?_)
    rw [hwaiting]
    exact List.mem_cons_of_mem _ hlater

/-- The timers of the batch that do not repeat are freed at its end. -/
theorem Once.handleReadEnd {p : Pointer} {b : Batch} (ho : w.Once p) (hi : w.Inv)
    (hp : w.OneShot p) (hb : w.batch = some b) (h : w.exec .handleReadEnd = some w') :
    w'.Once p := by
  obtain ⟨hcount, hstarted⟩ := ho
  obtain ⟨w₁, hw₁, -, -, hfreed, htrace, hplaced⟩ := hi.handleReadEnd hb
  obtain rfl := Option.some.inj (hw₁.symm.trans h)
  rw [Once, htrace]
  refine ⟨hcount, fun hmem => .inl ?_⟩
  rcases hstarted hmem with hf | ⟨hrunning, -⟩
  · exact hfreed hf
  · rw [running, hb] at hrunning
    obtain ⟨e, he, rfl⟩ := List.mem_map.mp hrunning
    rcases hplaced e he with ⟨⟨t, ht, hrepeat, -⟩, -⟩ | ⟨-, hf⟩
    · rw [hp.2 t ht] at hrepeat
      exact absurd hrepeat Bool.false_ne_true
    · exact hf

theorem once_step {s : Step} {p : Pointer} (hi : w.Inv) (hp : w.OneShot p) (ho : w.Once p)
    (hs : step w s = some w') : w'.Once p := by
  obtain ⟨henabled, h⟩ := step_some hs
  rcases isAside_cases s with ⟨now, rfl⟩ | rfl | rfl | haside
  · exact ho.handleRead hi henabled h
  · obtain ⟨b, hb, hne⟩ := henabled
    obtain ⟨it, rest, hrest⟩ := List.exists_cons_of_ne_nil hne
    exact ho.runTimer hi hb hrest h
  · obtain ⟨b, hb, -⟩ := henabled
    exact ho.handleReadEnd hi hp hb h
  · have hk := hi.keeps henabled h haside
    rw [Once, (Aside.of_step h haside).starts, hk.running, hk.waiting]
    exact ⟨ho.1, fun hmem => (ho.2 hmem).imp_left fun hf => hk.freed hf⟩

/-! ## Runs -/

/-- The timers of a batch in the order of their times, up to the time `handleRead` read, and
those whose callback has been started already. -/
structure InOrder (w : World) (b : Batch) : Prop where
  due : ∀ e ∈ b.expired, e.first ≤ b.now
  ordered : b.expired.Pairwise fun e f => e.first ≤ f.first
  times : ∀ e ∈ b.expired, ∀ t, w.deref e.second = some t → t.expiration_ = e.first
  done : ∃ done, b.expired = done ++ b.rest ∧ done.map Entry.second <:+ starts w.trace

structure ExpiryInv (w : World) : Prop where
  inv : w.Inv
  made : starts w.trace ⊆ w.created
  inOrder : ∀ b ∈ w.batch, w.InOrder b
  once : ∀ p t, w.deref p = some t → t.repeat_ = false → w.Once p

theorem expiryInv_new : new.ExpiryInv where
  inv := inv_new
  made := List.Subset.refl _
  inOrder := nofun
  once := nofun

theorem Aside.inOrder (h : Aside w w') (hi : w.Inv) (horder : ∀ b ∈ w.batch, w.InOrder b) :
    ∀ b ∈ w'.batch, w'.InOrder b := by
  intro b' hb'
  have hentries := h.batch
  rw [hb', Option.map_some] at hentries
  obtain ⟨b, hb, heq⟩ := Option.map_eq_some_iff.mp hentries.symm
  obtain ⟨hnow, hexpired, hrest⟩ : b.now = b'.now ∧ b.expired = b'.expired ∧ b.rest = b'.rest := by
    rw [Batch.entries, Batch.entries, Prod.mk.injEq, Prod.mk.injEq] at heq
    exact heq
  obtain ⟨hdue, hordered, htimes, hdone⟩ := horder b hb
  rw [hnow, hexpired] at hdue
  rw [hexpired] at hordered
  rw [hexpired, hrest] at hdone
  refine ⟨hdue, hordered, fun e he t' ht' => ?_, h.starts.symm ▸ hdone⟩
  rw [← hexpired] at he
  have hmade : e.second ∈ w.created :=
    hi.core.mem_created (List.mem_append_left _ (List.mem_append_right _ (Inv.mem_running hb he)))
  exact htimes e he t' (h.same e.second t' (hi.core.fresh _ hmade) ht')

theorem starts_append (trace : List Event) (p : Pointer) :
    starts (trace ++ [.started p]) = starts trace ++ [p] := by
  rw [starts, List.filterMap_append]
  rfl

/-- The callback that starts is the next of the batch, which goes on. -/
theorem ExpiryInv.runTimer {b : Batch} {it : Entry} {rest : List Entry} (h : w.ExpiryInv)
    (hb : w.batch = some b) (hrest : b.rest = it :: rest) :
    let w' := record (.started it.second) { w with batch := some { b with rest } }
    starts w'.trace ⊆ w.created ∧ ∀ b' ∈ w'.batch, w'.InOrder b' := by
  obtain ⟨hdue, hordered, htimes, done, hdone, hsuffix⟩ := h.inOrder b hb
  have hmem : it ∈ b.expired := (h.inv.rest b hb).subset (hrest ▸ List.mem_cons_self)
  have hcreated : it.second ∈ w.created :=
    h.inv.core.mem_created
      (List.mem_append_left _ (List.mem_append_right _ (Inv.mem_running hb hmem)))
  refine ⟨?_, ?_⟩
  · rw [record, starts_append]
    exact List.append_subset.mpr ⟨h.made, List.cons_subset.mpr ⟨hcreated, List.nil_subset _⟩⟩
  · rintro b' ⟨rfl⟩
    refine ⟨hdue, hordered, htimes, done ++ [it], ?_, ?_⟩
    · rw [hdone, hrest, List.append_assoc, List.singleton_append]
    · obtain ⟨before, hbefore⟩ := hsuffix
      rw [record, starts_append, List.map_append]
      exact ⟨before, by rw [← List.append_assoc, hbefore, List.map_singleton]⟩

/-- `handleRead` starts a batch in order. -/
theorem Inv.inOrder_handleRead {now : Timestamp} {expired : List Entry} {w₁ : World}
    (hi : w.Inv) (hselects : w.Selects now expired w₁) :
    InOrder { w₁ with
      callingExpiredTimers_ := true
      cancelingTimers_ := []
      batch := some { now, expired, rest := expired, cancels := [] } }
      { now, expired, rest := expired, cancels := [] } where
  due e he := ((hselects.selected e).mp he).2
  ordered := hselects.ordered
  times e he t ht := by
    obtain ⟨t₀, ht₀, htime⟩ := hi.core.described.times e ((hselects.selected e).mp he).1
    rw [deref, hselects.only] at ht
    exact Option.some.inj (ht₀.symm.trans ht) ▸ htime
  done := ⟨[], rfl, List.nil_suffix⟩

/-- What one step starts, and how it leaves the batch. -/
theorem ExpiryInv.batch {s : Step} (h : w.ExpiryInv) (hs : step w s = some w') :
    starts w'.trace ⊆ w.created ∧ ∀ b ∈ w'.batch, w'.InOrder b := by
  obtain ⟨henabled, hexec⟩ := step_some hs
  have hi := h.inv
  rcases isAside_cases s with ⟨now, rfl⟩ | rfl | rfl | haside
  · obtain ⟨expired, w₁, hselects, rfl⟩ := hi.handleRead_selects henabled hexec
    refine ⟨?_, ?_⟩
    · rw [hselects.only]
      exact h.made
    · rintro b ⟨rfl⟩
      exact hi.inOrder_handleRead hselects
  · obtain ⟨b, hb, hne⟩ := henabled
    obtain ⟨it, rest, hrest⟩ := List.exists_cons_of_ne_nil hne
    obtain ⟨rfl, -⟩ := runTimer_eq hb hrest hexec
    exact h.runTimer hb hrest
  · obtain ⟨b, hb, -⟩ := henabled
    obtain ⟨w₁, hw₁, hi', -, -, htrace, -⟩ := hi.handleReadEnd hb
    obtain rfl := Option.some.inj (hw₁.symm.trans hexec)
    rw [exec, hb] at hexec
    have hnone := (carries_reset (w := { w with
      callingExpiredTimers_ := false
      batch := none }) hexec).2
    rw [htrace, hnone]
    exact ⟨h.made, fun b hb' => absurd hb' (Option.not_mem_none b)⟩
  · have ha := Aside.of_step hexec haside
    rw [ha.starts]
    exact ⟨h.made, ha.inOrder hi h.inOrder⟩

theorem expiryInv_step (w : World) (s : Step) (w' : World) (h : w.ExpiryInv)
    (hs : step w s = some w') : w'.ExpiryInv := by
  obtain ⟨henabled, hexec⟩ := step_some hs
  have hi := h.inv
  obtain ⟨hcreated, hcarries⟩ := hi.carries henabled hexec
  obtain ⟨hmade, hinOrder⟩ := h.batch hs
  refine ⟨inv_step w s w' hi hs, List.Subset.trans hmade hcreated, hinOrder,
    fun p t' ht' hrepeat => ?_⟩
  by_cases hp : p ∈ w.created
  · obtain ⟨t, ht, hsame⟩ := hcarries p t' (hi.core.fresh p hp) ht'
    have honeShot : w.OneShot p := by
      refine ⟨hp, fun t₁ ht₁ => ?_⟩
      obtain rfl := Option.some.inj (ht.symm.trans ht₁)
      exact hsame.1.trans hrepeat
    exact once_step hi honeShot (h.once p t ht (hsame.1.trans hrepeat)) hs
  · exact .of_notMem fun hmem => hp (hmade hmem)

theorem expiryInv_run {steps : List Step} (hw : run step new steps = some w) : w.ExpiryInv :=
  reaches_invariant step expiryInv_step expiryInv_new ⟨steps, hw⟩

/-- A timer that does not repeat is started once at most in the rest of the run, too. -/
theorem once_run {p : Pointer} {more : List Step} (hi : w.Inv) (hp : w.OneShot p) (ho : w.Once p)
    (hw : run step w more = some w') : w'.Once p := by
  have hstep : ∀ w s w', w.Inv ∧ w.OneShot p ∧ w.Once p → step w s = some w' →
      w'.Inv ∧ w'.OneShot p ∧ w'.Once p := by
    rintro w s w' ⟨hi, hp, ho⟩ hs
    exact ⟨inv_step w s w' hi hs, oneShot_step hi hp hs, once_step hi hp ho hs⟩
  exact (reaches_invariant step hstep ⟨hi, hp, ho⟩ ⟨more, hw⟩).2.2

/-- What is proved of a state in a run: what `getExpired` would return at any time, that the
callback to come next has expired, that the batch runs in order, and that a timer that does
not repeat runs once at most. -/
structure Punctual (w : World) : Prop where
  getExpired : ∀ now, ∃ expired w', w.getExpired now = some (expired, w') ∧
    w.Selects now expired w'
  notBefore : ∀ b ∈ w.batch, ∀ it rest, b.rest = it :: rest →
    ∃ t, w.deref it.second = some t ∧ t.expiration_ ≤ b.now
  inOrder : ∀ b ∈ w.batch, w.InOrder b
  once : ∀ p t, w.deref p = some t → t.repeat_ = false →
    ∀ more w', run step w more = some w' → (starts w'.trace).count p ≤ 1

theorem expired_selected (steps : List Step) (w : World) (hw : run step new steps = some w) :
    w.Punctual := by
  have h := expiryInv_run hw
  have hi := h.inv
  refine ⟨hi.core.getExpired_selects, ?_, h.inOrder, ?_⟩
  · intro b hb it rest hrest
    have hmem : it ∈ b.expired := (hi.rest b hb).subset (hrest ▸ List.mem_cons_self)
    obtain ⟨t, ht⟩ := hi.core.live
      (List.mem_append_left _ (List.mem_append_right _ (Inv.mem_running hb hmem)))
    exact ⟨t, ht, (h.inOrder b hb).times it hmem t ht ▸ (h.inOrder b hb).due it hmem⟩
  · intro p t ht hrepeat more w' hw'
    have honeShot : w.OneShot p := by
      refine ⟨hi.mem_created ht, fun t₁ ht₁ => ?_⟩
      exact Option.some.inj (ht.symm.trans ht₁) ▸ hrepeat
    exact (once_run hi honeShot (h.once p t ht hrepeat) hw').1

/-- Two timers expire at the very time that is read, and one a microsecond later. -/
def expiresAtNow : List Step :=
  [.addTiemr .loop 96 10 ⟨false, 0⟩, .addTiemr .loop 64 10 ⟨true, 5⟩,
    .addTiemr .loop 32 11 ⟨false, 0⟩, .handleRead 10, .runTimer]

theorem expired_selected_atNow :
    ∃ w ∈ run step new expiresAtNow, w.Punctual ∧
      ∃ b ∈ w.batch, b.expired.map Entry.second = [⟨64, 2⟩, ⟨96, 1⟩] := by
  have hrun : ∃ w ∈ run step new expiresAtNow,
      ∃ b ∈ w.batch, b.expired.map Entry.second = [⟨64, 2⟩, ⟨96, 1⟩] := by decide
  obtain ⟨w, hw, hbatch⟩ := hrun
  exact ⟨w, hw, expired_selected expiresAtNow w hw, hbatch⟩

end World

end Cnet.Net.Timers
