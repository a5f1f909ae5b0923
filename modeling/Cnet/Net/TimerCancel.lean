import Cnet.Support.History
import Cnet.Net.TimerOwnership

/-!
# Cancelled timers

Once `cancelInLoop` has returned for an id that `addTiemr` returned, the timer's
callback is not started again, provided the timer had been added to the queue and
was not in the batch with its callback still to come: `cancelInLoop` looks in
`activeTimers_` only, and `handleRead` runs its whole batch.
-/

namespace Cnet.Net.Timers

open Cnet.Support

/-- An id was returned for the timer, and `cancelInLoop` has returned for it later. -/
def Cancelled (trace : List Event) (p : Pointer) : Prop :=
  ∃ l r, trace = l ++ .cancelled (timerId p) :: r ∧ .returned (timerId p) ∈ l

/-- No callback is started for a timer that has been cancelled. -/
def CancelFinal (trace : List Event) : Prop :=
  Justified (fun pre e => ∀ p, e = .started p → ¬ Cancelled pre p) trace

theorem Cancelled.of_append {trace : List Event} {e : Event} {p : Pointer}
    (h : Cancelled (trace ++ [e]) p) :
    Cancelled trace p ∨ (e = .cancelled (timerId p) ∧ .returned (timerId p) ∈ trace) := by
  obtain ⟨l, r, heq, hl⟩ := h
  rcases snoc_cases heq with ⟨rfl, he⟩ | ⟨r', htrace⟩
  · exact .inr ⟨he.symm, hl⟩
  · exact .inl ⟨l, r', htrace, hl⟩

namespace World

/-- The id whose `cancelInLoop` the step runs. -/
def cancels (w : World) : Step → Option TimerId
  | .cancel .loop id => some id
  | .functor =>
      match w.pendingFunctors_ with
      | .cancelInLoop id :: _ => some id
      | _ => none
  | _ => none

/-- The condition on a step, at the state it starts from: a timer is cancelled after it has
been added, and not while it is in the batch with its callback still to come. -/
def InTime (w : World) (s : Step) : Prop :=
  ∀ id ∈ w.cancels s, .returned id ∈ w.trace → id.timer_ ∉ w.pending ∧ id.timer_ ∉ w.waiting

instance (w : World) (s : Step) : Decidable (w.InTime s) :=
  inferInstanceAs (Decidable (∀ id ∈ w.cancels s, _ → _))

/-- No callback of the timer will be started: it is freed, or will be with its batch. -/
def Gone (w : World) (p : Pointer) : Prop :=
  p ∈ w.freed ∨ (p ∈ w.running ∧ p ∉ w.waiting ∧
    OrderedSet.find ActiveTimer.key (ActiveTimer.key ⟨p, p.object⟩) w.cancelingTimers_ ≠ none)

structure CancelInv (w : World) : Prop where
  inv : w.Inv
  returned : ∀ id, .returned id ∈ w.trace → id.timer_ ∈ w.created
  final : CancelFinal w.trace
  gone : ∀ p, Cancelled w.trace p → w.Gone p

theorem cancelInv_new : new.CancelInv where
  inv := inv_new
  returned := fun _ h => absurd h List.not_mem_nil
  final := .nil
  gone := by
    rintro p ⟨l, r, heq, -⟩
    exact absurd heq (by cases l <;> simp [new])

theorem Keeps.gone {w w' : World} (hk : w.Keeps w') {p : Pointer} (h : w.Gone p) : w'.Gone p := by
  rcases h with hf | ⟨hrun, hwait, hcancel⟩
  · exact .inl (hk.freed hf)
  · refine .inr ⟨hk.running ▸ hrun, hk.waiting ▸ hwait, fun h => hcancel (hk.canceling _ h)⟩

namespace CancelInv

variable {w w' : World}

/-- A step that adds nothing to the history. -/
theorem quiet (h : w.CancelInv) (hi' : w'.Inv) (hcreated : w.created ⊆ w'.created)
    (hgone : ∀ p, w.Gone p → w'.Gone p) (htrace : w'.trace = w.trace) : w'.CancelInv where
  inv := hi'
  returned := fun id hid => hcreated (h.returned id (htrace ▸ hid))
  final := htrace ▸ h.final
  gone := fun p hp => hgone p (h.gone p (htrace ▸ hp))

/-- A step that adds one event to the history. -/
theorem extend (h : w.CancelInv) (hi' : w'.Inv) (hcreated : w.created ⊆ w'.created)
    (hgone : ∀ p, w.Gone p → w'.Gone p) {e : Event} (htrace : w'.trace = w.trace ++ [e])
    (hreturned : ∀ id, e = .returned id → id.timer_ ∈ w'.created)
    (hstarted : ∀ p, e = .started p → ¬ Cancelled w.trace p)
    (hcancelled : ∀ p, e = .cancelled (timerId p) → .returned (timerId p) ∈ w.trace → w'.Gone p) :
    w'.CancelInv where
  inv := hi'
  returned := by
    intro id hid
    rw [htrace] at hid
    rcases List.mem_append.mp hid with hid | hid
    · exact hcreated (h.returned id hid)
    · exact hreturned id (List.mem_singleton.mp hid).symm
  final := by
    rw [htrace]
    exact h.final.append_singleton hstarted
  gone := by
    intro p hp
    rw [htrace] at hp
    rcases hp.of_append with hp | ⟨he, hret⟩
    · exact hgone p (h.gone p hp)
    · exact hcancelled p he hret

/-- Adding a timer. -/
theorem returns (h : w.CancelInv) (hi' : w'.Inv) (hk : w.Keeps w') {p : Pointer}
    (hp : p ∈ w'.created) (htrace : w'.trace = w.trace ++ [.returned (timerId p)]) :
    w'.CancelInv := by
  refine h.extend hi' hk.created (fun _ => hk.gone) htrace (fun id he => ?_) nofun nofun
  obtain rfl := Event.returned.inj he
  exact hp

/-- A cancel in time leaves its timer gone. -/
theorem cancelled (h : w.CancelInv) {id : TimerId}
    (htime : .returned id ∈ w.trace → id.timer_ ∉ w.pending ∧ id.timer_ ∉ w.waiting)
    (hw : w.cancelled id = some w') : w'.CancelInv := by
  obtain ⟨w₁, hw₁, hi', hk, htrace, hqueued, hrunning⟩ := h.inv.cancelled id
  rw [hw] at hw₁
  obtain rfl := Option.some.inj hw₁
  refine h.extend hi' hk.created (fun _ => hk.gone) htrace nofun nofun fun p he hret => ?_
  obtain rfl := Event.cancelled.inj he
  have hp : p ∈ w.created := h.returned _ hret
  obtain ⟨hpending, hwaiting⟩ : p ∉ w.pending ∧ p ∉ w.waiting := htime hret
  rcases List.mem_append.mp (h.inv.core.ledger.mem_iff.mp hp) with hp | hp
  · rcases List.mem_append.mp hp with hp | hp
    · rcases List.mem_append.mp hp with hp | hp
      · exact absurd hp hpending
      · exact .inr ⟨hk.running ▸ hp, hk.waiting ▸ hwaiting, hrunning p hp ⟨rfl, rfl⟩⟩
    · exact .inl (hqueued p hp ⟨rfl, rfl⟩)
  · exact .inl (hk.freed hp)

/-- The callback that starts is that of a timer still waiting, so of none that is gone. -/
theorem runTimer (h : w.CancelInv) {b : Batch} (hb : w.batch = some b) {it : Entry}
    {rest : List Entry} (hrest : b.rest = it :: rest) (hw : w.exec .runTimer = some w') :
    w'.CancelInv := by
  obtain ⟨w₁, hw₁, hi', hcreated, hfreed, hrunning, hwaiting, hcanceling, htrace⟩ :=
    h.inv.runTimer hb hrest
  rw [hw] at hw₁
  obtain rfl := Option.some.inj hw₁
  refine h.extend hi' (hcreated ▸ List.Subset.refl _) (fun p hp => ?_) htrace nofun
    (fun p he hp => ?_) nofun
  · rw [Gone, hfreed, hrunning, hcanceling]
    refine hp.imp_right fun ⟨hrun, hwait, hc⟩ => ⟨hrun, fun hm => hwait ?_, hc⟩
    rw [hwaiting]
    exact List.mem_cons_of_mem _ hm
  · obtain rfl := Event.started.inj he
    have hmem : it ∈ b.expired := (h.inv.rest b hb).subset (hrest ▸ List.mem_cons_self)
    have hlive := h.inv.owned.live it.second
      (List.mem_append_left _ (List.mem_append_right _ (Inv.mem_running hb hmem)))
    rcases h.gone _ hp with hf | ⟨-, hwait, -⟩
    · obtain ⟨t, ht⟩ := hlive
      rw [h.inv.owned.dead _ hf] at ht
      exact nomatch ht
    · exact hwait (hwaiting ▸ List.mem_cons_self)

/-- The end of a batch frees the timers cancelled in it. -/
theorem handleReadEnd (h : w.CancelInv) {b : Batch} (hb : w.batch = some b)
    (hw : w.exec .handleReadEnd = some w') : w'.CancelInv := by
  obtain ⟨w₁, hw₁, hi', hcreated, hfreed, htrace, hplaced⟩ := h.inv.handleReadEnd hb
  rw [hw] at hw₁
  obtain rfl := Option.some.inj hw₁
  refine h.quiet hi' (hcreated ▸ List.Subset.refl _) (fun p hp => .inl ?_) htrace
  rcases hp with hf | ⟨hrun, -, hc⟩
  · exact hfreed hf
  · rw [running, hb] at hrun
    obtain ⟨e, he, rfl⟩ := List.mem_map.mp hrun
    rcases hplaced e he with ⟨⟨t, -, -, hnone⟩, -⟩ | ⟨-, hf⟩
    · exact absurd hnone hc
    · exact hf

end CancelInv

theorem cancelInv_step (w : World) (s : Step) (w' : World) (h : w.CancelInv) (htime : w.InTime s)
    (hstep : step w s = some w') : w'.CancelInv := by
  obtain ⟨hs, hw⟩ := step_some hstep
  have hsame : ∀ {w₁ : World}, w.exec s = some w₁ → w₁ = w' :=
    fun h₁ => Option.some.inj (h₁.symm.trans hw)
  cases s with
  | addTiemr t addr when_ interval =>
    cases t with
    | loop =>
      obtain ⟨w₁, hw₁, hi', hk, p, hp, htrace⟩ :=
        h.inv.addTiemr_loop when_ interval hs.2.1 hs.2.2
      obtain rfl := hsame hw₁
      exact h.returns hi' hk hp htrace
    | other =>
      obtain ⟨w₁, hw₁, hi', hk, htrace⟩ := h.inv.addTiemr_other when_ interval hs.2.1 hs.2.2
      obtain rfl := hsame hw₁
      exact h.quiet hi' hk.created (fun _ => hk.gone) htrace
  | queueAdd timer =>
    obtain ⟨w₁, hw₁, hi', hk, p, hp, htrace⟩ := h.inv.queueAdd hs
    obtain rfl := hsame hw₁
    exact h.returns hi' hk hp htrace
  | cancel t id =>
    cases t with
    | loop => exact h.cancelled (htime id rfl) hw
    | other =>
      obtain rfl := hsame rfl
      exact h.quiet (h.inv.queueCancel id) (List.Subset.refl _) (fun _ hp => hp) rfl
  | functor =>
    obtain ⟨f, fs, hf⟩ := List.exists_cons_of_ne_nil hs.2
    cases f with
    | addTimerInLoop timer =>
      obtain ⟨w₁, hw₁, hi', hk, htrace⟩ := h.inv.functor_add hf
      obtain rfl := hsame hw₁
      exact h.quiet hi' hk.created (fun _ => hk.gone) htrace
    | cancelInLoop id =>
      obtain ⟨hi₀, hw₀⟩ := h.inv.popCancel hf
      have hpending : pending { w with pendingFunctors_ := fs } = w.pending := by
        rw [pending, pending, hf]
        rfl
      have h₀ : CancelInv { w with pendingFunctors_ := fs } :=
        h.quiet hi₀ (List.Subset.refl _) (fun _ hp => hp) rfl
      refine h₀.cancelled (fun hret => ?_) (hw₀.symm.trans hw)
      rw [hpending]
      exact htime id (by rw [cancels, hf]; rfl) hret
  | handleRead now =>
    obtain ⟨w₁, hw₁, hi', hcreated, hfreed, htrace⟩ := h.inv.handleRead hs now
    obtain rfl := hsame hw₁
    refine h.quiet hi' (hcreated ▸ List.Subset.refl _) (fun p hp => .inl ?_) htrace
    rcases hp with hf | ⟨hrun, -⟩
    · exact hfreed ▸ hf
    · rw [running, show w.batch = none from hs] at hrun
      exact absurd hrun List.not_mem_nil
  | runTimer =>
    obtain ⟨b, hb, hne⟩ := hs
    obtain ⟨it, rest, hrest⟩ := List.exists_cons_of_ne_nil hne
    exact h.runTimer hb hrest hw
  | handleReadEnd =>
    obtain ⟨b, hb, -⟩ := hs
    exact h.handleReadEnd hb hw

/-- In every run whose cancels come in time, cancellation is final. -/
theorem cancel_final_of_inTime (steps : List Step) (hok : StepsMeet step InTime new steps) :
    ∀ w ∈ run step new steps, CancelFinal w.trace :=
  fun _ hw => (run_invariant step cancelInv_step cancelInv_new hok hw).final

/-- A queued timer is cancelled from another thread, and a repeating one by its own callback. -/
def cancelsInTime : List Step :=
  [.addTiemr .loop 64 10 ⟨true, 5⟩, .addTiemr .other 96 20 ⟨false, 0⟩, .queueAdd ⟨96, 2⟩,
    .functor, .cancel .other (timerId ⟨96, 2⟩), .functor, .handleRead 10, .runTimer,
    .cancel .loop (timerId ⟨64, 1⟩), .handleReadEnd, .handleRead 30, .handleReadEnd]

theorem cancel_final_of_inTime_both :
    StepsMeet step InTime new cancelsInTime ∧
      ∃ w ∈ run step new cancelsInTime, w.freed.length = 2 ∧ CancelFinal w.trace := by
  have hok : StepsMeet step InTime new cancelsInTime := by decide
  have hrun : ∃ w ∈ run step new cancelsInTime, w.freed.length = 2 := by decide
  obtain ⟨w, hw, hlen⟩ := hrun
  exact ⟨hok, w, hw, hlen, cancel_final_of_inTime cancelsInTime hok w hw⟩

/-- Two timers expire in one batch; the callback of the first cancels the second. -/
def cancelsWaiting : List Step :=
  [.addTiemr .loop 64 10 ⟨false, 0⟩, .addTiemr .loop 96 10 ⟨false, 0⟩, .handleRead 10,
    .runTimer, .cancel .loop (timerId ⟨96, 2⟩), .runTimer]

theorem cancel_final_fails_waiting :
    ¬ ∀ steps, ∀ w ∈ run step new steps, CancelFinal w.trace := by
  intro h
  have hrun : ∃ w ∈ run step new cancelsWaiting, w.trace =
      [.returned (timerId ⟨64, 1⟩), .returned (timerId ⟨96, 2⟩), .started ⟨64, 1⟩,
        .cancelled (timerId ⟨96, 2⟩)] ++ .started ⟨96, 2⟩ :: [] := by decide
  obtain ⟨w, hw, htrace⟩ := hrun
  refine h cancelsWaiting w hw _ _ _ htrace ⟨96, 2⟩ rfl ⟨[.returned (timerId ⟨64, 1⟩),
    .returned (timerId ⟨96, 2⟩), .started ⟨64, 1⟩], [], rfl, ?_⟩
  exact List.mem_cons_of_mem _ List.mem_cons_self

end World

end Cnet.Net.Timers
