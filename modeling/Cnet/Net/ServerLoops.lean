import Cnet.Support.Runs
import Cnet.Net.ServerSteps

/-!
# The loops of the server

What a loop does next, a functor or a handler, keeps the invariant; a functor of a
connection finds it in the stage that the functor is for. The step lemma holds for orderly
steps: the destructor is where runs go wrong.
-/

namespace Cnet.Net.Servers

open Cnet.Support

namespace World

variable {s : Settings} {w w' : World} {c : Nat} {conn : Connection}

section Functors

variable {l : Nat} {batch rest : List Functor}

theorem exists_of_owns (h : w.loopOf c = some l) :
    ∃ conn, w.connections[c]? = some conn ∧ conn.loop_ = l := Option.map_eq_some_iff.mp h

theorem queue_head {f : Functor} (hp : w.position l = .functors (f :: batch)) :
    f ∈ w.queue l := by
  rw [queue, hp]
  exact List.mem_append_left _ List.mem_cons_self

theorem destroying_eq {swept : Bool} (h : destroying swept c = .connectDestroyed c :: rest) :
    swept = true ∧ rest = [] := by
  cases swept with
  | true => exact ⟨rfl, (List.cons.inj h).2.symm⟩
  | false => exact absurd h.symm (List.cons_ne_nil _ _)

theorem destroying_ne {swept : Bool} (h : destroying swept c = .connectEstablished c :: rest) :
    False := by
  cases swept with
  | true => exact absurd (List.cons.inj h).1 (by simp)
  | false => exact absurd h.symm (List.cons_ne_nil _ _)

/-- A `connectEstablished` functor runs while the connection is connecting. -/
theorem Inv.runEstablished (h : w.Inv s)
    (hp : w.position l = .functors (.connectEstablished c :: batch)) :
    ∃ w', (w.setPosition l (.functors batch)).connectEstablished l c = some w' ∧ w'.Inv s := by
  obtain ⟨conn, hc, rfl⟩ := exists_of_owns (h.base.owned l _ (queue_head hp))
  have hbut := (h.but c).functors hp rfl
  cases h.life c conn hc with
  | connecting swept hswept hstate hholds =>
    obtain ⟨rest, htasks, hholds'⟩ := hholds.runTask hp rfl
    obtain rfl := (List.cons.inj htasks).2
    exact hbut.connectEstablished hc hswept hstate hholds'
  | up k swept hswept hstate hholds =>
    obtain ⟨rest, htasks, -⟩ := hholds.runTask hp rfl
    exact (destroying_ne htasks).elim
  | closing k swept hswept hstate hholds =>
    obtain ⟨rest, htasks, -⟩ := hholds.runTask hp rfl
    exact (destroying_ne htasks).elim
  | closed k hstate hholds =>
    exact (hholds.no_task hp rfl).elim
  | removed k hstate hholds =>
    obtain ⟨rest, htasks, -⟩ := hholds.runTask hp rfl
    exact absurd (List.cons.inj htasks).1 (by simp)
  | gone k hstate hholds =>
    exact (hholds.no_task hp rfl).elim
  | swept k hstate hdead hholds =>
    exact (hholds.no_task hp rfl).elim

/-- A `connectDestroyed` functor runs when the connection is leaving. -/
theorem Inv.runDestroyed (h : w.Inv s)
    (hp : w.position l = .functors (.connectDestroyed c :: batch)) :
    ∃ conn, w.connections[c]? = some conn ∧ conn.loop_ = l ∧
      (w.setPosition l (.functors batch)).Leaving c conn := by
  obtain ⟨conn, hc, rfl⟩ := exists_of_owns (h.base.owned l _ (queue_head hp))
  refine ⟨conn, hc, rfl, ?_⟩
  cases h.life c conn hc with
  | connecting swept hswept hstate hholds =>
    obtain ⟨rest, htasks, -⟩ := hholds.runTask hp rfl
    exact absurd (List.cons.inj htasks).1 (by simp)
  | up k swept hswept hstate hholds =>
    obtain ⟨rest, htasks, hholds'⟩ := hholds.runTask hp rfl
    obtain ⟨rfl, rfl⟩ := destroying_eq htasks
    refine .swept k (hswept rfl) true (fun hn => ?_) (fun _ => rfl) hholds'
    rcases hstate with hstate | hstate <;> exact absurd (hstate.symm.trans hn) (by decide)
  | closing k swept hswept hstate hholds =>
    obtain ⟨rest, htasks, hholds'⟩ := hholds.runTask hp rfl
    obtain ⟨rfl, rfl⟩ := destroying_eq htasks
    refine .swept k (hswept rfl) false (fun hn => ?_) (fun hn => ?_) hholds'
    · exact absurd (hstate.symm.trans hn) (by decide)
    · exact absurd (hstate.symm.trans hn) (by decide)
  | closed k hstate hholds =>
    exact (hholds.no_task hp rfl).elim
  | removed k hstate hholds =>
    obtain ⟨rest, htasks, hholds'⟩ := hholds.runTask hp rfl
    obtain rfl := (List.cons.inj htasks).2
    exact .removed k hstate hholds'
  | gone k hstate hholds =>
    exact (hholds.no_task hp rfl).elim
  | swept k hstate hdead hholds =>
    exact (hholds.no_task hp rfl).elim

/-- Only the removal of a closed connection waits. -/
theorem Life.of_removals (h : w.Life c conn) (hne : w.removals c ≠ 0) :
    conn.state_ = .kDisconnected ∧ ∃ k,
      w.Holds c conn false true (opened conn.loop_ k ++ [.closeCallback]) true [] 1 := by
  cases h with
  | closed k hstate hholds => exact ⟨hstate, k, hholds⟩
  | connecting swept hswept hstate hholds => exact absurd hholds.removals hne
  | up k swept hswept hstate hholds => exact absurd hholds.removals hne
  | closing k swept hswept hstate hholds => exact absurd hholds.removals hne
  | removed k hstate hholds => exact absurd hholds.removals hne
  | gone k hstate hholds => exact absurd hholds.removals hne
  | swept k hstate hdead hholds => exact absurd hholds.removals hne

/-- A removal runs, in loop `0` and with the server alive, when the connection is closed. -/
theorem Inv.runRemoval (h : w.Inv s)
    (hp : w.position l = .functors (.removeConnectionInLoop c :: batch)) :
    ∃ w', (w.setPosition l (.functors batch)).removeConnectionInLoop c = some w' ∧ w'.Inv s := by
  have hmem := queue_head hp
  obtain ⟨rfl, hsome⟩ := h.base.owned l _ hmem
  obtain ⟨loop, hloop⟩ := Option.isSome_iff_exists.mp hsome
  obtain ⟨conn, hc, -⟩ := exists_of_owns hloop
  have halive : w.server = .alive := by
    by_contra hdead
    exact h.base.dead hdead c hmem
  have hne : w.removals c ≠ 0 := Nat.ne_of_gt (List.count_pos_iff.mpr hmem)
  obtain ⟨hstate, k, hholds⟩ := (h.life c conn hc).of_removals hne
  obtain ⟨rest, hrest, hholds'⟩ := hholds.runRemoval hp
  obtain rfl := Nat.succ.inj hrest
  exact ((h.but c).functors hp rfl).removeConnectionInLoop halive hc hstate hholds'

theorem Inv.functor (h : w.Inv s) {f : Functor} (hp : w.position l = .functors (f :: batch))
    (hs : (w.setPosition l (.functors batch)).runFunctor l f = some w') : w'.Inv s := by
  cases f with
  | connectEstablished c =>
    obtain ⟨v, hv, hinv⟩ := h.runEstablished hp
    obtain rfl := Option.some.inj (hs.symm.trans hv)
    exact hinv
  | connectDestroyed c =>
    obtain ⟨conn, hc, -, hleaving⟩ := h.runDestroyed hp
    exact ((h.but c).functors hp rfl).connectDestroyed hc hleaving hs
  | removeConnectionInLoop c =>
    obtain ⟨v, hv, hinv⟩ := h.runRemoval hp
    obtain rfl := Option.some.inj (hs.symm.trans hv)
    exact hinv

/-- While the server is alive every functor runs to its end: its asserts hold. -/
theorem Inv.functor_runs (h : w.Inv s) (halive : w.server = .alive) {f : Functor}
    (hp : w.position l = .functors (f :: batch)) :
    ∃ w', (w.setPosition l (.functors batch)).runFunctor l f = some w' := by
  cases f with
  | connectEstablished c =>
    obtain ⟨v, hv, -⟩ := h.runEstablished hp
    exact ⟨v, hv⟩
  | connectDestroyed c =>
    obtain ⟨conn, hc, rfl, hleaving⟩ := h.runDestroyed hp
    cases hleaving with
    | removed k hstate hholds =>
      have hremovable :
          (w.setPosition conn.loop_ (.functors batch)).removable conn.loop_ c = true := by
        rw [removable, position_setPosition]
      exact ⟨_, connectDestroyed_eq hc (.inr hholds.reading) hremovable hholds.added⟩
    | swept k hdead => exact absurd halive hdead
  | removeConnectionInLoop c =>
    obtain ⟨v, hv, -⟩ := h.runRemoval hp
    exact ⟨v, hv⟩

end Functors

theorem Inv.frame (h : w.Inv s) (hbase : w'.Base s) (hothers : ∀ d, Untouched d w w') :
    w'.Inv s where
  base := hbase
  life d conn hd := by
    have hu := hothers d
    rw [hu.connection] at hd
    exact (h.life d conn hd).frame hu

/-- A connection that is watched, or in one of the two open states, is up. -/
theorem Life.of_open (h : w.Life c conn)
    (hopen : conn.isReading = true ∨ conn.state_ = .kConnected ∨ conn.state_ = .kDisconnecting) :
    (conn.state_ = .kConnected ∨ conn.state_ = .kDisconnecting) ∧
      ∃ k swept, (swept = true → w.server ≠ .alive) ∧
        w.Holds c conn true true (opened conn.loop_ k) (!swept) (destroying swept c) 0 := by
  have hstill : conn.isReading = false → conn.state_ = .kConnecting ∨ conn.state_ = .kDisconnected →
      False := by
    rintro hreading hstate
    rcases hopen with ho | ho | ho
    · exact Bool.false_ne_true (hreading.symm.trans ho)
    · rcases hstate with hs | hs <;> exact absurd (hs.symm.trans ho) (by decide)
    · rcases hstate with hs | hs <;> exact absurd (hs.symm.trans ho) (by decide)
  cases h with
  | up k swept hswept hstate hholds => exact ⟨hstate, k, swept, hswept, hholds⟩
  | connecting swept hswept hstate hholds => exact (hstill hholds.reading (.inl hstate)).elim
  | closing k swept hswept hstate hholds => exact (hstill hholds.reading (.inr hstate)).elim
  | closed k hstate hholds => exact (hstill hholds.reading (.inr hstate)).elim
  | removed k hstate hholds => exact (hstill hholds.reading (.inr hstate)).elim
  | gone k hstate hholds => exact (hstill hholds.reading (.inr hstate)).elim
  | swept k hstate hdead hholds => exact (hstill hholds.reading (.inr hstate)).elim

section Loop

variable {l : Nat}

theorem closing_of_isFree (h : w.isFree l = true) : w.closing l = none := by
  rw [isFree, Bool.and_eq_true, Option.isNone_iff_eq_none] at h
  exact h.2

theorem Inv.setPosition (h : w.Inv s) {p : Position} (hbatch : p.batch = (w.position l).batch)
    (hhandling : (w.setPosition l p).Handling l) : (w.setPosition l p).Inv s := by
  have hqueue := queue_setPosition (w := w) hbatch
  refine h.frame (h.base.setPosition (fun m => ?_) hhandling)
    fun d => Untouched.of_queue_eq rfl rfl hqueue rfl
  rw [hqueue m]
  exact List.Subset.refl _

/-- `handleEvent` of the next channel: its connection is up. -/
theorem Inv.handleEvent (h : w.Inv s) (hfree : w.isFree l = true)
    {activeChannels todo : List Nat} (hp : w.position l = .handling activeChannels (c :: todo))
    (hc : w.connections[c]? = some conn) :
    Inv s ((w.setConnection c
      { conn with history := conn.history ++ [.handleEvent l] }).setPosition l
        (.handler activeChannels c todo)) := by
  have hhandling := h.base.handling l
  have hmem : c ∈ (w.position l).todo := by
    rw [hp]
    exact List.mem_cons_self
  have hready := hhandling.ready c hmem
  obtain rfl := loop_of_isReady hc hready
  have hwatched : conn.addedToLoop_ = true ∧ conn.isReading = true := by
    rw [isReady, hc] at hready
    simp only [Option.any_some, Bool.and_eq_true] at hready
    exact ⟨hready.1.2, hready.2⟩
  obtain ⟨hstate, k, swept, hswept, hholds⟩ := (h.life c conn hc).of_open (.inl hwatched.2)
  set handled : Connection := { conn with history := conn.history ++ [.handleEvent conn.loop_] }
    with hhandled
  have hbut : (w.setConnection c handled).InvBut s c :=
    (h.but c).setConnection hc rfl rfl (fun _ => hwatched) fun _ hcl =>
      absurd ((closing_of_isFree hfree).symm.trans hcl) (Option.some_ne_none c).symm
  have hhistory : handled.history = opened conn.loop_ (k + 1) := by
    rw [hhandled, hholds.history, opened_succ]
  have hinv := hbut.inv (getElem?_setConnection_self hc _) (.up (k + 1) swept hswept hstate
    (hholds.setConnection handled rfl rfl hholds.reading hholds.added hhistory))
  refine hinv.setPosition (by rw [World.setConnection]; dsimp only; rw [hp]; rfl) ?_
  have hnodup := hhandling.nodup
  have hactive := hhandling.active
  have hothers := (hinv.base.handling conn.loop_).ready
  rw [World.setConnection] at hothers
  dsimp only at hothers
  rw [hp] at hnodup hactive hothers
  refine ⟨?_, ?_, ?_, ?_⟩
  · rw [position_setPosition]
    exact (List.nodup_cons.mp hnodup).2
  · rw [position_setPosition]
    exact fun d hd => hactive d (List.mem_cons_of_mem c hd)
  · rw [position_setPosition]
    exact fun d hd => hothers d (List.mem_cons_of_mem c hd)
  · rw [position_setPosition]
    rintro d ⟨⟩
    exact (List.nodup_cons.mp hnodup).1

/-- The first half of `handleClose`. Its channel has no more event to be handled. -/
theorem Inv.handleClose (h : w.Inv s) (hfree : w.isFree l = true) (hnot : c ∉ (w.position l).todo)
    (hs : w.handleClose l c = some w') : w'.Inv s := by
  obtain ⟨conn, hc, hs⟩ := Option.bind_eq_some_iff.mp hs
  obtain ⟨rfl, hs⟩ := bind_assert.mp hs
  obtain ⟨hopen, hs⟩ := bind_assert.mp hs
  obtain rfl := Option.some.inj hs
  obtain ⟨hstate, k, swept, hswept, hholds⟩ := (h.life c conn hc).of_open (.inr hopen)
  set closing : Connection := { conn with state_ := .kDisconnected, isReading := false }
    with hclosing
  have hc' := getElem?_setConnection_self hc closing
  have hbut : (w.setConnection c closing).InvBut s c :=
    (h.but c).setConnection hc rfl rfl (fun hmem => absurd hmem hnot) fun _ hcl =>
      absurd ((closing_of_isFree hfree).symm.trans hcl) (Option.some_ne_none c).symm
  have hholds' := hholds.setConnection closing rfl rfl rfl hholds.added hholds.history
  have hbase : ((w.setConnection c closing).setClosing closing.loop_ (some c)).Base s :=
    hbut.base.setClosing closing.loop_ fun d hd => by
      obtain rfl := Option.some.inj hd
      exact ⟨loopOf_eq hc', fun _ => ⟨closing, _, hc', rfl, hholds.history⟩⟩
  exact (hbut.inv hc' (.closing k swept hswept rfl hholds')).frame hbase
    fun d => Untouched.of_queue_eq rfl rfl (fun _ => rfl) rfl

/-- `shutdown` or `forceClose` of a connection. -/
theorem Inv.disconnecting (h : w.Inv s) (hc : w.connections[c]? = some conn)
    (hstate : conn.state_ = .kConnected) :
    (w.setConnection c { conn with state_ := .kDisconnecting }).Inv s := by
  obtain ⟨-, k, swept, hswept, hholds⟩ := (h.life c conn hc).of_open (.inr (.inl hstate))
  have hclosing : w.server = .alive → w.closing conn.loop_ ≠ some c := by
    intro ha hcl
    obtain ⟨conn', k', hc', hstate', -⟩ := (h.base.closing _ _ hcl).2 ha
    obtain rfl := Option.some.inj (hc.symm.trans hc')
    exact absurd (hstate.symm.trans hstate') (by decide)
  set disconnecting : Connection := { conn with state_ := .kDisconnecting }
  have hbut : (w.setConnection c disconnecting).InvBut s c :=
    (h.but c).setConnection hc rfl rfl (fun _ => ⟨hholds.added, hholds.reading⟩)
      fun ha hcl => absurd hcl (hclosing ha)
  exact hbut.inv (getElem?_setConnection_self hc _) (.up k swept hswept (.inr rfl)
    (hholds.setConnection disconnecting rfl rfl hholds.reading hholds.added hholds.history))

/-- `poll` reports channels that are watched. -/
theorem Inv.poll (h : w.Inv s) (hp : w.position l = .polling) {activeChannels : List Nat}
    (hnodup : activeChannels.Nodup) (hready : ∀ c ∈ activeChannels, w.isReady l c = true) :
    (w.setPosition l (.handling activeChannels activeChannels)).Inv s := by
  refine h.setPosition (by rw [hp]; rfl) ?_
  refine ⟨?_, ?_, ?_, ?_⟩ <;> rw [position_setPosition]
  · exact hnodup
  · exact fun c hc => hc
  · exact hready
  · exact fun c hc => absurd hc.symm (Option.some_ne_none c)

/-- `handleEvent` of a connection returns. -/
theorem Inv.handled (h : w.Inv s) {activeChannels todo : List Nat}
    (hp : w.position l = .handler activeChannels c todo) :
    (w.setPosition l (.handling activeChannels todo)).Inv s := by
  refine h.setPosition (by rw [hp]; rfl) ?_
  have hhandling := h.base.handling l
  have hnodup := hhandling.nodup
  have hactive := hhandling.active
  have hready := hhandling.ready
  rw [hp] at hnodup hactive hready
  refine ⟨?_, ?_, ?_, ?_⟩ <;> rw [position_setPosition]
  · exact hnodup
  · exact hactive
  · exact hready
  · exact fun c hc => absurd hc.symm (Option.some_ne_none c)

theorem Inv.doPendingFunctors (h : w.Inv s) {activeChannels : List Nat}
    (hp : w.position l = .handling activeChannels []) :
    Inv s { w.setPosition l (.functors (w.pendingFunctors_ l)) with
      pendingFunctors_ := Function.update w.pendingFunctors_ l [] } := by
  have hqueue := queue_doPendingFunctors hp
  refine h.frame ?_ fun d => Untouched.of_queue_eq rfl rfl hqueue rfl
  exact {
    count := h.base.count
    bounded := h.base.bounded
    named := h.base.named
    entry := h.base.entry
    owned := fun m f hf => (h.base.owned m f (hqueue m ▸ hf)).mono fun _ => rfl
    handling := fun m => by
      by_cases hm : m = l
      · subst hm
        refine .of_todo_nil ?_
        show ((w.setPosition m _).position m).todo = []
        rw [position_setPosition]
        rfl
      · have hother := (h.base.handling m).setPosition (p := .functors (w.pendingFunctors_ l)) hm
        exact ⟨hother.nodup, hother.active, hother.ready, hother.current⟩
    closing := h.base.closing
    dead := fun hdead c hmem => h.base.dead hdead c (hqueue 0 ▸ hmem)
    emptied := h.base.emptied
    dangling := h.base.dangling }

end Loop

/-- The server is no longer alive. -/
theorem Inv.setServer (h : w.Inv s) {server : Server} (hne : server ≠ .alive)
    (hnone : ∀ c, .removeConnectionInLoop c ∉ w.queue 0)
    (hempty : server = .destroyed → w.connections_.entries = []) :
    Inv s { w with server := server } := by
  refine h.frame ?_ fun d => ⟨rfl, fun _ => rfl, fun _ => rfl, rfl, fun ha => absurd ha hne⟩
  exact {
    count := h.base.count
    bounded := h.base.bounded
    named := h.base.named
    entry := h.base.entry
    owned := fun m f hf => (h.base.owned m f hf).mono fun _ => rfl
    handling := fun m => ⟨(h.base.handling m).nodup, (h.base.handling m).active,
      (h.base.handling m).ready, (h.base.handling m).current⟩
    closing := fun m d hd => ⟨(h.base.closing m d hd).1, fun ha => absurd ha hne⟩
    dead := fun _ => hnone
    emptied := fun hd name => by
      show List.dlookup name w.connections_.entries = none
      rw [hempty hd, List.dlookup_nil]
    dangling := h.base.dangling }

/-- The condition on a step: the destructor begins while no removal waits in loop `0`, and
no close callback is called once it has begun. -/
def Orderly (w : World) : Step → Prop
  | .destroy => ∀ f ∈ w.queue 0, f.task ≠ none
  | .closeCallback _ => w.server = .alive
  | _ => True

/-- The steps that are enabled, each with what its guard says and where it leads. -/
inductive Takes (s : Settings) (w : World) : Step → World → Prop
  | accept {w' : World} (halive : w.server = .alive) (hs : w.newConnection s = some w') :
      Takes s w .accept w'
  | poll {l : Nat} {activeChannels : List Nat} (hp : w.position l = .polling)
      (hnodup : activeChannels.Nodup) (hready : ∀ c ∈ activeChannels, w.isReady l c = true) :
      Takes s w (.poll l activeChannels) (w.setPosition l (.handling activeChannels activeChannels))
  | handleEvent {l c : Nat} {conn : Connection} {activeChannels todo : List Nat}
      (hfree : w.isFree l = true) (hp : w.position l = .handling activeChannels (c :: todo))
      (hc : w.connections[c]? = some conn) :
      Takes s w (.handleEvent l) ((w.setConnection c
        { conn with history := conn.history ++ [.handleEvent l] }).setPosition l
          (.handler activeChannels c todo))
  /-- From the handler of the connection itself, or from a functor. -/
  | handleClose {l c : Nat} {w' : World} (hfree : w.isFree l = true)
      (hp : (w.position l).current = some c ∨ (w.position l).todo = [])
      (hs : w.handleClose l c = some w') : Takes s w (.handleClose l c) w'
  | closeCallback {l c : Nat} {w' : World} (hclosing : w.closing l = some c)
      (hs : w.closeCallback l c = some w') : Takes s w (.closeCallback l) w'
  | handled {l c : Nat} {activeChannels todo : List Nat}
      (hp : w.position l = .handler activeChannels c todo) :
      Takes s w (.returned l) (w.setPosition l (.handling activeChannels todo))
  | drained {l : Nat} (hp : w.position l = .functors []) :
      Takes s w (.returned l) (w.setPosition l .polling)
  | disconnecting {c : Nat} {conn : Connection} (hc : w.connections[c]? = some conn)
      (hstate : conn.state_ = .kConnected) :
      Takes s w (.disconnecting c) (w.setConnection c { conn with state_ := .kDisconnecting })
  | doPendingFunctors {l : Nat} {activeChannels : List Nat}
      (hp : w.position l = .handling activeChannels []) :
      Takes s w (.doPendingFunctors l) { w.setPosition l (.functors (w.pendingFunctors_ l)) with
        pendingFunctors_ := Function.update w.pendingFunctors_ l [] }
  | functor {l : Nat} {f : Functor} {batch : List Functor} {w' : World}
      (hp : w.position l = .functors (f :: batch))
      (hs : (w.setPosition l (.functors batch)).runFunctor l f = some w') :
      Takes s w (.functor l) w'
  | destroy (halive : w.server = .alive) : Takes s w .destroy { w with server := .sweeping }
  | sweep {name : String} {w' : World} (hsweeping : w.server = .sweeping)
      (hs : w.sweep name = some w') : Takes s w (.sweep name) w'
  | destroyed (hsweeping : w.server = .sweeping) (hempty : w.connections_.entries = []) :
      Takes s w .destroyed { w with server := .destroyed }

theorem takes_of_step {a : Step} (hs : w.step s a = some w') : w.Takes s a w' := by
  cases a with
  | accept =>
    simp only [World.step] at hs
    split at hs
    · obtain ⟨⟨-, halive⟩, hs⟩ := Option.ite_none_right_eq_some.mp hs
      exact .accept halive hs
    · exact absurd hs.symm (Option.some_ne_none _)
  | poll l activeChannels =>
    obtain ⟨⟨-, hp, hnodup, hready⟩, rfl⟩ := eq_of_guarded hs
    exact .poll hp hnodup hready
  | handleEvent l =>
    simp only [World.step] at hs
    split at hs
    next activeChannels c todo hp =>
      obtain ⟨hfree, hs⟩ := bind_assert.mp hs
      obtain ⟨conn, hc, hs⟩ := Option.bind_eq_some_iff.mp hs
      obtain rfl := Option.some.inj hs
      exact .handleEvent hfree hp hc
    next => exact absurd hs.symm (Option.some_ne_none _)
  | handleClose l c =>
    simp only [World.step] at hs
    split at hs
    next activeChannels current todo hp =>
      obtain ⟨⟨hfree, rfl⟩, hs⟩ := Option.ite_none_right_eq_some.mp hs
      refine .handleClose hfree (.inl ?_) hs
      rw [hp]
      rfl
    next batch hp =>
      obtain ⟨hfree, hs⟩ := Option.ite_none_right_eq_some.mp hs
      refine .handleClose hfree (.inr ?_) hs
      rw [hp]
      rfl
    next => exact absurd hs.symm (Option.some_ne_none _)
  | closeCallback l =>
    simp only [World.step] at hs
    split at hs
    next c hclosing => exact .closeCallback hclosing (Option.ite_none_right_eq_some.mp hs).2
    next => exact absurd hs.symm (Option.some_ne_none _)
  | returned l =>
    simp only [World.step] at hs
    split at hs
    next activeChannels c todo hp =>
      obtain ⟨-, rfl⟩ := eq_of_guarded hs
      exact .handled hp
    next hp =>
      obtain ⟨-, rfl⟩ := eq_of_guarded hs
      exact .drained hp
    next => exact absurd hs.symm (Option.some_ne_none _)
  | disconnecting c =>
    obtain ⟨conn, hc, hs⟩ := Option.bind_eq_some_iff.mp hs
    obtain ⟨hstate, hs⟩ := bind_assert.mp hs
    obtain rfl := Option.some.inj hs
    exact .disconnecting hc hstate
  | doPendingFunctors l =>
    simp only [World.step] at hs
    split at hs
    next activeChannels hp =>
      obtain ⟨-, rfl⟩ := eq_of_guarded hs
      exact .doPendingFunctors hp
    next => exact absurd hs.symm (Option.some_ne_none _)
  | functor l =>
    simp only [World.step] at hs
    split at hs
    next f batch hp => exact .functor hp (Option.ite_none_right_eq_some.mp hs).2
    next => exact absurd hs.symm (Option.some_ne_none _)
  | destroy =>
    obtain ⟨halive, rfl⟩ := eq_of_guarded hs
    exact .destroy halive
  | sweep name =>
    obtain ⟨hsweeping, hs⟩ := Option.ite_none_right_eq_some.mp hs
    exact .sweep hsweeping hs
  | destroyed =>
    obtain ⟨⟨hsweeping, hempty⟩, rfl⟩ := eq_of_guarded hs
    exact .destroyed hsweeping hempty

/-- The step lemma. -/
theorem Inv.step (h : w.Inv s) {a : Step} (ha : w.Orderly a) (hs : w.step s a = some w') :
    w'.Inv s := by
  cases takes_of_step hs with
  | accept halive hs => exact h.newConnection halive hs
  | poll hp hnodup hready => exact h.poll hp hnodup hready
  | handleEvent hfree hp hc => exact h.handleEvent hfree hp hc
  | @handleClose l c _ hfree hp hs =>
    refine h.handleClose hfree ?_ hs
    rcases hp with hcurrent | hnone
    · exact (h.base.handling l).current c hcurrent
    · rw [hnone]
      exact List.not_mem_nil
  | closeCallback hclosing hs =>
    obtain ⟨v, hv, hinv⟩ := h.closeCallback ha hclosing
    obtain rfl := Option.some.inj (hs.symm.trans hv)
    exact hinv
  | handled hp => exact h.handled hp
  | drained hp =>
    refine h.setPosition (by rw [hp]; rfl) (.of_todo_nil ?_)
    rw [position_setPosition]
    rfl
  | disconnecting hc hstate => exact h.disconnecting hc hstate
  | doPendingFunctors hp => exact h.doPendingFunctors hp
  | functor hp hs => exact h.functor hp hs
  | destroy halive =>
    exact h.setServer (by decide) (fun c hmem => ha _ hmem rfl) fun hd => absurd hd (by decide)
  | sweep hsweeping hs =>
    refine h.sweep ?_ hs
    rw [hsweeping]
    decide
  | destroyed hsweeping hempty =>
    refine h.setServer (by decide) (h.base.dead ?_) fun _ => hempty
    rw [hsweeping]
    decide

/-- The run lemma. -/
theorem inv_run {steps : List Step} (hok : StepsMeet (World.step s) Orderly new steps)
    (hrun : run (World.step s) new steps = some w) : w.Inv s :=
  run_invariant (World.step s) (fun _ _ _ hinv ha hs => hinv.step ha hs) (inv_new s) hok hrun

end World

end Cnet.Net.Servers
