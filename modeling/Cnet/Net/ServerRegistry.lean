import Cnet.Net.ServerLoops

/-!
# The registry of connections

While the server lives, `connections_` holds exactly the connections that have been
accepted and not yet removed, and every connection goes through its life in order.
`handleClose` asserts that the connection is open, so each calls its close callback at
most once.
-/

namespace Cnet.Net.Servers

open Cnet.Support

/-- The connection's history is one of `connectEstablished` in its own loop, event handlers
in that loop, and the first few of `ending`; or nothing has happened yet. -/
def Connection.InOrder (conn : Connection) (ending : List Event) : Prop :=
  conn.history = [] ∨
    ∃ k tail, tail <+: ending ∧ conn.history = World.opened conn.loop_ k ++ tail

/-- How a connection ends: it is closed, the one entry of it is erased, and it is destroyed
in its own loop. -/
def Connection.closes (conn : Connection) : List Event :=
  [.closeCallback, .erase 1, .connectDestroyed conn.loop_]

/-- How it ends when the server's destructor has taken it. -/
def Connection.isSwept (conn : Connection) : List Event := [.connectDestroyed conn.loop_]

namespace World

variable {s : Settings} {w w' : World} {c : Nat} {conn : Connection}

structure Registry (s : Settings) (w : World) : Prop where
  /-- `connections_` holds the connections from which no entry has been erased. -/
  entries : ∀ name c, w.connections_.lookup name = some c ↔
    ∃ conn, w.connections[c]? = some conn ∧ conn.name_ = name ∧ ∀ n, .erase n ∉ conn.history
  names : ∀ (c d : Nat) (connc connd : Connection), w.connections[c]? = some connc →
    w.connections[d]? = some connd → connc.name_ = connd.name_ → c = d
  order : ∀ (c : Nat) (conn : Connection), w.connections[c]? = some conn → conn.InOrder conn.closes
  /-- Every functor that a loop is to run next can be run: its asserts hold. -/
  functors : ∀ l f batch, w.position l = .functors (f :: batch) → w.isFree l = true →
    (w.step s (.functor l)).isSome = true
  /-- So do those of a close callback, which removes the connection at once in loop `0`. -/
  closeCallbacks : ∀ l c, w.closing l = some c → (w.step s (.closeCallback l)).isSome = true
  /-- When no functor waits, what was to happen has happened. -/
  drained : (∀ l, w.queue l = []) →
    ∀ (c : Nat) (conn : Connection), w.connections[c]? = some conn →
    .connectEstablished conn.loop_ ∈ conn.history ∧
      (.closeCallback ∈ conn.history → .connectDestroyed conn.loop_ ∈ conn.history)

/-- The condition on a step: the server is not destroyed. -/
def Undisturbed (_ : World) (a : Step) : Prop := a ≠ .destroy

instance (w : World) (a : Step) : Decidable (w.Undisturbed a) :=
  inferInstanceAs (Decidable (¬ a = .destroy))

section Server

theorem server_connectEstablished {l : Nat} (hs : w.connectEstablished l c = some w') :
    w'.server = w.server := by
  obtain ⟨conn, -, hs⟩ := Option.bind_eq_some_iff.mp hs
  obtain ⟨-, hs⟩ := bind_assert.mp hs
  obtain ⟨-, hs⟩ := bind_assert.mp hs
  obtain rfl := Option.some.inj hs
  rfl

theorem server_connectDestroyed {l : Nat} (hs : w.connectDestroyed l c = some w') :
    w'.server = w.server := by
  obtain ⟨conn, -, -, -, -, -, rfl⟩ := connectDestroyed_spec hs
  rfl

theorem server_removeConnectionInLoop (hs : w.removeConnectionInLoop c = some w') :
    w'.server = w.server := by
  rw [removeConnectionInLoop] at hs
  split at hs
  · obtain rfl := Option.some.inj hs
    rfl
  · obtain ⟨conn, -, hs⟩ := Option.bind_eq_some_iff.mp hs
    obtain ⟨-, hs⟩ := bind_assert.mp hs
    obtain rfl := Option.some.inj hs
    rfl

theorem server_runFunctor {l : Nat} {f : Functor} (hs : w.runFunctor l f = some w') :
    w'.server = w.server := by
  cases f with
  | connectEstablished c => exact server_connectEstablished hs
  | connectDestroyed c => exact server_connectDestroyed hs
  | removeConnectionInLoop c => exact server_removeConnectionInLoop hs

theorem server_closeCallback {l : Nat} (hs : w.closeCallback l c = some w') :
    w'.server = w.server := by
  obtain ⟨conn, -, hs⟩ := Option.bind_eq_some_iff.mp hs
  rw [removeConnection] at hs
  split at hs
  · obtain rfl := Option.some.inj hs
    rfl
  · split at hs
    · exact (server_removeConnectionInLoop hs).trans rfl
    · obtain rfl := Option.some.inj hs
      rfl

theorem server_newConnection (hs : w.newConnection s = some w') : w'.server = w.server := by
  rw [newConnection_eq] at hs
  obtain ⟨-, hs⟩ := bind_assert.mp hs
  split at hs
  · exact (server_connectEstablished hs).trans rfl
  · obtain rfl := Option.some.inj hs
    rfl

theorem server_handleClose {l : Nat} (hs : w.handleClose l c = some w') :
    w'.server = w.server := by
  obtain ⟨conn, -, hs⟩ := Option.bind_eq_some_iff.mp hs
  obtain ⟨-, hs⟩ := bind_assert.mp hs
  obtain ⟨-, hs⟩ := bind_assert.mp hs
  obtain rfl := Option.some.inj hs
  rfl

/-- A server that is not destroyed stays alive. -/
theorem alive_step (halive : w.server = .alive) {a : Step} (ha : w.Undisturbed a)
    (hs : w.step s a = some w') : w'.server = .alive := by
  have hnever : w.server ≠ .sweeping := by
    rw [halive]
    decide
  cases takes_of_step hs with
  | accept _ hs => exact (server_newConnection hs).trans halive
  | handleClose _ _ hs => exact (server_handleClose hs).trans halive
  | closeCallback _ hs => exact (server_closeCallback hs).trans halive
  | functor _ hs => exact (server_runFunctor hs).trans halive
  | poll | handleEvent | handled | drained | disconnecting | doPendingFunctors => exact halive
  | destroy => exact absurd rfl ha
  | sweep hsweeping => exact absurd hsweeping hnever
  | destroyed hsweeping => exact absurd hsweeping hnever

end Server

theorem mem_opened_erase {l k n : Nat} : .erase n ∉ opened l k := by
  simp [opened, List.mem_replicate]

/-- What has been removed, and only that, has left `connections_`. -/
theorem Life.listed_iff (h : w.Life c conn) (halive : w.server = .alive) :
    w.isListed conn.name_ c = true ↔ ∀ n, .erase n ∉ conn.history := by
  have hunswept : ∀ swept : Bool, (swept = true → w.server ≠ .alive) → swept = false := by
    rintro (_ | _) hswept
    · rfl
    · exact absurd halive (hswept rfl)
  cases h with
  | connecting swept hswept hstate hholds =>
    rw [hholds.listed, hholds.history, hunswept swept hswept]
    exact iff_of_true rfl fun n => List.not_mem_nil
  | up k swept hswept hstate hholds =>
    rw [hholds.listed, hholds.history, hunswept swept hswept]
    exact iff_of_true rfl fun n => mem_opened_erase
  | closing k swept hswept hstate hholds =>
    rw [hholds.listed, hholds.history, hunswept swept hswept]
    exact iff_of_true rfl fun n => mem_opened_erase
  | closed k hstate hholds =>
    rw [hholds.listed, hholds.history]
    refine iff_of_true rfl fun n hn => ?_
    rw [List.mem_append, or_iff_right mem_opened_erase] at hn
    simp at hn
  | removed k hstate hholds =>
    rw [hholds.listed, hholds.history]
    exact iff_of_false Bool.false_ne_true fun hn => hn 1 (by simp)
  | gone k hstate hholds =>
    rw [hholds.listed, hholds.history]
    exact iff_of_false Bool.false_ne_true fun hn => hn 1 (by simp)
  | swept k hstate hdead => exact absurd halive hdead

/-- The history of a connection, in every stage. -/
theorem Life.order (h : w.Life c conn) :
    conn.InOrder conn.closes ∨ w.server ≠ .alive ∧ conn.InOrder conn.isSwept := by
  cases h with
  | connecting swept hswept hstate hholds => exact .inl (.inl hholds.history)
  | up k swept hswept hstate hholds =>
    exact .inl (.inr ⟨k, [], List.nil_prefix, hholds.history.trans (List.append_nil _).symm⟩)
  | closing k swept hswept hstate hholds =>
    exact .inl (.inr ⟨k, [], List.nil_prefix, hholds.history.trans (List.append_nil _).symm⟩)
  | closed k hstate hholds =>
    exact .inl (.inr ⟨k, _, ⟨[.erase 1, .connectDestroyed conn.loop_], rfl⟩, hholds.history⟩)
  | removed k hstate hholds =>
    exact .inl (.inr ⟨k, _, ⟨[.connectDestroyed conn.loop_], rfl⟩, hholds.history⟩)
  | gone k hstate hholds => exact .inl (.inr ⟨k, _, List.prefix_refl _, hholds.history⟩)
  | swept k hstate hdead hholds =>
    exact .inr ⟨hdead, .inr ⟨k, _, List.prefix_refl _, hholds.history⟩⟩

theorem tasks_nil (h : ∀ l, w.queue l = []) (l c : Nat) : w.tasks l c = [] := by
  rw [tasks, h l, List.filter_nil]

theorem removals_nil (h : ∀ l, w.queue l = []) (c : Nat) : w.removals c = 0 := by
  rw [removals, h 0, List.count_nil]

/-- A connection for which nothing waits is up, half closed, or gone. -/
theorem Life.drained (h : w.Life c conn) (hempty : ∀ l, w.queue l = []) :
    .connectEstablished conn.loop_ ∈ conn.history ∧
      (.closeCallback ∈ conn.history → .connectDestroyed conn.loop_ ∈ conn.history) := by
  have htasks := tasks_nil hempty conn.loop_ c
  have hremovals := removals_nil hempty c
  have hestablished : ∀ k, Event.connectEstablished conn.loop_ ∈ opened conn.loop_ k :=
    fun k => List.mem_cons_self
  have hnotClosed : ∀ k, Event.closeCallback ∉ opened conn.loop_ k := by
    intro k
    simp [opened, List.mem_replicate]
  cases h with
  | connecting swept hswept hstate hholds =>
    exact absurd (hholds.tasks.symm.trans htasks) (List.cons_ne_nil _ _)
  | up k swept hswept hstate hholds =>
    rw [hholds.history]
    exact ⟨hestablished k, fun hc => absurd hc (hnotClosed k)⟩
  | closing k swept hswept hstate hholds =>
    rw [hholds.history]
    exact ⟨hestablished k, fun hc => absurd hc (hnotClosed k)⟩
  | closed k hstate hholds => exact absurd (hholds.removals.symm.trans hremovals) (by decide)
  | removed k hstate hholds =>
    exact absurd (hholds.tasks.symm.trans htasks) (List.cons_ne_nil _ _)
  | gone k hstate hholds =>
    rw [hholds.history]
    exact ⟨List.mem_append_left _ (hestablished k), fun _ => by simp⟩
  | swept k hstate hdead hholds =>
    rw [hholds.history]
    exact ⟨List.mem_append_left _ (hestablished k), fun _ => by simp⟩

theorem Inv.registry (h : w.Inv s) (halive : w.server = .alive) : w.Registry s where
  entries name c := by
    constructor
    · intro hlookup
      obtain ⟨hlt, hname⟩ := h.base.entry name c hlookup
      have hc := List.getElem?_eq_getElem hlt
      have hconn := h.base.named c _ hc
      refine ⟨_, hc, hconn.trans hname.symm, ?_⟩
      refine ((h.life c _ hc).listed_iff halive).mp (decide_eq_true ?_)
      rw [hconn, ← hname]
      exact hlookup
    · rintro ⟨conn, hc, rfl, hnone⟩
      exact lookup_of_listed (((h.life c conn hc).listed_iff halive).mpr hnone)
  names c d connc connd hc hd hname := by
    rw [h.base.named c connc hc, h.base.named d connd hd] at hname
    have hcount := h.base.count
    have hbounded := h.base.bounded
    have hlt := lt_of_getElem? hc
    have hlt' := lt_of_getElem? hd
    exact Nat.succ.inj (connName_injective (by omega) (by omega) hname)
  order c conn hc := (h.life c conn hc).order.resolve_right fun hswept => hswept.1 halive
  functors l f batch hp hfree := by
    obtain ⟨v, hv⟩ := h.functor_runs halive hp
    simp only [World.step, hp]
    rw [if_pos hfree, hv]
    rfl
  closeCallbacks l c hclosing := by
    obtain ⟨v, hv, -⟩ := h.closeCallback halive hclosing
    have hsweeping : w.server ≠ .sweeping := by
      rw [halive]
      decide
    simp only [World.step, hclosing]
    rw [if_pos (.inr hsweeping), hv]
    rfl
  drained hempty c conn hc := (h.life c conn hc).drained hempty

/-- In every state of every run in which the server is not destroyed, the registry is
right. -/
theorem registry_consistent (s : Settings) (steps : List Step)
    (hok : StepsMeet (World.step s) Undisturbed new steps) :
    ∀ w ∈ run (World.step s) new steps, w.Registry s := by
  intro w hrun
  have hstep : ∀ (v : World) (a : Step) (v' : World), (v.Inv s ∧ v.server = .alive) →
      v.Undisturbed a → v.step s a = some v' → v'.Inv s ∧ v'.server = .alive := by
    rintro v a v' ⟨hinv, halive⟩ ha hs
    have horderly : v.Orderly a := by
      cases a with
      | destroy => exact absurd rfl ha
      | closeCallback l => exact halive
      | accept | poll l activeChannels | handleEvent l | handleClose l c | returned l
      | disconnecting c | doPendingFunctors l | functor l | sweep name | destroyed =>
        exact True.intro
    exact ⟨hinv.step horderly hs, alive_step halive ha hs⟩
  obtain ⟨hinv, halive⟩ := run_invariant (World.step s) hstep ⟨inv_new s, rfl⟩ hok hrun
  exact hinv.registry halive

/-- A server with two I/O loops. -/
def twoThreads : Settings := ⟨"server", "127.0.0.1:80", 2, by decide⟩

/-- Two connections are accepted; the first is established, closed by its peer, removed and
destroyed before the other is established. -/
def closedByPeer : List Step :=
  [.poll 0 [], .accept, .accept,
    .poll 1 [], .doPendingFunctors 1, .functor 1, .returned 1,
    .poll 1 [0], .handleEvent 1, .handleClose 1 0, .closeCallback 1, .returned 1,
    .doPendingFunctors 0, .functor 0, .returned 0,
    .doPendingFunctors 1, .functor 1, .returned 1]

theorem registry_consistent_closedByPeer :
    StepsMeet (World.step twoThreads) Undisturbed new closedByPeer ∧
      ∃ w ∈ run (World.step twoThreads) new closedByPeer,
        w.connections.map Connection.history = [[.connectEstablished 1, .handleEvent 1,
          .closeCallback, .erase 1, .connectDestroyed 1], []] ∧ w.Registry twoThreads := by
  have hok : StepsMeet (World.step twoThreads) Undisturbed new closedByPeer := by decide
  have hrun : ∃ w ∈ run (World.step twoThreads) new closedByPeer,
      w.connections.map Connection.history = [[.connectEstablished 1, .handleEvent 1,
        .closeCallback, .erase 1, .connectDestroyed 1], []] := by decide
  obtain ⟨w, hw, hhistory⟩ := hrun
  exact ⟨hok, w, hw, hhistory, registry_consistent twoThreads closedByPeer hok w hw⟩

end World

end Cnet.Net.Servers
