import Cnet.Net.ServerRegistry

/-!
# The destructor of the server

`~TcpServer` has every connection destroyed in its own loop. A connection that is being
closed meanwhile still calls the server, directly and through the functor that it queues
in loop `0`; both hold a plain pointer. Runs are right in which neither comes after the
beginning of the destructor.
-/

namespace Cnet.Net.Servers

open Cnet.Support

namespace World

variable {s : Settings} {w w' : World} {c : Nat} {conn : Connection}

structure Teardown (w : World) : Prop where
  /-- `connectDestroyed` runs once at most, in the connection's own loop, and after
  `connectEstablished`. -/
  order : ∀ (c : Nat) (conn : Connection), w.connections[c]? = some conn →
    conn.InOrder conn.closes ∨ conn.InOrder conn.isSwept
  /-- After the destructor, and when no functor waits, it has run for every connection. -/
  drained : w.server = .destroyed → (∀ l, w.queue l = []) →
    ∀ (c : Nat) (conn : Connection), w.connections[c]? = some conn →
      .connectDestroyed conn.loop_ ∈ conn.history
  /-- The server is not called after its destructor. -/
  safe : w.dangling = []

instance (w : World) : (a : Step) → Decidable (w.Orderly a)
  | .destroy => inferInstanceAs (Decidable (∀ f ∈ w.queue 0, f.task ≠ none))
  | .closeCallback _ => inferInstanceAs (Decidable (w.server = .alive))
  | .accept | .poll _ _ | .handleEvent _ | .handleClose _ _ | .returned _ | .disconnecting _
  | .doPendingFunctors _ | .functor _ | .sweep _ | .destroyed => inferInstanceAs (Decidable True)

/-- A connection that has left `connections_`, and for which nothing waits, has been
destroyed. -/
theorem Life.destroyed (h : w.Life c conn) (hunlisted : w.isListed conn.name_ c = false)
    (hempty : ∀ l, w.queue l = []) : .connectDestroyed conn.loop_ ∈ conn.history := by
  have htasks := tasks_nil hempty conn.loop_ c
  have hleft : ∀ swept : Bool, w.isListed conn.name_ c = !swept →
      w.tasks conn.loop_ c = destroying swept c → False := by
    rintro (_ | _) hlisted hwaits
    · exact absurd (hunlisted.symm.trans hlisted) (by decide)
    · exact absurd (hwaits.symm.trans htasks) (List.cons_ne_nil _ _)
  cases h with
  | connecting swept hswept hstate hholds =>
    exact absurd (hholds.tasks.symm.trans htasks) (List.cons_ne_nil _ _)
  | up k swept hswept hstate hholds => exact (hleft swept hholds.listed hholds.tasks).elim
  | closing k swept hswept hstate hholds => exact (hleft swept hholds.listed hholds.tasks).elim
  | closed k hstate hholds => exact absurd (hunlisted.symm.trans hholds.listed) (by decide)
  | removed k hstate hholds =>
    exact absurd (hholds.tasks.symm.trans htasks) (List.cons_ne_nil _ _)
  | gone k hstate hholds =>
    rw [hholds.history]
    simp
  | swept k hstate hdead hholds =>
    rw [hholds.history]
    simp

theorem Inv.teardown (h : w.Inv s) : w.Teardown where
  order c conn hc := (h.life c conn hc).order.imp_right And.right
  drained hdestroyed hempty c conn hc := by
    refine (h.life c conn hc).destroyed ?_ hempty
    rw [isListed, h.base.emptied hdestroyed]
    rfl
  safe := h.base.dangling

/-- In every state of every run whose steps are orderly, the teardown is right. -/
theorem teardown_of_orderly (s : Settings) (steps : List Step)
    (hok : StepsMeet (World.step s) Orderly new steps) :
    ∀ w ∈ run (World.step s) new steps, w.Teardown :=
  fun _ hrun => (inv_run hok hrun).teardown

/-- Two connections are accepted, one is closed by its peer; the destructor begins when its
removal has run, and takes the other. -/
def destroyedLater : List Step :=
  closedByPeer ++ [.destroy, .sweep "server-127.0.0.1:80#2", .destroyed,
    .poll 2 [], .doPendingFunctors 2, .functor 2, .functor 2, .returned 2]

theorem teardown_of_orderly_destroyedLater :
    StepsMeet (World.step twoThreads) Orderly new destroyedLater ∧
      ∃ w ∈ run (World.step twoThreads) new destroyedLater,
        w.server = .destroyed ∧
          w.connections.map Connection.history = [[.connectEstablished 1, .handleEvent 1,
            .closeCallback, .erase 1, .connectDestroyed 1],
            [.connectEstablished 2, .connectDestroyed 2]] ∧
          w.Teardown := by
  have hok : StepsMeet (World.step twoThreads) Orderly new destroyedLater := by decide
  have hrun : ∃ w ∈ run (World.step twoThreads) new destroyedLater,
      w.server = .destroyed ∧
        w.connections.map Connection.history = [[.connectEstablished 1, .handleEvent 1,
          .closeCallback, .erase 1, .connectDestroyed 1],
          [.connectEstablished 2, .connectDestroyed 2]] := by decide
  obtain ⟨w, hw, hserver, hhistory⟩ := hrun
  exact ⟨hok, w, hw, hserver, hhistory, teardown_of_orderly twoThreads destroyedLater hok w hw⟩

/-- The peer of an established connection closes it, and the destructor begins before loop
`0` has run the removal. -/
def destroyedBeforeRemoval : List Step :=
  [.poll 0 [], .accept,
    .poll 1 [], .doPendingFunctors 1, .functor 1, .returned 1,
    .poll 1 [0], .handleEvent 1, .handleClose 1 0, .closeCallback 1, .returned 1,
    .destroy, .sweep "server-127.0.0.1:80#1", .destroyed,
    .doPendingFunctors 0, .functor 0]

theorem teardown_fails_beforeRemoval :
    ¬ ∀ s steps, ∀ w ∈ run (World.step s) new steps, w.Teardown := by
  intro h
  have hrun : ∃ w ∈ run (World.step twoThreads) new destroyedBeforeRemoval, w.dangling = [0] := by
    decide
  obtain ⟨w, hw, hdangling⟩ := hrun
  exact List.cons_ne_nil _ _ (hdangling.symm.trans (h twoThreads destroyedBeforeRemoval w hw).safe)

/-- A close callback after the destructor calls the destroyed server. -/
theorem dangling_of_closeCallback {l : Nat} (hclosing : w.closing l = some c)
    (hc : w.connections[c]? = some conn) (hdestroyed : w.server = .destroyed) :
    ∃ w' ∈ w.step s (.closeCallback l), ¬ w'.Teardown := by
  have hsweeping : w.server ≠ .sweeping := by
    rw [hdestroyed]
    decide
  simp only [World.step, hclosing]
  rw [if_pos (.inr hsweeping), World.closeCallback, hc]
  refine ⟨_, if_pos hdestroyed, fun h => ?_⟩
  exact List.append_ne_nil_of_right_ne_nil _ (List.cons_ne_nil c []) h.safe

/-- So does a removal that has waited in loop `0` until then. -/
theorem dangling_of_removal {batch : List Functor}
    (hp : w.position 0 = .functors (.removeConnectionInLoop c :: batch))
    (hfree : w.isFree 0 = true) (hdestroyed : w.server = .destroyed) :
    ∃ w' ∈ w.step s (.functor 0), ¬ w'.Teardown := by
  simp only [World.step, hp]
  rw [if_pos hfree]
  refine ⟨_, if_pos hdestroyed, fun h => ?_⟩
  exact List.append_ne_nil_of_right_ne_nil _ (List.cons_ne_nil c []) h.safe

end World

end Cnet.Net.Servers
