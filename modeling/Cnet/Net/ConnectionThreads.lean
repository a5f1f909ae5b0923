import Cnet.Support.Runs
import Cnet.Net.ConnectionSteps

/-!
# The connection between two threads

`state_` is no lock. A member function that tests it may go on after another thread has
changed it, so here such a call takes its steps one by one: the test, `setState`, and what
it runs or queues. So does `connectDestroyed`, which calls the user in between. The other
steps of the connection are as before, and calls that nothing comes between are the calls
of the connection.
-/

namespace Cnet.Net

open Cnet.Support

namespace World

/-- `connectDestroyed` closes a connection that is connected, and calls the user. -/
def disconnect (w : World) : World :=
  let w := { w with state_ := .kDisconnected, channel_ := w.channel_.disableAll }
  w.record (.connectionCallback w.connected)

/-- `channel_->remove()` -/
def removeChannel (w : World) : World := { w with channel_ := w.channel_.remove }

theorem connectDestroyed_eq (w : World) : w.connectDestroyed =
    if w.state_ = .kConnected then w.disconnect.removeChannel else w.removeChannel := by
  unfold connectDestroyed
  split <;> rfl

end World

namespace Threads

/-- A member function that closes the connection. -/
inductive Closing
  | shutdown
  | forceClose
  | forceCloseWithDelay
deriving DecidableEq, Repr

/-- A member function that tests `state_` in the calling thread. -/
inductive Call
  | send (message : Bytes)
  | sendBuffer (buf : Bytes)
  | close (c : Closing)
deriving DecidableEq, Repr

/-- What a call has left to do after its test. -/
inductive Left
  /-- `sendInLoop`, to be run or queued. -/
  | sendInLoop (message : Bytes)
  /-- `setState(kDisconnecting)`. -/
  | setState (c : Closing)
  /-- The statement after it. -/
  | closeInLoop (c : Closing)
deriving DecidableEq, Repr

/-- Where `connectDestroyed` is, of a connection that it found connected. -/
inductive Destroying
  /-- At `setState(kDisconnected)`. -/
  | close
  /-- In `connectionCallback_`, before `channel_->remove()`. -/
  | remove
deriving DecidableEq, Repr

structure World where
  conn : Net.World
  left : List (Thread × Left)
  destroying : Option Destroying
deriving DecidableEq, Repr

inductive Step
  /-- A step of the connection. -/
  | conn (s : Net.Step)
  /-- A thread calls, as far as the test of `state_`. -/
  | test (t : Thread) (c : Call)
  /-- It takes the next step of its call, with the kernel's answer to a direct write. -/
  | next (t : Thread) (write : WriteResult)
  /-- `connectDestroyed`: its test of `state_` and, if that fails, `channel_->remove()`. -/
  | connectDestroyed
  /-- Its next step. -/
  | resumeDestroyed
deriving DecidableEq, Repr

/-- The call as one step of the connection. -/
def Call.userCall (write : WriteResult) : Call → UserCall
  | .send message => .send message write
  | .sendBuffer buf => .sendBuffer buf write
  | .close .shutdown => .shutdown
  | .close .forceClose => .forceClose
  | .close .forceCloseWithDelay => .forceCloseWithDelay

/-- The test: what the call goes on with, if it does. -/
def Call.test (t : Thread) (s : StateE) : Call → Option Left
  | .send message => if s = .kConnected then some (.sendInLoop message) else none
  | .sendBuffer buf =>
      if s = .kConnected && !t.isInLoopThread then none else some (.sendInLoop buf)
  | .close .shutdown => if s = .kConnected then some (.setState .shutdown) else none
  | .close c => if s = .kConnected || s = .kDisconnecting then some (.setState c) else none

/-- The history has a call of a `send` overload where the call acts or returns. -/
def Call.refuse (t : Thread) (w : Net.World) : Call → Net.World
  | .send message => w.record (.send t message)
  | .sendBuffer buf => w.record (.send t buf)
  | .close _ => w

def Left.act (write : WriteResult) (t : Thread) (w : Net.World) : Left → Net.World
  | .sendInLoop message =>
      let w := w.accept t message
      if t.isInLoopThread then w.sendInLoop write t message
      else w.queueInLoop (.sendInLoop t message)
  | .setState c =>
      let w := w.setState .kDisconnecting
      if c = .shutdown then w.record (.shutdown w.outputBuffer_) else w
  | .closeInLoop .shutdown =>
      if t.isInLoopThread then w.shutdownInLoop else w.queueInLoop .shutdownInLoop
  | .closeInLoop .forceClose => w.queueInLoop .forceCloseInLoop
  | .closeInLoop .forceCloseWithDelay => { w with delayed := w.delayed + 1 }

def Left.next : Left → Option Left
  | .setState c => some (.closeInLoop c)
  | _ => none

/-- Calls that do not look at `state_` are one step. -/
def isTested : UserCall → Bool
  | .startRead | .stopRead | .retrieveInput _ => false
  | _ => true

namespace World

/-- A connection with no call under way. -/
def alone (conn : Net.World) : World where
  conn := conn
  left := []
  destroying := none

def new (c : Config) : World := alone (Net.World.new c)

def busy (w : World) (t : Thread) : Bool := (w.left.lookup t).isSome

/-- Between its test and its callback, `connectDestroyed` calls nobody. -/
def mayCall (w : World) (t : Thread) : Bool :=
  !w.busy t && (!t.isInLoopThread || w.destroying ≠ some .close)

/-- The loop thread is in no call and not in `connectDestroyed`. -/
def between (w : World) : Bool := !w.busy .loop && w.destroying.isNone

def allows (w : World) : Net.Step → Bool
  | .call t c => !isTested c && w.mayCall t
  | .connectDestroyed => false
  | _ => w.between

/-- The call of `t` goes from `l` to the next of its steps. -/
def goOn (w : World) (t : Thread) (write : WriteResult) (l : Left) : World :=
  { w with
    conn := l.act write t w.conn
    left := w.left.filter (fun x => x.1 ≠ t) ++ (l.next.map fun l' => (t, l')).toList }

def step (w : World) : Step → Option World
  | .conn s =>
      if w.allows s then (w.conn.step s).map fun conn => { w with conn := conn } else none
  | .test t c =>
      if w.mayCall t then
        match c.test t w.conn.state_ with
        | some l => some { w with left := w.left ++ [(t, l)] }
        | none => some { w with conn := c.refuse t w.conn }
      else none
  | .next t write => (w.left.lookup t).map (w.goOn t write)
  | .connectDestroyed =>
      if w.between && w.conn.idle then
        if w.conn.state_ = .kConnected then some { w with destroying := some .close }
        else some { w with conn := w.conn.removeChannel }
      else none
  | .resumeDestroyed =>
      if w.busy .loop then none
      else match w.destroying with
        | some .close => some { w with conn := w.conn.disconnect, destroying := some .remove }
        | some .remove => some { w with conn := w.conn.removeChannel, destroying := none }
        | none => none

/-- A call goes on to set `kDisconnecting` on a connection that was closed meanwhile. -/
def revives (w : World) : Step → Bool
  | .next t _ =>
      match w.left.lookup t with
      | some (.setState _) => w.conn.state_ = .kDisconnected
      | _ => false
  | _ => false

/-- The steps that are enabled, each with its guard and where it leads. -/
inductive Takes (w : World) : Step → World → Prop
  | conn (s : Net.Step) (conn : Net.World) (ha : w.allows s = true)
      (hs : w.conn.step s = some conn) : Takes w (.conn s) { w with conn := conn }
  | test (t : Thread) (c : Call) (l : Left) (hm : w.mayCall t = true)
      (hl : c.test t w.conn.state_ = some l) :
      Takes w (.test t c) { w with left := w.left ++ [(t, l)] }
  | refused (t : Thread) (c : Call) (hl : c.test t w.conn.state_ = none) :
      Takes w (.test t c) { w with conn := c.refuse t w.conn }
  | next (t : Thread) (write : WriteResult) (l : Left) (hl : w.left.lookup t = some l) :
      Takes w (.next t write) (w.goOn t write l)
  | connectDestroyed (hd : w.destroying = none) (hs : w.conn.state_ = .kConnected) :
      Takes w .connectDestroyed { w with destroying := some .close }
  | destroyed (hd : w.destroying = none) (hs : w.conn.state_ ≠ .kConnected) :
      Takes w .connectDestroyed { w with conn := w.conn.removeChannel }
  | disconnect (hd : w.destroying = some .close) :
      Takes w .resumeDestroyed { w with conn := w.conn.disconnect, destroying := some .remove }
  | remove (hd : w.destroying = some .remove) :
      Takes w .resumeDestroyed { w with conn := w.conn.removeChannel, destroying := none }

theorem takes_of_step {w w' : World} {s : Step} (h : w.step s = some w') : w.Takes s w' := by
  cases s with
  | conn s =>
    obtain ⟨ha, hs⟩ := Option.ite_none_right_eq_some.mp h
    obtain ⟨conn, hconn, rfl⟩ := Option.map_eq_some_iff.mp hs
    exact .conn s conn ha hconn
  | test t c =>
    obtain ⟨hm, hs⟩ := Option.ite_none_right_eq_some.mp h
    cases hl : c.test t w.conn.state_ with
    | some l =>
      rw [hl] at hs
      obtain rfl := Option.some.inj hs
      exact .test t c l hm hl
    | none =>
      rw [hl] at hs
      obtain rfl := Option.some.inj hs
      exact .refused t c hl
  | next t write =>
    obtain ⟨l, hl, rfl⟩ := Option.map_eq_some_iff.mp h
    exact .next t write l hl
  | connectDestroyed =>
    obtain ⟨hg, hs⟩ := Option.ite_none_right_eq_some.mp h
    have hd : w.destroying = none := by
      simp only [between, Bool.and_eq_true, Option.isNone_iff_eq_none] at hg
      exact hg.1.2
    by_cases hstate : w.conn.state_ = .kConnected
    · rw [if_pos hstate] at hs
      obtain rfl := Option.some.inj hs
      exact .connectDestroyed hd hstate
    · rw [if_neg hstate] at hs
      obtain rfl := Option.some.inj hs
      exact .destroyed hd hstate
  | resumeDestroyed =>
    obtain ⟨-, hs⟩ := Option.ite_none_left_eq_some.mp h
    cases hd : w.destroying with
    | none => rw [hd] at hs; exact absurd hs nofun
    | some d =>
      rw [hd] at hs
      cases d with
      | close =>
        obtain rfl := Option.some.inj hs
        exact .disconnect hd
      | remove =>
        obtain rfl := Option.some.inj hs
        exact .remove hd

theorem allows_call {w : World} {t : Thread} {c : UserCall} (h : w.allows (.call t c) = true) :
    isTested c = false := by
  simp only [allows, Bool.and_eq_true, Bool.not_eq_true'] at h
  exact h.1

theorem state_setState (write : WriteResult) (t : Thread) (k : Closing) (c : Net.World) :
    ((Left.setState k).act write t c).state_ = .kDisconnecting := by
  simp only [Left.act]
  split <;> rfl

/-- A step of a call leaves the state alone, or sets it. -/
theorem state_act (write : WriteResult) (t : Thread) (l : Left) (c : Net.World) :
    (l.act write t c).state_ = c.state_ ∨ (l.act write t c).state_ = .kDisconnecting := by
  cases l with
  | sendInLoop message =>
    left
    simp only [Left.act]
    split
    · exact Net.World.state_sendInLoop write t message _
    · rfl
  | setState k => exact .inr (state_setState write t k c)
  | closeInLoop k =>
    left
    cases k with
    | shutdown =>
      simp only [Left.act]
      split
      · exact Net.World.state_shutdownInLoop c
      · rfl
    | _ => rfl

theorem mem_of_lookup {w : World} {t : Thread} {l : Left} (h : w.left.lookup t = some l) :
    (t, l) ∈ w.left := by
  obtain ⟨l₁, l₂, he, -⟩ := List.lookup_eq_some_iff.mp h
  rw [he]
  exact List.mem_append_right _ List.mem_cons_self

theorem mem_goOn {w : World} {t : Thread} {write : WriteResult} {l : Left} {x : Thread × Left}
    (h : x ∈ (w.goOn t write l).left) : x ∈ w.left ∨ ∃ l', l.next = some l' ∧ x = (t, l') := by
  rcases List.mem_append.mp h with h | h
  · exact .inl (List.mem_of_mem_filter h)
  · rw [Option.mem_toList, Option.map_eq_some_iff] at h
    obtain ⟨l', hl', rfl⟩ := h
    exact .inr ⟨l', hl', rfl⟩

section alone

variable {w : Net.World} {t : Thread} {c : Call}

theorem call_refused (h : c.test t w.state_ = none) (write : WriteResult) :
    w.call t (c.userCall write) = c.refuse t w := by
  cases c with
  | send message =>
    have hs : w.state_ ≠ .kConnected := fun hs => absurd h (by simp [Call.test, hs])
    exact Net.World.send_refused hs write t message
  | sendBuffer buf =>
    obtain ⟨hs, ht⟩ : w.state_ = .kConnected ∧ t ≠ .loop := by
      simpa [Call.test, Thread.isInLoopThread] using h
    exact congrArg Prod.fst (Net.World.sendBuffer_ignored hs ht write buf)
  | close k =>
    cases k <;> simp only [Call.test, ite_eq_right_iff, reduceCtorEq, imp_false] at h <;>
      exact if_neg h

theorem call_sends {message : Bytes} (h : c.test t w.state_ = some (.sendInLoop message))
    (write : WriteResult) :
    w.call t (c.userCall write) = (Left.sendInLoop message).act write t w := by
  cases c with
  | send m =>
    obtain ⟨hs, hm⟩ := Option.ite_none_right_eq_some.mp h
    obtain rfl := Left.sendInLoop.inj (Option.some.inj hm)
    by_cases ht : t = .loop
    · subst ht
      exact Net.World.send_loop hs write m
    · rw [Left.act, Thread.isInLoopThread, decide_eq_false ht]
      exact Net.World.send_other hs ht write m
  | sendBuffer buf =>
    obtain ⟨hs, hm⟩ := Option.ite_none_left_eq_some.mp h
    obtain rfl := Left.sendInLoop.inj (Option.some.inj hm)
    by_cases ht : t = .loop
    · subst ht
      exact congrArg Prod.fst (Net.World.sendBuffer_loop w write buf)
    · have hs' : w.state_ ≠ .kConnected := by simpa [Thread.isInLoopThread, ht] using hs
      rw [Left.act, Thread.isInLoopThread, decide_eq_false ht]
      exact congrArg Prod.fst (Net.World.sendBuffer_other hs' ht write buf)
  | close k =>
    cases k <;> exact absurd h (by simp [Call.test])

theorem call_closes {k : Closing} (h : c.test t w.state_ = some (.setState k))
    (write : WriteResult) : w.call t (c.userCall write) =
      (Left.closeInLoop k).act write t ((Left.setState k).act write t w) := by
  cases c with
  | send message => exact absurd h (by simp [Call.test])
  | sendBuffer buf => exact absurd h (by simp [Call.test])
  | close k' =>
    cases k' <;> obtain ⟨hs, hk⟩ := Option.ite_none_right_eq_some.mp h <;>
      obtain rfl := Left.setState.inj (Option.some.inj hk) <;> exact if_pos hs

theorem not_closeInLoop (k : Closing) (s : StateE) : c.test t s ≠ some (.closeInLoop k) := by
  cases c with
  | close k' => cases k' <;> simp [Call.test]
  | _ => simp [Call.test]

/-- Nothing comes between the steps of the call. -/
theorem run_call (t : Thread) (c : Call) (write : WriteResult) (w : Net.World) :
    ∃ steps, run step (alone w) steps = some (alone (w.call t (c.userCall write))) := by
  have hmay : (alone w).mayCall t = true := by simp [mayCall, busy, alone]
  have htest (l : Left) (h : c.test t w.state_ = some l) :
      (alone w).step (.test t c) = some { alone w with left := [(t, l)] } := by
    rw [step, if_pos hmay]
    simp [alone, h]
  cases h : c.test t w.state_ with
  | none =>
    refine ⟨[.test t c], ?_⟩
    rw [call_refused h, run_cons_some]
    refine ⟨_, ?_, rfl⟩
    rw [step, if_pos hmay]
    simp [alone, h]
  | some l =>
    cases l with
    | sendInLoop message =>
      refine ⟨[.test t c, .next t write], ?_⟩
      rw [call_sends h, run_cons_some]
      refine ⟨_, htest _ h, ?_⟩
      simp [run, step, goOn, alone, Left.next]
    | setState k =>
      refine ⟨[.test t c, .next t write, .next t write], ?_⟩
      rw [call_closes h, run_cons_some]
      refine ⟨_, htest _ h, ?_⟩
      simp [run, step, goOn, alone, Left.next]
    | closeInLoop k => exact absurd h (not_closeInLoop k _)

theorem run_connectDestroyed (hi : w.idle = true) :
    ∃ steps, run step (alone w) steps = some (alone w.connectDestroyed) := by
  have hbetween : ((alone w).between && w.idle) = true := by simp [between, busy, alone, hi]
  rw [Net.World.connectDestroyed_eq]
  by_cases hs : w.state_ = .kConnected
  · refine ⟨[.connectDestroyed, .resumeDestroyed, .resumeDestroyed], ?_⟩
    have hfirst : (alone w).step .connectDestroyed =
        some { alone w with destroying := some .close } := by
      rw [step, show (alone w).conn = w from rfl, if_pos hbetween, if_pos hs]
      rfl
    rw [if_pos hs, run_cons_some]
    refine ⟨_, hfirst, ?_⟩
    simp [run, step, busy, alone]
  · refine ⟨[.connectDestroyed], ?_⟩
    rw [if_neg hs, run_cons_some]
    refine ⟨alone w.removeChannel, ?_, rfl⟩
    rw [step, show (alone w).conn = w from rfl, if_pos hbetween, if_neg hs]
    rfl

theorem run_step {w' : Net.World} {s : Net.Step} (h : w.step s = some w') :
    ∃ steps, run step (alone w) steps = some (alone w') := by
  have hplain (ha : (alone w).allows s = true) :
      ∃ steps, run step (alone w) steps = some (alone w') := by
    refine ⟨[.conn s], ?_⟩
    rw [run_cons_some]
    refine ⟨alone w', ?_, rfl⟩
    rw [step, if_pos ha]
    simp [alone, h]
  cases s with
  | call t c =>
    obtain rfl := Option.some.inj h
    cases c with
    | send message write => exact run_call t (.send message) write w
    | sendBuffer buf write => exact run_call t (.sendBuffer buf) write w
    | shutdown => exact run_call t (.close .shutdown) (.count 0) w
    | forceClose => exact run_call t (.close .forceClose) (.count 0) w
    | forceCloseWithDelay => exact run_call t (.close .forceCloseWithDelay) (.count 0) w
    | startRead | stopRead | retrieveInput =>
      exact hplain (by simp [allows, isTested, mayCall, busy, alone])
  | connectDestroyed =>
    obtain ⟨hi, he⟩ := Option.ite_none_right_eq_some.mp h
    obtain rfl := Option.some.inj he
    exact run_connectDestroyed hi
  | connectEstablished | poll | handleEvent | resume | functor | timer =>
    exact hplain (by simp [allows, between, busy, alone])

/-- A run of the connection is one here: that of calls that nothing comes between. -/
theorem run_alone {w' : Net.World} {steps : List Net.Step}
    (h : run Net.World.step w steps = some w') :
    ∃ steps' : List Step, run step (alone w) steps' = some (alone w') := by
  induction steps generalizing w with
  | nil =>
    obtain rfl := Option.some.inj h
    exact ⟨[], rfl⟩
  | cons s steps ih =>
    obtain ⟨m, hm, hrest⟩ := (run_cons_some Net.World.step).mp h
    obtain ⟨first, hfirst⟩ := run_step hm
    obtain ⟨rest, hrest⟩ := ih hrest
    refine ⟨first ++ rest, ?_⟩
    rw [run_append, hfirst]
    exact hrest

end alone

end World

end Threads

end Cnet.Net
