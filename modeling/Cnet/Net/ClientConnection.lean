import Cnet.Support.Runs
import Cnet.Support.History
import Cnet.Net.TcpClient

/-!
# One connection at a time

A client keeps at most one live connection, owns it until its `connectDestroyed` is queued,
and connects again after a connection has closed, in the runs in which the connector is in
state `kDisconnected` whenever a `connect()` or a retry timer comes to `startInLoop`.
`connect()` does not look at the connector's state, which stays `kConnected` after a
connection has been made, and closed: such a `connect()` is where runs go wrong.
-/

namespace Cnet.Net.Connectors

/-- Neither an attempt begins nor a socket is handed over. -/
def Event.isPlain : Event → Bool
  | .startInLoop _ | .newConnectionCallback _ => false
  | _ => true

namespace World

variable {w w' : World} {e : SavedErrno}

/-- The history has grown by plain events. -/
def Extends (w w' : World) : Prop :=
  ∃ new, w'.trace = w.trace ++ new ∧ ∀ e ∈ new, e.isPlain = true

theorem Extends.refl (w : World) : Extends w w :=
  ⟨[], (List.append_nil _).symm, List.forall_mem_nil _⟩

theorem Extends.record (h : Extends w w') {e : Event} (he : e.isPlain = true) :
    Extends w (w'.record e) := by
  obtain ⟨new, hnew, hplain⟩ := h
  refine ⟨new ++ [e], ?_, fun e' he' => ?_⟩
  · rw [← List.append_assoc, ← hnew]
    rfl
  · rcases List.mem_append.mp he' with he' | he'
    · exact hplain e' he'
    · rw [List.mem_singleton.mp he']
      exact he

theorem Extends.retry (h : Extends w w') (sockfd : Nat) : Extends w (w'.retry sockfd) := by
  have hclosed : Extends w (w'.record (.close sockfd)) := h.record rfl
  rw [World.retry]
  split
  · obtain ⟨new, hnew, hplain⟩ := hclosed.record (e := .runAfter w'.retryDelayMs_) rfl
    exact ⟨new, hnew, hplain⟩
  · exact hclosed

theorem retry_state (w : World) (sockfd : Nat) : (w.retry sockfd).state_ = .kDisconnected := by
  rw [World.retry]
  split <;> rfl

theorem connect_extends (w : World) (savedErrno : SavedErrno) :
    Extends (record (.socket w.sockets) { w with sockets := w.sockets + 1 })
      (w.connect savedErrno) := by
  have hsocket := Extends.refl (record (.socket w.sockets) { w with sockets := w.sockets + 1 })
  cases savedErrno with
  | success | EINPROGRESS | EINTR | EISCONN =>
    exact hsocket.record (e := .connecting w.channel_) rfl
  | EAGAIN | EADDRINUSE | EADDRNOTAVAIL | ECONNREFUSED | ENETUNREACH => exact hsocket.retry _
  | EACCES | EPERM | EAFNOSUPPORT | EALREADY | EBADF | EFAULT | ENOTSOCK =>
    exact hsocket.record (e := .close w.sockets) rfl
  | other n => exact hsocket.record (e := .close w.sockets) rfl

/-- `startInLoop` makes a new attempt, unless `stop()` has forbidden it. -/
theorem startInLoop_attempts (hconnect : w.connect_ = true) (savedErrno : SavedErrno) :
    w.trace ++ [.startInLoop w.state_, .socket w.sockets] <+:
      (w.startInLoop savedErrno).trace := by
  have hrun : w.startInLoop savedErrno =
      (w.record (.startInLoop w.state_)).connect savedErrno := if_pos hconnect
  obtain ⟨new, hnew, -⟩ := connect_extends (w.record (.startInLoop w.state_)) savedErrno
  refine ⟨new, ?_⟩
  rw [hrun, hnew]
  simp [record]

theorem startInLoop_asserts (w : World) (savedErrno : SavedErrno) :
    w.trace ++ [.startInLoop w.state_] <+: (w.startInLoop savedErrno).trace := by
  by_cases hconnect : w.connect_ = true
  · obtain ⟨new, hnew⟩ := startInLoop_attempts hconnect savedErrno
    refine ⟨.socket w.sockets :: new, ?_⟩
    rw [← hnew, List.append_assoc, List.append_assoc]
    rfl
  · have hrun : w.startInLoop savedErrno = w.record (.startInLoop w.state_) := if_neg hconnect
    refine ⟨[], ?_⟩
    rw [hrun, List.append_nil]
    rfl

theorem removeAndResetChannel_extends {sockfd : Nat}
    (h : w.removeAndResetChannel = some (sockfd, w')) : Extends w w' := by
  rw [removeAndResetChannel] at h
  cases hc : w.channel_ with
  | none =>
    rw [hc] at h
    exact nomatch h
  | some c =>
    rw [hc] at h
    obtain ⟨-, rfl⟩ := Prod.mk.inj (Option.some.inj h)
    exact Extends.refl w

/-- What a handler of the connector may do. -/
inductive Outcome (w w' : World) : Prop
  /-- Nothing. -/
  | same (heq : w' = w)
  /-- It ends the attempt in progress, without a connection. -/
  | ended (hstate : w.state_ = .kConnecting) (htrace : Extends w w')
      (hended : w'.state_ ≠ .kConnecting)
  /-- It hands over the socket, at its end. -/
  | delivered (sockfd : Nat) (hstate : w.state_ = .kConnecting)
      (htrace : ∃ w₁, Extends w w₁ ∧ w'.trace = w₁.trace ++ [.newConnectionCallback sockfd])
      (hconnected : w'.state_ = .kConnected)

theorem stopInLoop_cases (h : w.stopInLoop = some w') :
    w' = w ∨ (w.state_ = .kConnecting ∧ Extends w w' ∧ w'.state_ ≠ .kConnecting) := by
  rw [stopInLoop] at h
  by_cases hs : w.state_ = .kConnecting
  · rw [if_pos hs] at h
    obtain ⟨⟨sockfd, w₁⟩, hremove, hw'⟩ := Option.bind_eq_some_iff.mp h
    obtain rfl := Option.some.inj hw'
    have hext : Extends w w₁ :=
      removeAndResetChannel_extends (w := w.setState .kDisconnected) hremove
    exact .inr ⟨hs, hext.retry sockfd, by rw [retry_state]; decide⟩
  · rw [if_neg hs] at h
    exact .inl (Option.some.inj h).symm

theorem handleError_cases (h : w.handleError = some w') :
    w' = w ∨ (w.state_ = .kConnecting ∧ Extends w w' ∧ w'.state_ ≠ .kConnecting) := by
  rw [handleError] at h
  by_cases hs : w.state_ = .kConnecting
  · rw [if_pos hs] at h
    obtain ⟨⟨sockfd, w₁⟩, hremove, hw'⟩ := Option.bind_eq_some_iff.mp h
    obtain rfl := Option.some.inj hw'
    have hext := removeAndResetChannel_extends hremove
    exact .inr ⟨hs, hext.retry sockfd, by rw [retry_state]; decide⟩
  · rw [if_neg hs] at h
    exact .inl (Option.some.inj h).symm

theorem handleWrite_outcome {err selfConnect : Bool} (h : w.handleWrite err selfConnect = some w') :
    Outcome w w' := by
  rw [handleWrite] at h
  by_cases hs : w.state_ = .kConnecting
  · rw [if_pos hs] at h
    obtain ⟨⟨sockfd, w₁⟩, hremove, hw'⟩ := Option.bind_eq_some_iff.mp h
    have hext := removeAndResetChannel_extends hremove
    have hretried : Outcome w (w₁.retry sockfd) :=
      .ended hs (hext.retry sockfd) (by rw [retry_state]; decide)
    dsimp only at hw'
    split at hw'
    · obtain rfl := Option.some.inj hw'
      exact hretried
    · split at hw'
      · obtain rfl := Option.some.inj hw'
        exact hretried
      · split at hw'
        · obtain rfl := Option.some.inj hw'
          exact .delivered sockfd hs ⟨w₁, hext, rfl⟩ rfl
        · obtain rfl := Option.some.inj hw'
          exact .ended hs (hext.record (e := .close sockfd) rfl) nofun
  · rw [if_neg hs] at h
    exact .same (Option.some.inj h).symm

theorem handleEvent_outcome {revents : PollMask} {err selfConnect : Bool}
    (h : w.handleEvent revents err selfConnect = some w') : Outcome w w' := by
  rw [handleEvent] at h
  obtain ⟨w₁, hfirst, hsecond⟩ := Option.bind_eq_some_iff.mp h
  have hwrite : Outcome w₁ w' := by
    split at hsecond
    · exact handleWrite_outcome hsecond
    · exact .same (Option.some.inj hsecond).symm
  split at hfirst
  · rcases handleError_cases hfirst with heq | ⟨hs, hext, hended⟩
    · exact heq ▸ hwrite
    · cases hwrite with
      | same heq => exact .ended hs (heq ▸ hext) (heq ▸ hended)
      | ended hs' => exact absurd hs' hended
      | delivered _ hs' => exact absurd hs' hended
  · obtain rfl := Option.some.inj hfirst
    exact hwrite

theorem event_outcome {revents : PollMask} {err selfConnect : Bool}
    (h : step w (.event revents err selfConnect) = some w') : Outcome w w' := by
  rw [step] at h
  split at h
  · split at h
    · exact handleEvent_outcome (Option.ite_none_right_eq_some.mp h).2
    · exact nomatch h
  · exact nomatch h

/-- A functor of the connector leaves a made connection alone. -/
theorem runFunctor_connected {f : Functor} (h : runFunctor f w = some w')
    (hc : w.state_ = .kConnected) : w'.state_ = .kConnected := by
  cases f with
  | stopInLoop =>
    rcases stopInLoop_cases h with rfl | ⟨hs, -, -⟩
    · exact hc
    · exact absurd (hs.symm.trans hc) nofun
  | resetChannel =>
    obtain rfl := Option.some.inj h
    exact hc

end World

end Cnet.Net.Connectors

namespace Cnet.Net.Clients

open Cnet.Support
open Cnet.Net.Connectors (SavedErrno)

namespace World

structure OneConnection (w : World) : Prop where
  /-- `newConnection` found no connection to overwrite. -/
  fresh : ∀ c old, .newConnection c old ∈ w.trace → old = none
  /-- `removeConnection` found the connection it was called for. -/
  found : ∀ c old, .removeConnection c old ∈ w.trace → old = some c
  /-- A live connection is the one that is stored. -/
  single : ∀ c, w.isLive c = true → w.connection_ = some c
  /-- A connection that was stored still is, or its `connectDestroyed` has been queued. -/
  owned : ∀ c old, .newConnection c old ∈ w.trace → w.connection_ = some c ∨ .queued c ∈ w.trace

/-- A connection has closed. -/
def hasClosed (w : World) : Bool := w.connections.any fun conn => conn.state_ == .kDisconnected

/-- `startInLoop` was entered as it asserts, and has gone on to make a new socket. -/
def Attempts (w w' : World) : Prop :=
  w.connector_.trace ++ [.startInLoop .kDisconnected, .socket w.connector_.sockets] <+:
    w'.connector_.trace

/-- After a connection has closed, `connect()` starts a new attempt: at once in the loop
thread, else with the functor that it queues, unless `stop()` comes in between; then there
is only the assert. -/
def Reconnects (w : World) (s : Step) (w' : World) : Prop :=
  w.hasClosed = true →
    match s with
    | .connect .loop _ => Attempts w w'
    | .connect (.other _) _ => .startInLoop ∈ w'.pendingFunctors_
    | .functor _ =>
        w.pendingFunctors_.head? = some .startInLoop →
          w.connector_.trace ++ [.startInLoop .kDisconnected] <+: w'.connector_.trace ∧
            (w.connector_.connect_ = true → Attempts w w')
    | _ => True

instance (w w' : World) : Decidable (Attempts w w') := by
  unfold Attempts
  infer_instance

instance (w : World) (s : Step) (w' : World) : Decidable (Reconnects w s w') := by
  unfold Reconnects
  split <;> infer_instance

/-- The condition on a step: when `connect()` is called in the loop thread, when the
`startInLoop` that another thread's `connect()` has queued runs, and when a retry timer
expires, the connector is in state `kDisconnected`. -/
def Ready (w : World) : Step → Prop
  | .connect .loop _ => w.connector_.state_ = .kDisconnected
  | .functor _ =>
      w.closing = none → w.pendingFunctors_.head? = some .startInLoop →
        w.connector_.state_ = .kDisconnected
  | .timer _ =>
      w.closing = none → 0 < w.connector_.retryTimers → w.connector_.state_ = .kDisconnected
  | _ => True

instance (w : World) (s : Step) : Decidable (w.Ready s) := by
  unfold Ready
  split <;> infer_instance

/-- The invariant: a stored connection goes with a connector in state `kConnected`. -/
structure Inv (w : World) : Prop extends OneConnection w where
  connected : w.connection_ ≠ none → w.connector_.state_ = .kConnected
  closing : ∀ c ∈ w.closing, w.connection_ = some c ∧ w.isLive c = false

variable {w w' : World} {c : Nat}

theorem inv_new : new.Inv where
  fresh := fun _ _ h => absurd h List.not_mem_nil
  found := fun _ _ h => absurd h List.not_mem_nil
  single := fun _ h => absurd h Bool.false_ne_true
  owned := fun _ _ h => absurd h List.not_mem_nil
  connected := fun h => absurd rfl h
  closing := fun _ h => nomatch h

theorem Inv.setConnector (h : w.Inv) {connector : Connectors.World}
    (hconnected : w.connection_ ≠ none → connector.state_ = .kConnected) :
    (w.setConnector connector).Inv where
  fresh := h.fresh
  found := h.found
  single := h.single
  owned := h.owned
  connected := hconnected
  closing := h.closing

/-- The flags, the queues and the timers are not in the invariant. -/
theorem Inv.frame (h : w.Inv) (hconnections : w'.connections = w.connections)
    (hstored : w'.connection_ = w.connection_) (hclosing : w'.closing = w.closing)
    (htrace : w'.trace = w.trace) (hstate : w'.connector_.state_ = w.connector_.state_) :
    w'.Inv := by
  have hlive : ∀ c, w'.isLive c = w.isLive c := by
    intro c
    rw [isLive, isLive, stateOf, stateOf, hconnections]
  refine ⟨⟨?_, ?_, ?_, ?_⟩, ?_, ?_⟩
  · exact htrace ▸ h.fresh
  · exact htrace ▸ h.found
  · intro c hc
    rw [hstored]
    exact h.single c ((hlive c).symm.trans hc)
  · rw [htrace, hstored]
    exact h.owned
  · rw [hstored, hstate]
    exact h.connected
  · intro c hc
    rw [hclosing] at hc
    rw [hstored, hlive]
    exact h.closing c hc

theorem Inv.none_of_disconnected (h : w.Inv) (hs : w.connector_.state_ ≠ .kConnected) :
    w.connection_ = none := by
  by_contra hne
  exact hs (h.connected hne)

/-- `startInLoop` in state `kDisconnected` keeps the invariant. -/
theorem Inv.startInLoop (h : w.Inv) {connector : Connectors.World} (savedErrno : SavedErrno)
    (hs : w.connector_.state_ = .kDisconnected) :
    (w.setConnector (connector.startInLoop savedErrno)).Inv :=
  h.setConnector fun hne => absurd (h.none_of_disconnected (by rw [hs]; decide)) hne

section connections

variable {s : StateE}

theorem stateOf_setState_self : (w.setState c s).stateOf c = (w.stateOf c).map fun _ => s := by
  simp [stateOf, setState, Option.map_map, Function.comp_def]

theorem stateOf_setState_ne {d : Nat} (hd : d ≠ c) : (w.setState c s).stateOf d = w.stateOf d := by
  simp [stateOf, setState, hd.symm]

theorem isLive_setState_ne {d : Nat} (hd : d ≠ c) : (w.setState c s).isLive d = w.isLive d := by
  rw [isLive, isLive, stateOf_setState_ne hd]

theorem isLive_iff : w.isLive c = true ↔
    w.stateOf c = some .kConnected ∨ w.stateOf c = some .kDisconnecting := by
  rw [isLive, Bool.or_eq_true, decide_eq_true_eq, decide_eq_true_eq]

/-- No connection is closed twice: a closed one is not live. -/
theorem not_isLive_closed : (w.setState c .kDisconnected).isLive c = false := by
  rw [← Bool.not_eq_true, isLive_iff, stateOf_setState_self]
  cases w.stateOf c <;> simp

end connections

/-- `shutdown` of the stored connection, if it is connected. -/
theorem disconnect_cases (w : World) : w.disconnect = { w with connect_ := false } ∨
    ∃ c, w.stateOf c = some .kConnected ∧
      w.disconnect = setState c .kDisconnecting { w with connect_ := false } := by
  rw [World.disconnect]
  split
  next c _ =>
    split
    next hs => exact .inr ⟨c, hs, rfl⟩
    next => exact .inl rfl
  next => exact .inl rfl

theorem Inv.disconnect (h : w.Inv) : w.disconnect.Inv := by
  rcases disconnect_cases w with heq | ⟨c, hs, heq⟩
  · rw [heq]
    exact h.frame rfl rfl rfl rfl rfl
  · rw [heq]
    have hlive : w.isLive c = true := isLive_iff.mpr (.inl hs)
    refine ⟨⟨h.fresh, h.found, fun d hd => ?_, h.owned⟩, h.connected, fun d hd => ?_⟩
    · by_cases hdc : d = c
      · exact hdc ▸ h.single c hlive
      · exact h.single d ((isLive_setState_ne hdc).symm.trans hd)
    · obtain ⟨hstored, hdead⟩ := h.closing d hd
      have hdc : d ≠ c := by
        rintro rfl
        exact Bool.false_ne_true (hdead.symm.trans hlive)
      exact ⟨hstored, (isLive_setState_ne hdc).trans hdead⟩

/-- The connection's state is closed, and the user is being told. -/
theorem Inv.handleClose (h : w.Inv) (hlive : w.isLive c = true) : (w.handleClose c).Inv where
  fresh := h.fresh
  found := h.found
  single := by
    intro d hd
    by_cases hdc : d = c
    · subst hdc
      exact absurd (not_isLive_closed.symm.trans hd) Bool.false_ne_true
    · exact h.single d ((isLive_setState_ne hdc).symm.trans hd)
  owned := h.owned
  connected := h.connected
  closing := by
    rintro d ⟨rfl⟩
    exact ⟨h.single c hlive, not_isLive_closed⟩

/-- The stored connection is removed, and its `connectDestroyed` queued. -/
theorem Inv.removed (h : w.Inv) (hc : w.connection_ = some c) (hdead : w.isLive c = false) :
    Inv (record (.queued c) (queueInLoop (.connectDestroyed c)
      (record (.removeConnection c w.connection_)
        { w with closing := none, connection_ := none }))) where
  fresh := by
    intro d old hmem
    simp only [record, queueInLoop, mem_snoc, reduceCtorEq, or_false] at hmem
    exact h.fresh d old hmem
  found := by
    intro d old hmem
    simp only [record, queueInLoop, mem_snoc, reduceCtorEq, or_false, Event.removeConnection.injEq]
      at hmem
    rcases hmem with hmem | ⟨rfl, rfl⟩
    · exact h.found d old hmem
    · exact hc
  single := by
    intro d hd
    have hstored := h.single d hd
    obtain rfl := Option.some.inj (hc.symm.trans hstored)
    exact absurd (hdead.symm.trans hd) Bool.false_ne_true
  owned := by
    intro d old hmem
    simp only [record, queueInLoop, mem_snoc, reduceCtorEq, or_false] at hmem
    refine .inr ?_
    simp only [record, queueInLoop, mem_snoc, reduceCtorEq, or_false, Event.queued.injEq]
    rcases h.owned d old hmem with hstored | hqueued
    · exact .inr (Option.some.inj (hstored.symm.trans hc))
    · exact .inl hqueued
  connected := fun hne => absurd rfl hne
  closing := fun _ hd => nomatch hd

theorem Inv.removeConnection (h : w.Inv) (hc : w.connection_ = some c) (hdead : w.isLive c = false)
    (savedErrno : SavedErrno) : (removeConnection savedErrno c { w with closing := none }).Inv := by
  have hremoved := h.removed hc hdead
  rw [World.removeConnection]
  dsimp only
  split
  · exact hremoved.setConnector fun hne => absurd rfl hne
  · exact hremoved

theorem newConnection_isLive_ne {d : Nat} (sockfd : Nat) (hd : d ≠ w.connections.length) :
    (w.newConnection sockfd).isLive d = w.isLive d := by
  have hget : (w.connections ++ [(⟨sockfd, w.nextConnId_, .kConnecting⟩ : Connection)])[d]? =
      w.connections[d]? := by
    rcases Nat.lt_or_gt_of_ne hd with hlt | hgt
    · exact List.getElem?_append_left hlt
    · have hlen : (w.connections ++
          [(⟨sockfd, w.nextConnId_, .kConnecting⟩ : Connection)]).length ≤ d := by
        rw [List.length_append, List.length_singleton]
        exact hgt
      rw [List.getElem?_eq_none hlen, List.getElem?_eq_none (Nat.le_of_lt hgt)]
  rw [World.newConnection, isLive_setState_ne hd, isLive, isLive, stateOf, stateOf]
  simp only [record, hget]

/-- A new connection is stored where there was none. -/
theorem Inv.newConnection (h : w.Inv) (hnone : w.connection_ = none)
    (hstate : w.connector_.state_ = .kConnected) (sockfd : Nat) :
    (w.newConnection sockfd).Inv where
  fresh := by
    intro d old hmem
    simp only [World.newConnection, setState, record, mem_snoc, Event.newConnection.injEq] at hmem
    rcases hmem with hmem | ⟨-, rfl⟩
    · exact h.fresh d old hmem
    · exact hnone
  found := by
    intro d old hmem
    simp only [World.newConnection, setState, record, mem_snoc, reduceCtorEq, or_false] at hmem
    exact h.found d old hmem
  single := by
    intro d hd
    by_cases hdc : d = w.connections.length
    · exact congrArg some hdc.symm
    · rw [newConnection_isLive_ne sockfd hdc] at hd
      exact absurd (hnone.symm.trans (h.single d hd)) nofun
  owned := by
    intro d old hmem
    simp only [World.newConnection, setState, record, mem_snoc, reduceCtorEq, or_false,
      Event.newConnection.injEq] at hmem ⊢
    rcases hmem with hmem | ⟨rfl, -⟩
    · rcases h.owned d old hmem with hstored | hqueued
      · exact absurd (hnone.symm.trans hstored) nofun
      · exact .inr hqueued
    · exact .inl rfl
  connected := fun _ => hstate
  closing := fun d hd => absurd (hnone.symm.trans (h.closing d hd).1) nofun

theorem delivered_of_extends {old new : Connectors.World} (h : old.Extends new) :
    delivered old new = none := by
  obtain ⟨events, htrace, hplain⟩ := h
  rw [delivered, htrace, List.drop_left, List.findSome?_eq_none_iff]
  intro e he
  cases e with
  | newConnectionCallback s => exact absurd (hplain _ he) Bool.false_ne_true
  | startInLoop | socket | connecting | resetChannel | close | runAfter => rfl

theorem delivered_of_handed {old mid new : Connectors.World} {sockfd : Nat} (h : old.Extends mid)
    (htrace : new.trace = mid.trace ++ [.newConnectionCallback sockfd]) :
    delivered old new = some sockfd := by
  have hnone := delivered_of_extends h
  obtain ⟨events, hevents, -⟩ := h
  rw [delivered, hevents, List.drop_left] at hnone
  rw [delivered, htrace, hevents, List.append_assoc, List.drop_left, List.findSome?_append, hnone]
  rfl

/-- The connector has handled an event. -/
theorem Inv.afterEvent (h : w.Inv) {connector : Connectors.World}
    (hout : Connectors.World.Outcome w.connector_ connector) : (w.afterEvent connector).Inv := by
  cases hout with
  | same heq =>
    subst heq
    rw [World.afterEvent, delivered_of_extends (.refl _)]
    exact h.setConnector h.connected
  | ended hs hext hended =>
    rw [World.afterEvent, delivered_of_extends hext]
    refine h.setConnector fun hne => ?_
    exact absurd (hs.symm.trans (h.connected hne)) nofun
  | delivered sockfd hs htrace hconnected =>
    obtain ⟨mid, hext, htrace⟩ := htrace
    have hnone : w.connection_ = none := h.none_of_disconnected (by rw [hs]; decide)
    rw [World.afterEvent, delivered_of_handed hext htrace]
    exact (h.setConnector fun _ => hconnected).newConnection hnone hconnected sockfd

theorem Inv.connectDestroyed (h : w.Inv) (c : Nat) : (w.connectDestroyed c).Inv := by
  have hclosed : (w.setState c .kDisconnected).Inv := by
    refine ⟨⟨h.fresh, h.found, fun d hd => ?_, h.owned⟩, h.connected, fun d hd => ?_⟩
    · by_cases hdc : d = c
      · subst hdc
        exact absurd (not_isLive_closed.symm.trans hd) Bool.false_ne_true
      · exact h.single d ((isLive_setState_ne hdc).symm.trans hd)
    · refine ⟨(h.closing d hd).1, ?_⟩
      by_cases hdc : d = c
      · rw [hdc]
        exact not_isLive_closed
      · exact (isLive_setState_ne hdc).trans (h.closing d hd).2
  have hrecord : ∀ w : World, w.Inv → (w.record (.connectDestroyed c)).Inv := by
    intro w h
    refine ⟨⟨fun d old hmem => ?_, fun d old hmem => ?_, h.single, fun d old hmem => ?_⟩,
      h.connected, h.closing⟩
    · exact h.fresh d old ((mem_snoc.mp hmem).resolve_right nofun)
    · exact h.found d old ((mem_snoc.mp hmem).resolve_right nofun)
    · rcases h.owned d old ((mem_snoc.mp hmem).resolve_right nofun) with hstored | hqueued
      · exact .inl hstored
      · exact .inr (mem_snoc.mpr (.inl hqueued))
  rw [World.connectDestroyed]
  split
  · exact hrecord _ hclosed
  · exact hrecord _ h

theorem Inv.runFunctor (h : w.Inv) {savedErrno : SavedErrno} {f : Functor}
    (hs : f = .startInLoop → w.connector_.state_ = .kDisconnected)
    (hrun : runFunctor savedErrno f w = some w') : w'.Inv := by
  cases f with
  | connector =>
    rw [World.runFunctor] at hrun
    cases hq : w.connector_.pendingFunctors_ with
    | nil =>
      rw [hq] at hrun
      exact nomatch hrun
    | cons g gs =>
      rw [hq] at hrun
      obtain ⟨connector, hg, rfl⟩ := Option.map_eq_some_iff.mp hrun
      have hpopped : Inv { w with connector_ := { w.connector_ with pendingFunctors_ := gs } } :=
        h.frame rfl rfl rfl rfl rfl
      exact hpopped.setConnector
        fun hne => Connectors.World.runFunctor_connected hg (h.connected hne)
  | startInLoop =>
    obtain rfl := Option.some.inj hrun
    exact h.startInLoop savedErrno (hs rfl)
  | connectDestroyed c =>
    obtain rfl := Option.some.inj hrun
    exact h.connectDestroyed c

/-- Every step that meets the condition keeps the invariant. -/
theorem inv_step (w : World) (s : Step) (w' : World) (h : w.Inv) (hs : w.Ready s)
    (hstep : step w s = some w') : w'.Inv := by
  cases s with
  | connect t savedErrno =>
    obtain rfl := Option.some.inj hstep
    have hflag : Inv { w with connect_ := true } := h.frame rfl rfl rfl rfl rfl
    cases t with
    | loop => exact hflag.startInLoop savedErrno hs
    | other n => exact h.frame rfl rfl rfl rfl rfl
  | disconnect =>
    obtain rfl := Option.some.inj hstep
    exact h.disconnect
  | stop =>
    obtain rfl := Option.some.inj hstep
    exact h.frame rfl rfl rfl rfl rfl
  | enableRetry =>
    obtain rfl := Option.some.inj hstep
    exact h.frame rfl rfl rfl rfl rfl
  | event revents err selfConnect =>
    obtain ⟨-, hmap⟩ := Option.ite_none_right_eq_some.mp hstep
    obtain ⟨connector, hevent, rfl⟩ := Option.map_eq_some_iff.mp hmap
    exact h.afterEvent (Connectors.World.event_outcome hevent)
  | timer savedErrno =>
    obtain ⟨hclosing, hmap⟩ := Option.ite_none_right_eq_some.mp hstep
    obtain ⟨connector, htimer, rfl⟩ := Option.map_eq_some_iff.mp hmap
    obtain ⟨hpos, rfl⟩ := eq_of_guarded htimer
    exact h.startInLoop savedErrno (hs (Option.isNone_iff_eq_none.mp hclosing) hpos)
  | functor savedErrno =>
    rw [step] at hstep
    cases hq : w.pendingFunctors_ with
    | nil =>
      rw [hq] at hstep
      exact nomatch hstep
    | cons f fs =>
      rw [hq] at hstep
      obtain ⟨hclosing, hrun⟩ := Option.ite_none_right_eq_some.mp hstep
      have hpopped : Inv { w with pendingFunctors_ := fs } := h.frame rfl rfl rfl rfl rfl
      refine hpopped.runFunctor (fun hf => ?_) hrun
      exact hs (Option.isNone_iff_eq_none.mp hclosing) (by rw [hq, hf]; rfl)
  | handleClose c =>
    obtain ⟨hc, rfl⟩ := eq_of_guarded hstep
    exact h.handleClose (Bool.and_eq_true_iff.mp hc).2
  | closeCallback savedErrno =>
    obtain ⟨c, hc, rfl⟩ := Option.map_eq_some_iff.mp hstep
    obtain ⟨hstored, hdead⟩ := h.closing c hc
    exact h.removeConnection hstored hdead savedErrno

/-- A step that meets the condition starts the attempt that is asked for. -/
theorem reconnects_step (w : World) (s : Step) (w' : World) (hs : w.Ready s)
    (hstep : step w s = some w') : Reconnects w s w' := by
  intro _
  cases s with
  | connect t savedErrno =>
    obtain rfl := Option.some.inj hstep
    cases t with
    | loop =>
      have hstart := Connectors.World.startInLoop_attempts
        (w := { w.connector_ with connect_ := true }) rfl savedErrno
      rw [hs] at hstart
      exact hstart
    | other n => exact List.mem_append_right _ List.mem_cons_self
  | functor savedErrno =>
    intro hhead
    rw [step] at hstep
    cases hq : w.pendingFunctors_ with
    | nil =>
      rw [hq] at hhead
      exact nomatch hhead
    | cons f fs =>
      rw [hq] at hhead hstep
      obtain rfl := Option.some.inj hhead
      obtain ⟨hclosing, hrun⟩ := Option.ite_none_right_eq_some.mp hstep
      obtain rfl := Option.some.inj hrun
      have hstate := hs (Option.isNone_iff_eq_none.mp hclosing) (by rw [hq]; rfl)
      have hassert := Connectors.World.startInLoop_asserts w.connector_ savedErrno
      rw [hstate] at hassert
      refine ⟨hassert, fun hconnect => ?_⟩
      have hstart := Connectors.World.startInLoop_attempts hconnect savedErrno
      rw [hstate] at hstart
      exact hstart
  | disconnect | stop | enableRetry | event | timer | handleClose | closeCallback =>
    exact True.intro

/-- In a run whose steps meet the condition, a client has one connection at a time and
connects again when it is told to. -/
theorem one_connection_of_ready (steps : List Step) (hmeet : StepsMeet step Ready new steps) :
    EveryState step OneConnection new steps ∧ EveryStep step Reconnects new steps := by
  refine ⟨everyState_invariant step (fun w h => h.toOneConnection) inv_step inv_new hmeet, ?_⟩
  exact hmeet.mono step fun w s hs w' hstep => reconnects_step w s w' hs hstep

/-- The peer closes the connection, the client's own attempt to connect again is refused, and
the user connects again before the retry timer expires. -/
def reconnects : List Step :=
  [.enableRetry, .connect (.other 0) .success, .functor .EINPROGRESS,
    .event { pollout := true } false false, .functor .success, .handleClose 0,
    .closeCallback .ECONNREFUSED, .functor .success, .connect .loop .EINPROGRESS,
    .event { pollout := true } false false, .functor .success]

theorem one_connection_of_ready_reconnects :
    StepsMeet step Ready new reconnects ∧
      (EveryState step OneConnection new reconnects ∧ EveryStep step Reconnects new reconnects) ∧
      ∃ w ∈ run step new reconnects, w.connection_ = some 1 := by
  have hmeet : StepsMeet step Ready new reconnects := by decide
  exact ⟨hmeet, one_connection_of_ready reconnects hmeet, by decide⟩

/-- The peer closes the connection, and the user connects again. -/
def connectsAgain : List Step :=
  [.connect .loop .EINPROGRESS, .event { pollout := true } false false, .functor .success,
    .handleClose 0, .closeCallback .success, .functor .success, .connect .loop .EINPROGRESS]

theorem one_connection_fails_connectsAgain :
    ¬ ∀ steps, EveryState step OneConnection new steps ∧ EveryStep step Reconnects new steps := by
  intro h
  have hfails : ¬ EveryStep step Reconnects new connectsAgain := by decide
  exact hfails (h connectsAgain).2

end World

end Cnet.Net.Clients
