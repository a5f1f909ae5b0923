import Cnet.Support.Runs
import Cnet.Net.Connector

/-!
# One attempt at a time

`startInLoop` is entered disconnected, an attempt begins without a channel, only
removed channels are destroyed, and every socket ends closed or handed over. A retry
timer that outlives its attempt, a channel still waiting for `resetChannel`, a `start`
in another state and a `restart` over an attempt each break it; `Orderly` runs have
none of them.
-/

namespace Cnet.Net.Connectors

open Cnet.Support

namespace World

/-- The socket of the attempt in progress. -/
def current (w : World) : Option Nat :=
  if w.state_ = .kConnecting then w.channel_.map SocketChannel.fd else none

structure OneAttempt (w : World) : Prop where
  entered : ∀ s, .startInLoop s ∈ w.trace → s = .kDisconnected
  single : ∀ c, .connecting c ∈ w.trace → c = none
  removed : ∀ c, .resetChannel (some c) ∈ w.trace → c.channel.slot = Slot.absent
  settled : ∀ s, .socket s ∈ w.trace →
    w.trace.count (.close s) + w.trace.count (.newConnectionCallback s) =
      if w.current = some s then 0 else 1

end World

/-- The results of `connect(2)` that leave an attempt in progress. -/
def SavedErrno.inProgress : SavedErrno → Bool
  | .success | .EINPROGRESS | .EINTR | .EISCONN => true
  | _ => false

namespace World

/-- The step begins an attempt that stays in progress. -/
def begins (w : World) : Step → Bool
  | .start savedErrno | .restart savedErrno => savedErrno.inProgress
  | .timer savedErrno => w.connect_ && savedErrno.inProgress
  | _ => false

/-- The retry timers left when the step has taken its own. -/
def otherTimers (w : World) : Step → Nat
  | .timer _ => w.retryTimers - 1
  | _ => w.retryTimers

/-- The condition on a step, at the state it starts from. -/
structure Orderly (w : World) (s : Step) : Prop where
  start : ∀ savedErrno, s = .start savedErrno → w.state_ = .kDisconnected
  restart : ∀ savedErrno, s = .restart savedErrno → w.state_ ≠ .kConnecting
  /-- An attempt begins when no retry timer is left and no channel waits to be reset. -/
  alone : w.begins s = true → w.otherTimers s = 0 ∧ .resetChannel ∉ w.pendingFunctors_

instance (w : World) (s : Step) : Decidable (w.Orderly s) :=
  let states : Prop :=
    match s with
    | .start _ => w.state_ = .kDisconnected
    | .restart _ => w.state_ ≠ .kConnecting
    | _ => True
  have : Decidable states := by
    unfold states
    split <;> infer_instance
  decidable_of_iff (states ∧
      (w.begins s = true → w.otherTimers s = 0 ∧ .resetChannel ∉ w.pendingFunctors_)) (by
    constructor
    · rintro ⟨hs, ha⟩
      exact ⟨by rintro e rfl; exact hs, by rintro e rfl; exact hs, ha⟩
    · rintro ⟨h1, h2, ha⟩
      refine ⟨?_, ha⟩
      unfold states
      split
      · exact h1 _ rfl
      · exact h2 _ rfl
      · trivial)

end World

/-- What the history may say of one event. -/
def Event.ok : Event → Prop
  | .startInLoop state => state = .kDisconnected
  | .connecting channel => channel = none
  | .resetChannel channel => ∀ c ∈ channel, c.channel.slot = Slot.absent
  | _ => True

/-- Nothing happens to a socket. -/
def Event.inert : Event → Bool
  | .socket _ | .close _ | .newConnectionCallback _ => false
  | _ => true

/-- The account of the sockets: all but the current one are closed or handed over, once. -/
structure Books (trace : List Event) (sockets : Nat) (current : Option Nat) : Prop where
  ok : ∀ e ∈ trace, e.ok
  made : ∀ s, .socket s ∈ trace → s < sockets
  bound : ∀ s ∈ current, s < sockets
  settled : ∀ s, trace.count (.close s) + trace.count (.newConnectionCallback s) =
    if s < sockets ∧ current ≠ some s then 1 else 0

namespace Books

variable {trace : List Event} {n s : Nat} {current : Option Nat}

theorem nil : Books [] 0 none where
  ok := fun _ h => absurd h List.not_mem_nil
  made := fun _ h => absurd h List.not_mem_nil
  bound := nofun
  settled := fun s => by simp

theorem ok_append (h : Books trace n current) {e : Event} (hok : e.ok) :
    ∀ e' ∈ trace ++ [e], e'.ok :=
  List.forall_mem_append.mpr ⟨h.ok, List.forall_mem_singleton.mpr hok⟩

theorem inert (h : Books trace n current) {e : Event} (hok : e.ok) (he : e.inert = true) :
    Books (trace ++ [e]) n current where
  ok := h.ok_append hok
  made := by
    intro s hs
    rcases List.mem_append.mp hs with hs | hs
    · exact h.made s hs
    · rw [← List.mem_singleton.mp hs] at he
      exact absurd he (by simp [Event.inert])
  bound := h.bound
  settled := by
    intro s
    have hclose : e ≠ .close s := by rintro rfl; exact absurd he (by simp [Event.inert])
    have hnew : e ≠ .newConnectionCallback s := by
      rintro rfl; exact absurd he (by simp [Event.inert])
    rw [List.count_append, List.count_append, List.count_singleton, List.count_singleton,
      ← h.settled s]
    simp [hclose, hnew]

/-- A new socket becomes the current one. -/
theorem socket (h : Books trace n none) : Books (trace ++ [.socket n]) (n + 1) (some n) where
  ok := h.ok_append True.intro
  made := by
    intro s hs
    rcases List.mem_append.mp hs with hs | hs
    · exact Nat.lt_succ_of_lt (h.made s hs)
    · rw [Event.socket.inj (List.mem_singleton.mp hs)]
      exact Nat.lt_succ_self n
  bound := by
    rintro s ⟨rfl⟩
    exact Nat.lt_succ_self n
  settled := by
    intro s
    have hsame : (s < n ∧ none ≠ some s) ↔ (s < n + 1 ∧ some n ≠ some s) := by
      simp only [ne_eq, reduceCtorEq, not_false_eq_true, and_true, Option.some.injEq]
      omega
    have := h.settled s
    rw [if_congr hsame rfl rfl] at this
    simpa [List.count_append] using this

/-- The current socket is closed or handed over. -/
theorem settle (h : Books trace n (some s)) {e : Event}
    (he : e = .close s ∨ e = .newConnectionCallback s) : Books (trace ++ [e]) n none where
  ok := h.ok_append (by rcases he with rfl | rfl <;> trivial)
  made := by
    intro s' hs
    rcases List.mem_append.mp hs with hs | hs
    · exact h.made s' hs
    · have := List.mem_singleton.mp hs
      rcases he with rfl | rfl <;> exact absurd this (by simp)
  bound := nofun
  settled := by
    intro s'
    have hlt : s < n := h.bound s rfl
    have hold := h.settled s'
    by_cases hs : s' = s
    · subst hs
      rw [if_neg (by simp)] at hold
      rw [if_pos ⟨hlt, nofun⟩]
      rcases he with rfl | rfl <;> simp [List.count_append] <;> omega
    · have hs' : s ≠ s' := fun e => hs e.symm
      have hsame : (s' < n ∧ some s ≠ some s') ↔ (s' < n ∧ none ≠ some s') := by simp [hs']
      rw [if_congr hsame rfl rfl] at hold
      rcases he with rfl | rfl <;> simpa [List.count_append, hs'] using hold

end Books

namespace World

/-- A channel that is still there has been removed, and waits for `resetChannel`. -/
def Detached (w : World) : Prop :=
  ∀ c ∈ w.channel_, c.channel.slot = Slot.absent ∧ .resetChannel ∈ w.pendingFunctors_

/-- No attempt is in progress. -/
structure Idle (w : World) : Prop where
  state : w.state_ ≠ .kConnecting
  books : Books w.trace w.sockets none
  detached : w.Detached
  timers : 0 < w.retryTimers → w.state_ = .kDisconnected

/-- One attempt is in progress, and nothing is left of earlier ones. -/
structure Attempting (w : World) (sockfd : Nat) : Prop where
  state : w.state_ = .kConnecting
  books : Books w.trace w.sockets (some sockfd)
  channel : w.channel_ = some ⟨sockfd, Channel.new.enableWriting⟩
  unqueued : .resetChannel ∉ w.pendingFunctors_
  timers : w.retryTimers = 0

def Inv (w : World) : Prop := w.Idle ∨ ∃ sockfd, w.Attempting sockfd

theorem OneAttempt.of_books {w : World} (h : Books w.trace w.sockets w.current) : w.OneAttempt where
  entered := fun _ hs => h.ok _ hs
  single := fun _ hc => h.ok _ hc
  removed := fun c hc => h.ok _ hc c rfl
  settled := by
    intro s hs
    have hlt := h.made s hs
    rw [h.settled s]
    by_cases hc : w.current = some s
    · rw [if_pos hc, if_neg fun hn => hn.2 hc]
    · rw [if_neg hc, if_pos ⟨hlt, hc⟩]

theorem Inv.oneAttempt {w : World} (h : w.Inv) : w.OneAttempt := by
  apply OneAttempt.of_books
  rcases h with h | ⟨sockfd, h⟩
  · rw [current, if_neg h.state]
    exact h.books
  · rw [current, if_pos h.state, h.channel]
    exact h.books

theorem inv_new : new.Inv := .inl ⟨by decide, .nil, (fun _ hc => nomatch hc), fun _ => rfl⟩

variable {w : World} {sockfd : Nat}

/-- `retry` closes the socket in hand. -/
theorem retry_idle (hb : Books w.trace w.sockets (some sockfd)) (hd : w.Detached) :
    (w.retry sockfd).Idle := by
  have hclosed := hb.settle (.inl rfl)
  rw [retry]
  by_cases hc : w.connect_ = true
  · rw [if_pos (by exact hc)]
    exact ⟨nofun, hclosed.inert (e := .runAfter w.retryDelayMs_) trivial rfl, hd, fun _ => rfl⟩
  · rw [if_neg (by exact hc)]
    exact ⟨nofun, hclosed, hd, fun _ => rfl⟩

/-- What `connect` does with a result. -/
theorem connect_cases (savedErrno : SavedErrno) (w : World) :
    let w₁ := record (.socket w.sockets) { w with sockets := w.sockets + 1 }
    (savedErrno.inProgress = true ∧ w.connect savedErrno = w₁.connecting w.sockets) ∨
      w.connect savedErrno = w₁.retry w.sockets ∨
      w.connect savedErrno = w₁.record (.close w.sockets) := by
  cases savedErrno with
  | success | EINPROGRESS | EINTR | EISCONN => exact .inl ⟨rfl, rfl⟩
  | EAGAIN | EADDRINUSE | EADDRNOTAVAIL | ECONNREFUSED | ENETUNREACH => exact .inr (.inl rfl)
  | EACCES | EPERM | EAFNOSUPPORT | EALREADY | EBADF | EFAULT | ENOTSOCK => exact .inr (.inr rfl)
  | other n => exact .inr (.inr rfl)

/-- `startInLoop` in state `kDisconnected`, alone if it begins an attempt. -/
theorem startInLoop_inv {savedErrno : SavedErrno} (hs : w.state_ = .kDisconnected)
    (hb : Books w.trace w.sockets none) (hd : w.Detached)
    (halone : w.connect_ = true → savedErrno.inProgress = true →
      w.retryTimers = 0 ∧ .resetChannel ∉ w.pendingFunctors_) :
    (w.startInLoop savedErrno).Inv := by
  have hentered : Books (w.record (.startInLoop w.state_)).trace w.sockets none :=
    hb.inert (e := .startInLoop w.state_) hs rfl
  rw [startInLoop]
  by_cases hc : w.connect_ = true
  · rw [if_pos (by exact hc)]
    have hopen := hentered.socket
    rcases connect_cases savedErrno (w.record (.startInLoop w.state_)) with
      ⟨hp, heq⟩ | heq | heq
    · rw [heq]
      obtain ⟨htimers, hreset⟩ := halone hc hp
      have hnone : w.channel_ = none := by
        cases hch : w.channel_ with
        | none => rfl
        | some c => exact absurd (hd c hch).2 hreset
      exact .inr ⟨w.sockets, rfl, hopen.inert (e := .connecting w.channel_) hnone rfl, rfl,
        hreset, htimers⟩
    · rw [heq]
      exact .inl (retry_idle hopen hd)
    · rw [heq]
      exact .inl ⟨fun h => absurd (hs.symm.trans h) nofun, hopen.settle (.inl rfl), hd, fun _ => hs⟩
  · rw [if_neg (by exact hc)]
    exact .inl ⟨fun h => absurd (hs.symm.trans h) nofun, hentered, hd, fun _ => hs⟩

/-- The attempt in progress gives up its channel, and has its socket in hand. -/
theorem Attempting.remove (h : w.Attempting sockfd) :
    ∃ w', w.removeAndResetChannel = some (sockfd, w') ∧ w'.Detached ∧
      Books w'.trace w'.sockets (some sockfd) ∧ w'.connect_ = w.connect_ ∧ w'.retryTimers = 0 := by
  refine ⟨queueInLoop .resetChannel { w with
    channel_ := some ⟨sockfd, Channel.new.enableWriting.disableAll.remove⟩ }, ?_, ?_, h.books,
    rfl, h.timers⟩
  · rw [removeAndResetChannel, h.channel]
  · rintro c ⟨rfl⟩
    exact ⟨rfl, List.mem_append_right _ (List.mem_singleton.mpr rfl)⟩

/-- `stopInLoop` ends an attempt in progress, and does nothing otherwise. -/
theorem stopInLoop_inv (h : w.Inv) : ∃ w', w.stopInLoop = some w' ∧ w'.Inv := by
  rw [stopInLoop]
  rcases h with h | ⟨sockfd, h⟩
  · rw [if_neg h.state]
    exact ⟨w, rfl, .inl h⟩
  · rw [if_pos h.state]
    have hchannel : (w.setState .kDisconnected).removeAndResetChannel =
        (w.removeAndResetChannel).map fun r => (r.1, r.2.setState .kDisconnected) := by
      rw [removeAndResetChannel, removeAndResetChannel]
      cases hc : w.channel_ <;> simp [setState, hc, queueInLoop]
    obtain ⟨w₁, hw, hd, hb, -⟩ := h.remove
    rw [hchannel, hw]
    exact ⟨_, rfl, .inl (retry_idle hb hd)⟩

/-- `handleError` ends an attempt in progress, and does nothing otherwise. -/
theorem handleError_inv (h : w.Inv) : ∃ w', w.handleError = some w' ∧ w'.Inv := by
  rw [handleError]
  rcases h with h | ⟨sockfd, h⟩
  · rw [if_neg h.state]
    exact ⟨w, rfl, .inl h⟩
  · obtain ⟨w₁, hw, hd, hb, -⟩ := h.remove
    rw [if_pos h.state, hw]
    exact ⟨_, rfl, .inl (retry_idle hb hd)⟩

/-- `handleWrite` ends an attempt in progress: the socket is retried, handed over, or
closed when the connector has been stopped. -/
theorem handleWrite_inv (h : w.Inv) (err selfConnect : Bool) :
    ∃ w', w.handleWrite err selfConnect = some w' ∧ w'.Inv := by
  rw [handleWrite]
  rcases h with h | ⟨sockfd, h⟩
  · rw [if_neg h.state]
    exact ⟨w, rfl, .inl h⟩
  · obtain ⟨w₁, hw, hd, hb, hc, ht⟩ := h.remove
    have hidle : ∀ e, e = .close sockfd ∨ e = .newConnectionCallback sockfd →
        ((w₁.setState .kConnected).record e).Idle := by
      intro e he
      refine ⟨nofun, hb.settle he, hd, fun hpos => ?_⟩
      exact absurd (ht ▸ hpos : 0 < 0) (Nat.lt_irrefl 0)
    rw [if_pos h.state, hw]
    simp only [Option.bind_eq_bind, Option.bind_some]
    by_cases herr : err = true
    · rw [if_pos herr]
      exact ⟨_, rfl, .inl (retry_idle hb hd)⟩
    · rw [if_neg herr]
      by_cases hself : selfConnect = true
      · rw [if_pos hself]
        exact ⟨_, rfl, .inl (retry_idle hb hd)⟩
      · rw [if_neg hself]
        by_cases hcon : (w₁.setState .kConnected).connect_ = true
        · rw [if_pos hcon]
          exact ⟨_, rfl, .inl (hidle _ (.inr rfl))⟩
        · rw [if_neg hcon]
          exact ⟨_, rfl, .inl (hidle _ (.inl rfl))⟩

theorem handleEvent_inv (h : w.Inv) (revents : PollMask) (err selfConnect : Bool) :
    ∃ w', w.handleEvent revents err selfConnect = some w' ∧ w'.Inv := by
  have hfirst : ∃ w₁, (if revents.pollerr || revents.pollnval then w.handleError else some w) =
      some w₁ ∧ w₁.Inv := by
    split
    · exact handleError_inv h
    · exact ⟨w, rfl, h⟩
  obtain ⟨w₁, hw₁, h₁⟩ := hfirst
  rw [handleEvent, hw₁, Option.bind_some]
  split
  · exact handleWrite_inv h₁ err selfConnect
  · exact ⟨w₁, rfl, h₁⟩

/-- A functor leaves the queue before it runs. -/
theorem runFunctor_inv (h : w.Inv) {f : Functor} {fs : List Functor}
    (hf : w.pendingFunctors_ = f :: fs) :
    ∃ w', runFunctor f { w with pendingFunctors_ := fs } = some w' ∧ w'.Inv := by
  cases f with
  | stopInLoop =>
    apply stopInLoop_inv
    rcases h with h | ⟨sockfd, h⟩
    · refine .inl ⟨h.state, h.books, fun c hc => ⟨(h.detached c hc).1, ?_⟩, h.timers⟩
      have hq := (h.detached c hc).2
      rw [hf] at hq
      exact (List.mem_cons.mp hq).resolve_left nofun
    · refine .inr ⟨sockfd, h.state, h.books, h.channel, fun hq => h.unqueued ?_, h.timers⟩
      rw [hf]
      exact List.mem_cons_of_mem _ hq
  | resetChannel =>
    rcases h with h | ⟨sockfd, h⟩
    · have hok : (Event.resetChannel w.channel_).ok := fun c hc => (h.detached c hc).1
      exact ⟨_, rfl, .inl ⟨h.state, h.books.inert hok rfl, (fun _ hc => nomatch hc), h.timers⟩⟩
    · exact absurd (hf ▸ List.mem_cons_self) h.unqueued

/-- Every orderly step keeps the invariant. -/
theorem inv_step (w : World) (s : Step) (w' : World) (h : w.Inv) (hs : w.Orderly s)
    (hstep : step w s = some w') : w'.Inv := by
  cases s with
  | start savedErrno =>
    obtain rfl := Option.some.inj hstep
    have hstate := hs.start savedErrno rfl
    rcases h with h | ⟨sockfd, h⟩
    · exact startInLoop_inv hstate h.books h.detached fun _ hp => hs.alone hp
    · exact absurd (h.state.symm.trans hstate) nofun
  | stop =>
    obtain rfl := Option.some.inj hstep
    rcases h with h | ⟨sockfd, h⟩
    · refine .inl ⟨h.state, h.books, fun c hc => ⟨(h.detached c hc).1, ?_⟩, h.timers⟩
      exact List.mem_append_left _ (h.detached c hc).2
    · refine .inr ⟨sockfd, h.state, h.books, h.channel, fun hq => ?_, h.timers⟩
      rcases List.mem_append.mp hq with hq | hq
      · exact h.unqueued hq
      · exact absurd (List.mem_singleton.mp hq) nofun
  | restart savedErrno =>
    obtain rfl := Option.some.inj hstep
    rcases h with h | ⟨sockfd, h⟩
    · exact startInLoop_inv rfl h.books h.detached fun _ hp => hs.alone hp
    · exact absurd h.state (hs.restart savedErrno rfl)
  | event revents err selfConnect =>
    rw [step] at hstep
    split at hstep
    · split at hstep
      · split at hstep
        · obtain ⟨w₁, hw₁, h₁⟩ := handleEvent_inv h revents err selfConnect
          rw [hstep] at hw₁
          obtain rfl := Option.some.inj hw₁
          exact h₁
        · exact nomatch hstep
      · exact nomatch hstep
    · exact nomatch hstep
  | timer savedErrno =>
    rw [step] at hstep
    by_cases hpos : 0 < w.retryTimers
    · rw [if_pos hpos] at hstep
      obtain rfl := Option.some.inj hstep
      rcases h with h | ⟨sockfd, h⟩
      · refine startInLoop_inv (h.timers hpos) h.books h.detached fun hc hp => ?_
        exact hs.alone (by rw [begins, hp, Bool.and_true]; exact hc)
      · exact absurd (h.timers ▸ hpos : 0 < 0) (Nat.lt_irrefl 0)
    · rw [if_neg hpos] at hstep
      exact nomatch hstep
  | functor =>
    rw [step] at hstep
    cases hf : w.pendingFunctors_ with
    | nil =>
      rw [hf] at hstep
      exact nomatch hstep
    | cons f fs =>
      rw [hf] at hstep
      obtain ⟨w₁, hw₁, h₁⟩ := runFunctor_inv h hf
      obtain rfl := Option.some.inj (hw₁.symm.trans hstep)
      exact h₁

/-- In every run of orderly steps there is one attempt at a time, and no socket is lost. -/
theorem one_attempt_of_orderly (steps : List Step) (hok : StepsMeet step Orderly new steps) :
    ∀ w ∈ run step new steps, w.OneAttempt :=
  fun _ hw => (run_invariant step inv_step inv_new hok hw).oneAttempt

/-- A refused attempt is retried and fails, the next one is stopped, and the connector is
started again when the channel has been reset. -/
def startsAgain : List Step :=
  [.start .ECONNREFUSED, .timer .EINPROGRESS,
    .event { pollerr := true, pollout := true } true false, .functor, .timer .EINPROGRESS, .stop,
    .functor, .functor, .start .success,
    .event { pollout := true } false false, .functor, .restart .EACCES]

theorem one_attempt_of_orderly_startsAgain :
    StepsMeet step Orderly new startsAgain ∧
      ∃ w ∈ run step new startsAgain, w.sockets = 5 ∧ w.OneAttempt := by
  have hok : StepsMeet step Orderly new startsAgain := by decide
  have hrun : ∃ w ∈ run step new startsAgain, w.sockets = 5 := by decide
  obtain ⟨w, hw, hsockets⟩ := hrun
  exact ⟨hok, w, hw, hsockets, one_attempt_of_orderly startsAgain hok w hw⟩

/-- A refused attempt leaves a retry timer; `stop` and `start` begin the next attempt, and
the timer expires in it. -/
def staleTimer : List Step :=
  [.start .ECONNREFUSED, .stop, .functor, .start .EINPROGRESS, .timer .EINPROGRESS]

theorem one_attempt_fails_staleTimer :
    ¬ ∀ steps, ∀ w ∈ run step new steps, w.OneAttempt := by
  intro h
  have hrun : ∃ w ∈ run step new staleTimer, Event.startInLoop .kConnecting ∈ w.trace := by decide
  obtain ⟨w, hw, hentered⟩ := hrun
  exact absurd ((h staleTimer w hw).entered _ hentered) nofun

end World

end Cnet.Net.Connectors
