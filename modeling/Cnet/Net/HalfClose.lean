import Cnet.Support.History
import Cnet.Net.OutputStream
import Cnet.Net.ConnectionThreads

/-!
# Half-close

When `SHUT_WR` is issued, and what may still move afterwards: the contract, and the
invariant it follows from, with what the functions of one connection do to it.
-/

namespace Cnet.Net

open Cnet.Support

namespace Event

@[simp] def acceptedMessage : Event → List Sent
  | .accepted t message => [(t, message)]
  | _ => []

/-- A message that `sendInLoop` has run with. -/
@[simp] def executedMessage : Event → List Sent
  | .processed t message _ => [(t, message)]
  | .gaveUp t message => [(t, message)]
  | _ => []

@[simp] def gaveUpMessage : Event → List Sent
  | .gaveUp t message => [(t, message)]
  | _ => []

@[simp] def isShutdownWrite : Event → Bool
  | .shutdownWrite _ => true
  | _ => false

/-- Bytes are passed to `write`, or put in the output buffer. -/
@[simp] def movesBytes : Event → Bool
  | .write data _ => !data.isEmpty
  | .buffered data => !data.isEmpty
  | _ => false

/-- An event that is no part of sending or half-closing. -/
@[simp] def inert : Event → Bool
  | .send _ _ | .connectionCallback _ | .messageCallback | .closeCallback | .handleClose _ => true
  | _ => false

/-- What an event that is no part of sending or half-closing is not. -/
theorem of_inert {e : Event} (h : e.inert = true) : e.isShutdownWrite = false ∧
    e.acceptedMessage = [] ∧ e.executedMessage = [] ∧ e.movesBytes = false := by
  cases e with
  | send | connectionCallback | messageCallback | closeCallback | handleClose =>
    exact ⟨rfl, rfl, rfl, rfl⟩
  | _ => exact absurd h (by simp)

end Event

def accepted (trace : List Event) : List Sent := trace.flatMap Event.acceptedMessage
def executed (trace : List Event) : List Sent := trace.flatMap Event.executedMessage

/-- The bytes of one thread's messages. -/
def bytesOf (t : Thread) (l : List Sent) : Bytes := (ofThread t l).flatMap Prod.snd

/-- `SHUT_WR` has been issued. -/
def issued (trace : List Event) : Prop := ∃ out, Event.shutdownWrite out ∈ trace

instance (trace : List Event) : Decidable (issued trace) :=
  decidable_of_iff (∃ e ∈ trace, e.isShutdownWrite = true) (by
    constructor
    · rintro ⟨e, he, hs⟩
      cases e with
      | shutdownWrite out => exact ⟨out, he⟩
      | _ => exact absurd hs (by simp)
    · rintro ⟨out, h⟩
      exact ⟨_, h, rfl⟩)

/-- Every message given up carried no bytes. -/
def gaveUpNothing (trace : List Event) : Prop :=
  ∀ t message, Event.gaveUp t message ∈ trace → message = []

instance (trace : List Event) : Decidable (gaveUpNothing trace) :=
  decidable_of_iff (∀ e ∈ trace, ∀ x ∈ e.gaveUpMessage, x.2 = []) (by
    constructor
    · intro h t message hm
      exact h _ hm (t, message) (by simp)
    · intro h e he x hx
      cases e with
      | gaveUp t message =>
        obtain rfl : x = (t, message) := by simpa using hx
        exact h t message he
      | _ => exact absurd hx (by simp))

/-- The half-close contract. A message whose own direct write met `EPIPE` or
`ECONNRESET` counts as processed, and hands over nothing. -/
structure World.HalfClose (w : World) : Prop where
  empty : ∀ out, Event.shutdownWrite out ∈ w.trace → out = []
  /-- What was accepted before `shutdown()` is handed over before `SHUT_WR`. -/
  written : ∀ pre out post, w.trace = pre ++ .shutdownWrite out :: post →
    ∀ before p rest, pre = before ++ .shutdown p :: rest →
      (∀ t, bytesOf t (accepted before) <+: bytesOf t (processed pre)) ∧
      handed pre = (kept pre).flatMap Prod.snd
  /-- Output pending at `shutdown()`: the `handleWrite` that drains it issues `SHUT_WR`. -/
  drains : ∀ p, p ≠ [] → Event.shutdown p ∈ w.trace → ∀ r, w.outputBuffer_ ≠ [] →
    (w.handleWrite r).outputBuffer_ = [] →
    (w.handleWrite r).trace = w.trace ++ [.write w.outputBuffer_ r, .shutdownWrite []]
  /-- No byte moves after `SHUT_WR`. -/
  silent : w.trace.Pairwise fun a b => a.isShutdownWrite = true → b.movesBytes = false

/-- The steps of the loop thread that issue `SHUT_WR`, short of a call of `shutdown()`. -/
def World.issues (w : World) : Step → Bool
  | .functor _ => w.pendingFunctors_.head? = some .shutdownInLoop && !w.channel_.isWriting
  | .resume _ write =>
      match w.frames with
      | .checkWrite revents :: _ =>
        revents.pollout && w.state_ = .kDisconnecting && w.channel_.isWriting &&
          write.nwrote w.outputBuffer_.length = w.outputBuffer_.length
      | _ => false
  | _ => false

/-- No message with bytes is waiting in `pendingFunctors_`. -/
def World.NothingQueued (w : World) : Prop := ∀ x ∈ queued w.pendingFunctors_, x.2 = []

/-- No output is pending, and none was given up. -/
def World.Clean (w : World) : Prop := w.outputBuffer_ = [] ∧ gaveUpNothing w.trace

theorem World.NothingQueued.congr {w w' : World} (h : w.NothingQueued)
    (hq : queued w'.pendingFunctors_ = queued w.pendingFunctors_) : w'.NothingQueued := by
  rw [NothingQueued, hq]
  exact h

instance (w : World) : Decidable w.NothingQueued :=
  inferInstanceAs (Decidable (∀ x ∈ queued w.pendingFunctors_, x.2 = []))

instance (w : World) : Decidable w.Clean :=
  inferInstanceAs (Decidable (w.outputBuffer_ = [] ∧ gaveUpNothing w.trace))

/-- What holds of the history when `SHUT_WR` is issued with `out` pending. -/
structure SettledAt (pre : List Event) (out : Bytes) : Prop where
  empty : out = []
  handed : Net.handed pre = (kept pre).flatMap Prod.snd
  all : ∀ t, bytesOf t (accepted pre) = bytesOf t (processed pre)

def Settled (trace : List Event) : Prop :=
  ∀ pre out post, trace = pre ++ .shutdownWrite out :: post → SettledAt pre out

def Silent (trace : List Event) : Prop :=
  trace.Pairwise fun a b => a.isShutdownWrite = true → b.movesBytes = false

theorem issued_append {trace es : List Event} (hes : ∀ e ∈ es, e.isShutdownWrite = false) :
    issued (trace ++ es) ↔ issued trace := by
  constructor
  · rintro ⟨out, h⟩
    rcases List.mem_append.mp h with h | h
    · exact ⟨out, h⟩
    · exact absurd (hes _ h) (by simp)
  · rintro ⟨out, h⟩
    exact ⟨out, List.mem_append_left _ h⟩

theorem Settled.append {trace es : List Event} (h : Settled trace)
    (hes : ∀ e ∈ es, e.isShutdownWrite = false) : Settled (trace ++ es) := by
  intro pre out post heq
  rcases append_cases heq with ⟨post', htrace⟩ | hmem
  · exact h pre out post' htrace
  · exact absurd (hes _ hmem) (by simp)

theorem Settled.issue {trace : List Event} (h : Settled trace) {out : Bytes}
    (hat : SettledAt trace out) : Settled (trace ++ [.shutdownWrite out]) := by
  intro pre out' post heq
  rcases snoc_cases heq with ⟨rfl, he⟩ | ⟨post', htrace⟩
  · obtain rfl := Event.shutdownWrite.inj he
    exact hat
  · exact h pre out' post' htrace

theorem Silent.append {trace es : List Event} (h : Silent trace)
    (hes : ∀ e ∈ es, e.isShutdownWrite = false)
    (hq : issued trace → ∀ e ∈ es, e.movesBytes = false) : Silent (trace ++ es) := by
  refine List.pairwise_append.mpr ⟨h, ?_, ?_⟩
  · exact List.pairwise_of_forall_mem_list fun a ha b hb hs => absurd hs (by rw [hes a ha]; nofun)
  · intro a ha b hb hs
    refine hq ?_ b hb
    cases a with
    | shutdownWrite out => exact ⟨out, ha⟩
    | _ => exact absurd hs (by simp)

theorem Silent.issue {trace : List Event} (h : Silent trace) (out : Bytes) :
    Silent (trace ++ [.shutdownWrite out]) := by
  refine List.pairwise_append.mpr ⟨h, List.pairwise_singleton _ _, ?_⟩
  intro a ha b hb hs
  rw [List.mem_singleton.mp hb]
  rfl

/-- Messages given up without bytes make no difference to the bytes processed. -/
theorem bytesOf_executed {trace : List Event} (h : gaveUpNothing trace) (t : Thread) :
    bytesOf t (executed trace) = bytesOf t (processed trace) := by
  induction trace with
  | nil => rfl
  | cons e trace ih =>
    have ih := ih fun t message hm => h t message (List.mem_cons_of_mem _ hm)
    cases e with
    | gaveUp u message =>
      have hm := h u message List.mem_cons_self
      subst hm
      by_cases hu : u = t <;>
        simpa [bytesOf, executed, processed, ofThread, hu] using ih
    | processed u message direct =>
      by_cases hu : u = t <;>
        simpa [bytesOf, executed, processed, ofThread, hu] using ih
    | _ => simpa [bytesOf, executed, processed, ofThread] using ih

theorem bytesOf_eq_nil {l : List Sent} (h : ∀ x ∈ l, x.2 = []) (t : Thread) :
    bytesOf t l = [] := by
  rw [bytesOf, List.flatMap_eq_nil_iff]
  intro x hx
  exact h x (List.mem_of_mem_filter hx)

@[simp] theorem bytesOf_append (t : Thread) (l l' : List Sent) :
    bytesOf t (l ++ l') = bytesOf t l ++ bytesOf t l' := by
  simp [bytesOf]

namespace World

def closing (w : World) : Prop := w.state_ = .kDisconnecting ∨ w.state_ = .kDisconnected

/-- `shutdown()` has taken effect, or `SHUT_WR` is out or on its way. -/
def asked (w : World) : Prop :=
  (∃ p, Event.shutdown p ∈ w.trace) ∨ issued w.trace ∨ .shutdownInLoop ∈ w.pendingFunctors_

/-- The invariant, with the messages that are neither queued nor executed. -/
structure HalfCloseInv (flight : List Sent) (w : World) : Prop where
  stream : w.outputView.Conserved
  accounted : ∀ t, ofThread t (accepted w.trace) =
    ofThread t (executed w.trace ++ flight ++ queued w.pendingFunctors_)
  closing : w.asked → w.closing
  idle : w.state_ = .kDisconnected → w.channel_.isWriting = false
  opened : w.state_ ≠ .kDisconnected → gaveUpNothing w.trace
  finished : issued w.trace → w.state_ ≠ .kDisconnected →
    w.outputBuffer_ = [] ∧ w.NothingQueued
  settled : Settled w.trace
  silent : Silent w.trace

/-- A change that neither sends nor half-closes. -/
structure Undisturbed (w w' : World) : Prop where
  trace : ∃ es, w'.trace = w.trace ++ es ∧ ∀ e ∈ es, e.inert = true
  functors : ∃ fs, w'.pendingFunctors_ = w.pendingFunctors_ ++ fs ∧
    ∀ f ∈ fs, f.queued = [] ∧ f ≠ .shutdownInLoop
  output : w'.outputBuffer_ = w.outputBuffer_
  closing : w.closing → w'.closing
  closed : w.state_ = .kDisconnected → w'.state_ = .kDisconnected
  idle : (w.state_ = .kDisconnected → w.channel_.isWriting = false) →
    w'.state_ = .kDisconnected → w'.channel_.isWriting = false

theorem queued_append (fs gs : List Functor) : queued (fs ++ gs) = queued fs ++ queued gs :=
  List.flatMap_append ..

theorem HalfCloseInv.undisturbed {w w' : World} (h : HalfCloseInv [] w) (hw : Undisturbed w w')
    (hstream : w'.outputView.Conserved) : HalfCloseInv [] w' := by
  obtain ⟨es, htrace, hes⟩ := hw.trace
  obtain ⟨fs, hfs, hinert⟩ := hw.functors
  have hqueued : queued w'.pendingFunctors_ = queued w.pendingFunctors_ := by
    rw [hfs, queued_append, queued, queued, List.flatMap_eq_nil_iff.mpr
      fun f hf => (hinert f hf).1, List.append_nil]
  have hshut : ∀ e ∈ es, e.isShutdownWrite = false := fun e he => (Event.of_inert (hes e he)).1
  have hissued : issued w'.trace ↔ issued w.trace := by rw [htrace]; exact issued_append hshut
  have hacc : accepted es = [] :=
    List.flatMap_eq_nil_iff.mpr fun e he => (Event.of_inert (hes e he)).2.1
  have hexe : executed es = [] :=
    List.flatMap_eq_nil_iff.mpr fun e he => (Event.of_inert (hes e he)).2.2.1
  have hopen : w'.state_ ≠ .kDisconnected → w.state_ ≠ .kDisconnected := mt hw.closed
  have hold : ∀ e ∈ w'.trace, e.inert = false → e ∈ w.trace := by
    intro e he hi
    rw [htrace] at he
    rcases List.mem_append.mp he with he | he
    · exact he
    · exact absurd (hes e he) (by rw [hi]; exact Bool.false_ne_true)
  refine ⟨hstream, fun t => ?_, fun ha => hw.closing (h.closing ?_), hw.idle h.idle,
    fun ho t message hm => h.opened (hopen ho) t message (hold _ hm rfl), fun hi ho => ?_, ?_, ?_⟩
  · rw [hqueued, htrace, accepted, executed, List.flatMap_append, List.flatMap_append,
      ← accepted, ← accepted, ← executed, ← executed, hacc, hexe, List.append_nil,
      List.append_nil]
    exact h.accounted t
  · rcases ha with ⟨p, hp⟩ | hi | hf
    · exact .inl ⟨p, hold _ hp rfl⟩
    · exact .inr (.inl (hissued.mp hi))
    · rw [hfs] at hf
      rcases List.mem_append.mp hf with hf | hf
      · exact .inr (.inr hf)
      · exact absurd rfl (hinert _ hf).2
  · rw [hw.output]
    exact (h.finished (hissued.mp hi) (hopen ho)).imp_right fun hq => hq.congr hqueued
  · rw [htrace]
    exact h.settled.append hshut
  · rw [htrace]
    exact h.silent.append hshut fun _ e he => (Event.of_inert (hes e he)).2.2.2

/-- A change that neither records nor queues. -/
theorem Undisturbed.quiet {w w' : World} (htrace : w'.trace = w.trace)
    (hfunctors : w'.pendingFunctors_ = w.pendingFunctors_)
    (houtput : w'.outputBuffer_ = w.outputBuffer_) (hclosing : w.closing → w'.closing)
    (hclosed : w.state_ = .kDisconnected → w'.state_ = .kDisconnected)
    (hidle : (w.state_ = .kDisconnected → w.channel_.isWriting = false) →
      w'.state_ = .kDisconnected → w'.channel_.isWriting = false) : Undisturbed w w' where
  trace := ⟨[], htrace.trans (List.append_nil _).symm, List.forall_mem_nil _⟩
  functors := ⟨[], hfunctors.trans (List.append_nil _).symm, List.forall_mem_nil _⟩
  output := houtput
  closing := hclosing
  closed := hclosed
  idle := hidle

theorem Undisturbed.refl (w : World) : Undisturbed w w := .quiet rfl rfl rfl id id id

theorem Undisturbed.record {e : Event} (he : e.inert = true) (w : World) :
    Undisturbed w (w.record e) where
  trace := ⟨[e], rfl, by simpa using he⟩
  functors := ⟨[], by simp [World.record], List.forall_mem_nil _⟩
  output := rfl
  closing := id
  closed := id
  idle := id

theorem Undisturbed.queueInLoop {f : Functor} (hf : f.queued = [] ∧ f ≠ .shutdownInLoop)
    (w : World) : Undisturbed w (w.queueInLoop f) where
  trace := ⟨[], by simp [World.queueInLoop], List.forall_mem_nil _⟩
  functors := ⟨[f], rfl, by simpa using hf⟩
  output := rfl
  closing := id
  closed := id
  idle := id

theorem Undisturbed.startReadInLoop (w : World) : Undisturbed w w.startReadInLoop := by
  unfold World.startReadInLoop
  split
  · exact .quiet rfl rfl rfl id id fun h => by simpa using h
  · exact .refl w

theorem Undisturbed.stopReadInLoop (w : World) : Undisturbed w w.stopReadInLoop := by
  unfold World.stopReadInLoop
  split
  · exact .quiet rfl rfl rfl id id fun h => by simpa using h
  · exact .refl w

theorem Undisturbed.handleClose (w : World) : Undisturbed w w.handleClose where
  trace := ⟨[.handleClose w.state_, .connectionCallback false], by
    simp [World.handleClose, World.record, connected], by simp [Event.inert]⟩
  functors := ⟨[], by simp [World.handleClose, World.record], List.forall_mem_nil _⟩
  output := rfl
  closing := fun _ => .inr rfl
  closed := fun _ => rfl
  idle := fun _ _ => by simp [World.handleClose, World.record]

theorem Undisturbed.forceCloseInLoop (w : World) : Undisturbed w w.forceCloseInLoop := by
  unfold World.forceCloseInLoop
  split
  · exact .handleClose w
  · exact .refl w

theorem Undisturbed.handleRead (r : ReadResult) (w : World) :
    Undisturbed w (w.handleRead r) := by
  cases r with
  | error => exact .refl w
  | bytes data =>
    cases data with
    | nil => exact .handleClose w
    | cons b data => exact ⟨⟨[.messageCallback], rfl, by simp [Event.inert]⟩,
        ⟨[], by simp [World.handleRead, World.record], List.forall_mem_nil _⟩, rfl, id, id, id⟩

theorem Undisturbed.connectEstablished {w : World} (hs : w.state_ = .kConnecting) :
    Undisturbed w w.connectEstablished where
  trace := ⟨[.connectionCallback true], by
    simp [World.connectEstablished, World.record, connected], by simp [Event.inert]⟩
  functors := ⟨[], by simp [World.connectEstablished, World.record], List.forall_mem_nil _⟩
  output := rfl
  closing := fun h => by simp [World.closing, hs] at h
  closed := fun h => by simp [hs] at h
  idle := fun _ => nofun

/-- A call that does not look at `state_`. -/
theorem Undisturbed.call {c : UserCall} (hc : Threads.isTested c = false) (t : Thread)
    (w : World) : Undisturbed w (w.call t c) := by
  cases c with
  | startRead =>
    simp only [World.call, startRead]
    split
    · exact .startReadInLoop w
    · exact .queueInLoop (f := .startReadInLoop) (by decide) w
  | stopRead =>
    simp only [World.call, stopRead]
    split
    · exact .stopReadInLoop w
    · exact .queueInLoop (f := .stopReadInLoop) (by decide) w
  | retrieveInput n => exact .quiet rfl rfl rfl id id id
  | _ => exact absurd hc (by simp [Threads.isTested])

theorem quiet_disconnect (w : World) : w.outputView.Quiet w.disconnect.outputView :=
  .inr (by simp [outputView, World.disconnect, World.record, handed, sent, processed, kept])

theorem quiet_removeChannel (w : World) : w.outputView.Quiet w.removeChannel.outputView :=
  .inl (by simp [outputView, World.removeChannel])

theorem Undisturbed.disconnect (w : World) : Undisturbed w w.disconnect where
  trace := ⟨[.connectionCallback false], rfl, by simp [Event.inert]⟩
  functors := ⟨[], by simp [World.disconnect, World.record], List.forall_mem_nil _⟩
  output := rfl
  closing := fun _ => .inr rfl
  closed := fun _ => rfl
  idle := fun _ _ => by simp [World.disconnect, World.record]

theorem Undisturbed.removeChannel (w : World) : Undisturbed w w.removeChannel :=
  .quiet rfl rfl rfl id id fun h => by simpa [World.removeChannel] using h

/-- A field that the invariant does not read. -/
theorem HalfCloseInv.congr {flight : List Sent} {w w' : World} (h : HalfCloseInv flight w)
    (hs : w'.state_ = w.state_) (hc : w'.channel_ = w.channel_)
    (ho : w'.outputBuffer_ = w.outputBuffer_) (hf : w'.pendingFunctors_ = w.pendingFunctors_)
    (ht : w'.trace = w.trace) : HalfCloseInv flight w' := by
  obtain ⟨h1, h2, h3, h4, h5, h6, h7, h8⟩ := h
  refine ⟨?_, ?_, ?_, ?_, ?_, ?_, ?_, ?_⟩
  · have hv : w'.outputView = w.outputView := by simp [outputView, hs, hc, ho, hf, ht]
    rw [hv]
    exact h1
  all_goals simpa only [asked, World.closing, NothingQueued, hs, hc, ho, hf, ht]

/-- A functor leaves the queue: its message, if it carries one, is in flight. -/
theorem HalfCloseInv.pop {w : World} {f : Functor} {rest : List Functor}
    (h : HalfCloseInv [] w) (hf : w.pendingFunctors_ = f :: rest) :
    HalfCloseInv f.queued { w with pendingFunctors_ := rest } := by
  obtain ⟨h1, h2, h3, h4, h5, h6, h7, h8⟩ := h
  have hq : queued w.pendingFunctors_ = f.queued ++ queued rest := by
    rw [hf]
    exact List.flatMap_cons ..
  refine ⟨?_, fun t => ?_, fun ha => h3 ?_, h4, h5, fun hi ho => ?_, h7, h8⟩
  · cases f with
    | sendInLoop t message => exact h1.giveUp hq
    | _ => simpa [outputView, hq, Functor.queued] using h1
  · rw [h2 t, hq, List.append_nil, List.append_assoc]
  · rcases ha with hp | hi | hm
    · exact .inl hp
    · exact .inr (.inl hi)
    · exact .inr (.inr (by rw [hf]; exact List.mem_cons_of_mem _ hm))
  · obtain ⟨hout, hbytes⟩ := h6 hi ho
    exact ⟨hout, fun x hx => hbytes x (by rw [hq]; exact List.mem_append_right _ hx)⟩

/-- What a step of `sendInLoop` or `handleWrite` may record: nothing but writes and
appends, of no bytes once `SHUT_WR` is out. -/
structure Moves (es : List Event) (bytes : Prop) : Prop where
  shut : ∀ e ∈ es, e.isShutdownWrite = false
  quiet : ¬ bytes → ∀ e ∈ es, e.movesBytes = false
  nothing : ∀ e ∈ es, e.inert = false ∧ e.acceptedMessage = [] ∧ e.executedMessage = [] ∧
    ∀ p, e ≠ .shutdown p

theorem sendPath_moves {r : WriteResult} {message : Bytes} {w : World}
    {direct : Option WriteResult} {events : List Event} {rest : Bytes}
    (h : SendPath r message w direct events rest) :
    Moves (events ++ if rest = [] then [] else [.buffered rest]) (message ≠ []) ∧
      (message = [] → rest = []) := by
  have hev : events = [] ∨ events = [.write message r] := by cases h <;> simp
  have hrest : message = [] → rest = [] := by rintro rfl; cases h <;> simp
  refine ⟨⟨?_, fun hm => ?_, ?_⟩, hrest⟩
  · rcases hev with rfl | rfl <;> split <;> simp
  · have hm : message = [] := by simpa using hm
    rcases hev with rfl | rfl <;> simp [hrest hm, hm]
  · rcases hev with rfl | rfl <;> split <;> simp [Event.inert]

theorem Moves.accepted {es : List Event} {b : Prop} (h : Moves es b) : Net.accepted es = [] :=
  List.flatMap_eq_nil_iff.mpr fun e he => (h.nothing e he).2.1

theorem Moves.executed {es : List Event} {b : Prop} (h : Moves es b) : Net.executed es = [] :=
  List.flatMap_eq_nil_iff.mpr fun e he => (h.nothing e he).2.2.1

theorem HalfCloseInv.sendInLoop {w : World} {t : Thread} {message : Bytes}
    (h : HalfCloseInv [(t, message)] w) (r : WriteResult)
    (hlate : issued w.trace → w.state_ ≠ .kDisconnected → message = [])
    (hstream : (w.sendInLoop r t message).outputView.Conserved) :
    HalfCloseInv [] (w.sendInLoop r t message) := by
  by_cases hd : w.state_ = .kDisconnected
  · rw [sendInLoop_closed hd] at hstream ⊢
    have hshut : ∀ e ∈ [Event.gaveUp t message], e.isShutdownWrite = false := by simp
    refine ⟨hstream, fun u => ?_, fun _ => .inr hd, h.idle, fun ho => absurd hd ho,
      fun _ ho => absurd hd ho, h.settled.append hshut, h.silent.append hshut ?_⟩
    · simpa [record, accepted, executed] using h.accounted u
    · simp
  · obtain ⟨direct, events, rest, q, hpath, hq, he⟩ := sendInLoop_open hd r t message
    rw [he] at hstream ⊢
    obtain ⟨hmoves, hrest⟩ := sendPath_moves hpath
    have htrace : w.trace ++ .processed t message direct :: events ++
        (if rest = [] then [] else [.buffered rest]) = (w.trace ++ [.processed t message direct]) ++
          (events ++ if rest = [] then [] else [.buffered rest]) := by simp
    generalize events ++ (if rest = [] then [] else [Event.buffered rest]) = es at hmoves htrace
    rw [htrace] at hstream ⊢
    have hproc : ∀ e ∈ [Event.processed t message direct], e.isShutdownWrite = false := by simp
    have hissued : issued ((w.trace ++ [.processed t message direct]) ++ es) ↔ issued w.trace :=
      (issued_append hmoves.shut).trans (issued_append hproc)
    have hqueued : queued (w.pendingFunctors_ ++ q) = queued w.pendingFunctors_ := by
      rw [queued_append, queued_notifications hq, List.append_nil]
    refine ⟨hstream, fun u => ?_, fun ha => h.closing ?_, fun hc => absurd hc hd,
      fun _ u m hm => ?_, fun hi ho => ?_, (h.settled.append hproc).append hmoves.shut,
      (h.silent.append hproc (by simp)).append hmoves.shut fun hi => ?_⟩
    · have hacc : accepted ((w.trace ++ [.processed t message direct]) ++ es) =
          accepted w.trace := by
        rw [accepted, List.flatMap_append, ← accepted, ← accepted, hmoves.accepted]
        simp [accepted]
      have hexe : executed ((w.trace ++ [.processed t message direct]) ++ es) =
          executed w.trace ++ [(t, message)] := by
        rw [executed, List.flatMap_append, ← executed, ← executed, hmoves.executed]
        simp [executed]
      rw [hacc, hexe, hqueued, List.append_nil]
      exact h.accounted u
    · rcases ha with ⟨p, hp⟩ | hi | hf
      · refine .inl ⟨p, ?_⟩
        rcases List.mem_append.mp hp with hp | hp
        · simpa using hp
        · exact absurd rfl ((hmoves.nothing _ hp).2.2.2 p)
      · exact .inr (.inl (hissued.mp hi))
      · rcases List.mem_append.mp hf with hf | hf
        · exact .inr (.inr hf)
        · rcases hq _ hf with hx | ⟨n, hx⟩ <;> exact absurd hx (by simp)
    · refine h.opened hd u m ?_
      rcases List.mem_append.mp hm with hm | hm
      · simpa using hm
      · exact absurd (hmoves.nothing _ hm).2.2.1 (by simp)
    · have hm := hlate (hissued.mp hi) hd
      obtain ⟨hout, hbytes⟩ := h.finished (hissued.mp hi) hd
      rw [hrest hm]
      exact ⟨by simpa using hout, hbytes.congr hqueued⟩
    · refine hmoves.quiet fun hne => hne (hlate ?_ hd)
      exact (issued_append hproc).mp hi

/-- A message of another thread joins the queue. -/
theorem HalfCloseInv.enqueue {w : World} {t : Thread} {message : Bytes}
    (h : HalfCloseInv [] w) (hlate : issued w.trace → w.state_ ≠ .kDisconnected → message = [])
    (hstream : ((w.accept t message).queueInLoop
      (.sendInLoop t message)).outputView.Conserved) :
    HalfCloseInv [] ((w.accept t message).queueInLoop (.sendInLoop t message)) := by
  have hshut : ∀ e ∈ [Event.send t message, .accepted t message], e.isShutdownWrite = false := by
    simp
  have htrace : ((w.accept t message).queueInLoop (.sendInLoop t message)).trace =
      w.trace ++ [.send t message, .accepted t message] := by
    simp [accept, record, queueInLoop]
  have hqueued : queued ((w.accept t message).queueInLoop (.sendInLoop t message)).pendingFunctors_
      = queued w.pendingFunctors_ ++ [(t, message)] := by
    simp [accept, record, queueInLoop, queued, Functor.queued]
  have hissued : issued (w.trace ++ _) ↔ issued w.trace := issued_append hshut
  rw [← htrace] at hissued
  refine ⟨hstream, fun u => ?_, fun ha => h.closing ?_, h.idle, fun ho u m hm => ?_,
    fun hi ho => ?_, ?_, ?_⟩
  · have hacc := congrArg (· ++ ofThread u [(t, message)]) (h.accounted u)
    rw [hqueued, htrace]
    simpa [accepted, executed] using hacc
  · rcases ha with ⟨p, hp⟩ | hi | hf
    · rw [htrace] at hp
      exact .inl ⟨p, by simpa using hp⟩
    · exact .inr (.inl (hissued.mp hi))
    · exact .inr (.inr (by simpa [accept, record, queueInLoop] using hf))
  · rw [htrace] at hm
    exact h.opened ho u m (by simpa using hm)
  · obtain ⟨hout, hbytes⟩ := h.finished (hissued.mp hi) ho
    refine ⟨hout, fun x hx => ?_⟩
    rw [hqueued] at hx
    rcases List.mem_append.mp hx with hx | hx
    · exact hbytes x hx
    · rw [List.mem_singleton.mp hx]
      exact hlate (hissued.mp hi) ho
  · rw [htrace]
    exact h.settled.append hshut
  · rw [htrace]
    exact h.silent.append hshut (by simp)

/-- A message of the loop thread is accepted and goes to `sendInLoop` at once. -/
theorem HalfCloseInv.accept {w : World} (h : HalfCloseInv [] w) (message : Bytes) :
    HalfCloseInv [(.loop, message)] (w.accept .loop message) := by
  have hshut : ∀ e ∈ [Event.send .loop message, .accepted .loop message],
      e.isShutdownWrite = false := by simp
  have htrace : (w.accept .loop message).trace =
      w.trace ++ [.send .loop message, .accepted .loop message] := by
    simp [World.accept, record]
  have hissued : issued (w.trace ++ _) ↔ issued w.trace := issued_append hshut
  rw [← htrace] at hissued
  refine ⟨?_, fun u => ?_, fun ha => h.closing ?_, h.idle, fun ho u m hm => ?_,
    fun hi ho => h.finished (hissued.mp hi) ho, ?_, ?_⟩
  · rw [outputView_accept]
    exact h.stream.call _
  · have hacc := h.accounted u
    rw [htrace]
    by_cases hu : u = .loop
    · subst hu
      have hnone := ofThread_eq_nil h.stream.fromOthers
      change ofThread _ (queued w.pendingFunctors_) = [] at hnone
      show ofThread _ _ = ofThread _ (_ ++ _ ++ queued w.pendingFunctors_)
      rw [ofThread_append, hnone]
      rw [ofThread_append, hnone] at hacc
      simpa [accepted, executed] using hacc
    · have hnone : ofThread u [(Thread.loop, message)] = [] :=
        ofThread_eq_nil fun y hy he => hu (by rw [← he, List.mem_singleton.mp hy])
      show ofThread _ _ = ofThread _ (_ ++ _ ++ queued w.pendingFunctors_)
      rw [ofThread_append, ofThread_append, hnone]
      simp only [accepted, executed, List.flatMap_append] at hacc ⊢
      simpa [hnone] using hacc
  · rcases ha with ⟨p, hp⟩ | hi | hf
    · rw [htrace] at hp
      exact .inl ⟨p, by simpa using hp⟩
    · exact .inr (.inl (hissued.mp hi))
    · exact .inr (.inr hf)
  · rw [htrace] at hm
    exact h.opened ho u m (by simpa using hm)
  · rw [htrace]
    exact h.settled.append hshut
  · rw [htrace]
    exact h.silent.append hshut (by simp)

/-- `SHUT_WR` goes out with nothing pending, queued or given up. -/
theorem HalfCloseInv.issue {w : World} (h : HalfCloseInv [] w) (hc : w.closing)
    (hw : w.channel_.isWriting = false) (hq : w.NothingQueued)
    (hclosed : w.state_ = .kDisconnected → w.Clean)
    (hstream : (w.record (.shutdownWrite w.outputBuffer_)).outputView.Conserved) :
    HalfCloseInv [] (w.record (.shutdownWrite w.outputBuffer_)) := by
  have hout : w.outputBuffer_ = [] := by
    by_cases hd : w.state_ = .kDisconnected
    · exact (hclosed hd).1
    · have hwriting := h.stream.writing hd
      simpa [outputView, hw] using hwriting
  have hgave : gaveUpNothing w.trace := by
    by_cases hd : w.state_ = .kDisconnected
    · exact (hclosed hd).2
    · exact h.opened hd
  have hat : SettledAt w.trace w.outputBuffer_ := by
    refine ⟨hout, ?_, fun t => ?_⟩
    · have hs := h.stream.stream
      change handed w.trace ++ w.outputBuffer_ = _ at hs
      rwa [hout, List.append_nil] at hs
    · have hacc := congrArg (List.flatMap Prod.snd) (h.accounted t)
      rw [List.append_nil] at hacc
      change bytesOf t _ = bytesOf t _ at hacc
      rwa [bytesOf_append, bytesOf_executed hgave, bytesOf_eq_nil hq, List.append_nil] at hacc
  refine ⟨hstream, fun t => ?_, fun _ => hc, h.idle, fun ho t m hm => h.opened ho t m ?_,
    fun _ _ => ⟨hout, hq⟩, h.settled.issue hat, h.silent.issue _⟩
  · simpa [record, accepted, executed] using h.accounted t
  · simpa [record] using hm

theorem HalfCloseInv.shutdownInLoop {w : World} (h : HalfCloseInv [] w) (hc : w.closing)
    (hq : w.channel_.isWriting = false → w.NothingQueued)
    (hclosed : w.channel_.isWriting = false → w.state_ = .kDisconnected → w.Clean) :
    HalfCloseInv [] w.shutdownInLoop := by
  have hstream := outputView_shutdownInLoop w ▸ h.stream
  unfold World.shutdownInLoop at hstream ⊢
  cases hw : w.channel_.isWriting with
  | true => exact h
  | false =>
    rw [hw] at hstream
    exact h.issue hc hw (hq hw) (hclosed hw) hstream

/-- The state is `kDisconnecting` from here on, also where it was closed before. -/
theorem HalfCloseInv.setDisconnecting {w : World} (h : HalfCloseInv [] w)
    (hclean : w.state_ = .kDisconnected → w.Clean ∧ (issued w.trace → w.NothingQueued)) :
    HalfCloseInv [] (w.setState .kDisconnecting) := by
  refine ⟨?_, h.accounted, fun _ => .inl rfl, nofun, fun _ => ?_, fun hi _ => ?_, h.settled,
    h.silent⟩
  · refine ⟨h.stream.stream, h.stream.order, h.stream.fromOthers, fun _ => ?_⟩
    show w.channel_.isWriting = true ↔ w.outputBuffer_ ≠ []
    by_cases hd : w.state_ = .kDisconnected
    · rw [h.idle hd, (hclean hd).1.1]
      simp
    · exact h.stream.writing hd
  · by_cases hd : w.state_ = .kDisconnected
    · exact (hclean hd).1.2
    · exact h.opened hd
  · by_cases hd : w.state_ = .kDisconnected
    · exact ⟨(hclean hd).1.1, (hclean hd).2 hi⟩
    · exact h.finished hi hd

/-- `shutdown()` takes effect. -/
theorem HalfCloseInv.shutdownCalled {w : World} (h : HalfCloseInv [] w) (hc : w.closing) :
    HalfCloseInv [] (w.record (.shutdown w.outputBuffer_)) := by
  have hshut : ∀ e ∈ [Event.shutdown w.outputBuffer_], e.isShutdownWrite = false := by simp
  refine ⟨?_, fun u => ?_, fun _ => hc, h.idle, fun ho u m hm => h.opened ho u m ?_,
    fun hi ho => h.finished ((issued_append hshut).mp hi) ho, h.settled.append hshut,
    h.silent.append hshut (by simp)⟩
  · rw [outputView_record (quiet_shutdown _)]
    exact h.stream
  · simpa [record, accepted, executed] using h.accounted u
  · simpa [record] using hm

theorem HalfCloseInv.queueShutdown {w : World} (h : HalfCloseInv [] w) (hc : w.closing) :
    HalfCloseInv [] (w.queueInLoop .shutdownInLoop) := by
  have hqueued : queued (w.pendingFunctors_ ++ [.shutdownInLoop]) = queued w.pendingFunctors_ := by
    simp [queued, Functor.queued]
  refine ⟨?_, fun u => ?_, fun _ => hc, h.idle, h.opened, fun hi ho => ?_, h.settled, h.silent⟩
  · rw [outputView_queueInLoop rfl]
    exact h.stream
  · show _ = ofThread u (_ ++ _ ++ queued (w.pendingFunctors_ ++ [.shutdownInLoop]))
    rw [hqueued]
    exact h.accounted u
  · show _ ∧ ∀ x ∈ queued (w.pendingFunctors_ ++ [.shutdownInLoop]), x.2 = []
    rw [hqueued]
    exact h.finished hi ho

/-- A write of `handleWrite` happens with output pending, so before any `SHUT_WR`. -/
theorem HalfCloseInv.wrote {w w' : World} {r : WriteResult} (h : HalfCloseInv [] w)
    (hw : w.channel_.isWriting = true) (hs : w'.state_ = w.state_)
    (hf : ∃ fs, w'.pendingFunctors_ = w.pendingFunctors_ ++ fs ∧
      ∀ f ∈ fs, f = Functor.writeCompleteCallback)
    (ht : w'.trace = w.trace ++ [.write w.outputBuffer_ r])
    (hstream : w'.outputView.Conserved) : HalfCloseInv [] w' := by
  have hopen : w.state_ ≠ .kDisconnected := fun hd => by
    rw [h.idle hd] at hw
    exact absurd hw nofun
  have hout : w.outputBuffer_ ≠ [] := (h.stream.writing hopen).mp hw
  have hnot : ¬ issued w.trace := fun hi => hout (h.finished hi hopen).1
  have hshut : ∀ e ∈ [Event.write w.outputBuffer_ r], e.isShutdownWrite = false := by simp
  have hissued : issued w'.trace ↔ issued w.trace := by rw [ht]; exact issued_append hshut
  obtain ⟨fs, hfs, hnotify⟩ := hf
  have hqueued : queued w'.pendingFunctors_ = queued w.pendingFunctors_ := by
    rw [hfs, queued_append, queued_notifications fun f hf => .inl (hnotify f hf), List.append_nil]
  refine ⟨hstream, fun u => ?_, fun ha => ?_, fun hd => absurd (hs ▸ hd) hopen,
    fun _ u m hm => h.opened hopen u m ?_, fun hi => absurd (hissued.mp hi) hnot, ?_, ?_⟩
  · rw [hqueued, ht]
    simpa [accepted, executed] using h.accounted u
  · have hc : w.closing := h.closing (by
      rcases ha with ⟨p, hp⟩ | hi | hm
      · rw [ht] at hp
        exact .inl ⟨p, by simpa using hp⟩
      · exact .inr (.inl (hissued.mp hi))
      · rw [hfs] at hm
        rcases List.mem_append.mp hm with hm | hm
        · exact .inr (.inr hm)
        · exact absurd (hnotify _ hm) nofun)
    simpa only [World.closing, hs] using hc
  · rw [ht] at hm
    simpa using hm
  · rw [ht]
    exact h.settled.append hshut
  · rw [ht]
    exact h.silent.append hshut fun hi => absurd hi hnot

theorem HalfCloseInv.handleWrite {w : World} (h : HalfCloseInv [] w) (r : WriteResult)
    (hq : w.state_ = .kDisconnecting → w.channel_.isWriting = true →
      r.nwrote w.outputBuffer_.length = w.outputBuffer_.length →
      w.NothingQueued) :
    HalfCloseInv [] (w.handleWrite r) := by
  have hstream := conserved_handleWrite h.stream r
  have hpath := handleWrite_path r w
  generalize w.handleWrite r = w' at hpath hstream
  cases hpath with
  | idle _ => exact h
  | stuck hw hn => exact h.wrote hw rfl ⟨[], by simp [record], List.forall_mem_nil _⟩ rfl hstream
  | part hw hn hlt => exact h.wrote hw rfl ⟨[], by simp [record], List.forall_mem_nil _⟩ rfl hstream
  | drained hw hn hall q hnotify =>
    let u : World := { w with
      outputBuffer_ := [], channel_ := w.channel_.disableWriting,
      pendingFunctors_ := w.pendingFunctors_ ++ q,
      trace := w.trace ++ [.write w.outputBuffer_ r] }
    have hu (hs : u.outputView.Conserved) : HalfCloseInv [] u :=
      h.wrote hw rfl ⟨q, rfl, hnotify⟩ rfl hs
    by_cases hd : w.state_ = .kDisconnecting
    · have hv : (u.record (.shutdownWrite [])).outputView = u.outputView :=
        outputView_record (quiet_shutdownWrite _) u
      have he : u.record (.shutdownWrite []) = { w with
          outputBuffer_ := [], channel_ := w.channel_.disableWriting,
          pendingFunctors_ := w.pendingFunctors_ ++ q,
          trace := w.trace ++ .write w.outputBuffer_ r ::
            if w.state_ = .kDisconnecting then [.shutdownWrite []] else [] } := by
        simp [u, record, hd]
      rw [← he] at hstream ⊢
      refine (hu (hv ▸ hstream)).issue (.inl hd) (by simp [u]) ?_ (fun hc => ?_) hstream
      · show ∀ x ∈ queued (w.pendingFunctors_ ++ q), x.2 = []
        rw [queued_append, queued_notifications fun f hf => .inl (hnotify f hf), List.append_nil]
        exact hq hd hw hall
      · exact absurd (hd.symm.trans hc) (by decide)
    · have he : u = { w with
          outputBuffer_ := [], channel_ := w.channel_.disableWriting,
          pendingFunctors_ := w.pendingFunctors_ ++ q,
          trace := w.trace ++ .write w.outputBuffer_ r ::
            if w.state_ = .kDisconnecting then [.shutdownWrite []] else [] } := by
        simp [u, hd]
      rw [← he] at hstream ⊢
      exact hu hstream

theorem halfCloseInv_functor {w : World} {f : Functor} {rest : List Functor}
    (h : HalfCloseInv [] w) (hf : w.pendingFunctors_ = f :: rest) (write : WriteResult)
    (hok : w.issues (.functor write) = true →
      w.NothingQueued ∧ (w.state_ = .kDisconnected → w.Clean)) :
    HalfCloseInv [] (runFunctor write f { w with pendingFunctors_ := rest }) := by
  have hstream := conserved_functor h.stream hf write
  have hpop := h.pop hf
  cases f with
  | sendInLoop t message =>
    refine hpop.sendInLoop write (fun hi ho => ?_) hstream
    refine (h.finished hi ho).2 (t, message) ?_
    rw [hf]
    exact List.mem_cons_self
  | shutdownInLoop =>
    have hissues (hw : w.channel_.isWriting = false) : w.issues (.functor write) = true := by
      simp [issues, hf, hw]
    refine hpop.shutdownInLoop (h.closing (.inr (.inr (by rw [hf]; exact List.mem_cons_self))))
      (fun hw x hx => (hok (hissues hw)).1 x ?_) (fun hw => (hok (hissues hw)).2)
    rw [hf]
    exact hx
  | forceCloseInLoop => exact hpop.undisturbed (.forceCloseInLoop _) hstream
  | startReadInLoop => exact hpop.undisturbed (.startReadInLoop _) hstream
  | stopReadInLoop => exact hpop.undisturbed (.stopReadInLoop _) hstream
  | writeCompleteCallback => exact hpop
  | highWaterMarkCallback n => exact hpop

theorem halfCloseInv_resume {w : World} {f : Frame} {rest : List Frame} (h : HalfCloseInv [] w)
    (hf : w.frames = f :: rest) (read : ReadResult) (write : WriteResult)
    (hok : w.issues (.resume read write) = true → w.NothingQueued) :
    HalfCloseInv [] (resume read write f { w with frames := rest }) := by
  have hrest : HalfCloseInv [] { w with frames := rest } := h.congr rfl rfl rfl rfl rfl
  have hstream := conserved_resume hrest.stream read write f
  have hpath := resume_path read write f { w with frames := rest }
  generalize World.resume read write f { w with frames := rest } = w' at hpath hstream ⊢
  cases hpath with
  | skip => exact hrest
  | hangUp => exact hrest.undisturbed (.handleClose _) hstream
  | read => exact hrest.undisturbed (.handleRead read _) hstream
  | write revents hwrite =>
    refine hrest.handleWrite write fun hs hw hall => ?_
    have hd : w.state_ = .kDisconnecting := hs
    exact hok (by simp [issues, hf, hwrite, hd, hw, hall])
  | closed => exact hrest.undisturbed (.record rfl _) hstream

theorem halfCloseInv_new (c : Config) : HalfCloseInv [] (new c) where
  stream := conserved_new c
  accounted := fun _ => rfl
  closing := fun h => by simp [asked, issued, new] at h
  idle := nofun
  opened := fun _ _ _ => nofun
  finished := fun ⟨_, h⟩ => absurd h nofun
  settled := fun pre out post h => by simp [new] at h
  silent := List.Pairwise.nil

theorem accepted_append (l l' : List Event) : accepted (l ++ l') = accepted l ++ accepted l' :=
  List.flatMap_append ..

theorem HalfCloseInv.halfClose {w : World} (h : HalfCloseInv [] w) : w.HalfClose where
  empty := fun out hm => by
    obtain ⟨pre, post, hsplit⟩ := List.append_of_mem hm
    exact (h.settled pre out post hsplit).empty
  written := fun pre out post hsplit before p rest hpre => by
    have hat := h.settled pre out post hsplit
    refine ⟨fun t => ?_, hat.handed⟩
    rw [← hat.all t, hpre, accepted_append, bytesOf_append]
    exact List.prefix_append _ _
  drains := fun p _ hm r hout hempty => by
    have hpath := handleWrite_path r w
    generalize w.handleWrite r = w' at hpath hempty
    cases hpath with
    | idle _ => exact absurd hempty hout
    | stuck _ _ => exact absurd hempty hout
    | part _ _ hlt =>
      have hlen := congrArg List.length hempty
      rw [List.length_drop, List.length_nil] at hlen
      omega
    | drained hw _ _ q _ =>
      have hd : w.state_ = .kDisconnecting := by
        rcases h.closing (.inl ⟨p, hm⟩) with hd | hd
        · exact hd
        · rw [h.idle hd] at hw
          exact absurd hw nofun
      simp [hd]
  silent := h.silent

end World

end Cnet.Net
