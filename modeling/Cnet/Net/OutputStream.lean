import Cnet.Support.Runs
import Cnet.Net.ConnectionSteps

/-!
# The output stream is conserved

The bytes the socket took, followed by the bytes still pending, are the messages
that `sendInLoop` kept, one after the other. The invariant reads the connection
through `OutputView`, which most steps leave alone.
-/

namespace Cnet.Net

open Cnet.Support

/-- A message and the thread that sent it. -/
abbrev Sent := Thread × Bytes

namespace Event

/-- The bytes this event handed to the socket. -/
@[simp] def handedBytes : Event → Bytes
  | .write data r => data.take (r.nwrote data.length)
  | _ => []

@[simp] def sentMessage : Event → List Sent
  | .send t message => [(t, message)]
  | _ => []

@[simp] def processedMessage : Event → List Sent
  | .processed t message _ => [(t, message)]
  | _ => []

/-- `sendInLoop` dropped the message: its own direct write met `EPIPE` or `ECONNRESET`. -/
def dropped (direct : Option WriteResult) : Bool :=
  match direct with
  | some (.error e) => e.isFault
  | _ => false

/-- A processed message that was not dropped. -/
@[simp] def keptMessage : Event → List Sent
  | .processed t message direct => if dropped direct then [] else [(t, message)]
  | _ => []

/-- The event is no part of the stream's history. -/
def quiet (e : Event) : Prop :=
  e.handedBytes = [] ∧ e.sentMessage = [] ∧ e.processedMessage = [] ∧ e.keptMessage = []

end Event

def handed (trace : List Event) : Bytes := trace.flatMap Event.handedBytes
def sent (trace : List Event) : List Sent := trace.flatMap Event.sentMessage
def processed (trace : List Event) : List Sent := trace.flatMap Event.processedMessage
def kept (trace : List Event) : List Sent := trace.flatMap Event.keptMessage

def Functor.queued : Functor → List Sent
  | .sendInLoop t message => [(t, message)]
  | _ => []

/-- The messages waiting in `pendingFunctors_`. -/
def queued (fs : List Functor) : List Sent := fs.flatMap Functor.queued

/-- The messages of one thread, in order. -/
def ofThread (t : Thread) (l : List Sent) : List Sent := l.filter fun x => x.1 = t

@[simp] theorem ofThread_append (t : Thread) (l l' : List Sent) :
    ofThread t (l ++ l') = ofThread t l ++ ofThread t l' := List.filter_append ..

theorem ofThread_eq_nil {t : Thread} {l : List Sent} (h : ∀ x ∈ l, x.1 ≠ t) :
    ofThread t l = [] := by
  rw [ofThread, List.filter_eq_nil_iff]
  intro x hx
  simpa using h x hx

theorem queued_notifications {q : List Functor}
    (h : ∀ f ∈ q, f = Functor.writeCompleteCallback ∨ ∃ n, f = .highWaterMarkCallback n) :
    queued q = [] := by
  rw [queued, List.flatMap_eq_nil_iff]
  intro f hf
  rcases h f hf with rfl | ⟨n, rfl⟩ <;> rfl

/-- What the stream invariant reads of a connection. -/
structure OutputView where
  handed : Bytes
  output : Bytes
  kept : List Sent
  processed : List Sent
  queued : List Sent
  sent : List Sent
  closed : Prop
  writing : Bool

def World.outputView (w : World) : OutputView where
  handed := Net.handed w.trace
  output := w.outputBuffer_
  kept := Net.kept w.trace
  processed := Net.processed w.trace
  queued := Net.queued w.pendingFunctors_
  sent := Net.sent w.trace
  closed := w.state_ = .kDisconnected
  writing := w.channel_.isWriting

/-- The invariant. Its order part also says that the loop thread never queues a message. -/
structure OutputView.Conserved (v : OutputView) : Prop where
  stream : v.handed ++ v.output = v.kept.flatMap Prod.snd
  order : ∀ t, (ofThread t (v.processed ++ v.queued)).Sublist (ofThread t v.sent)
  fromOthers : ∀ x ∈ v.queued, x.1 ≠ .loop
  writing : ¬ v.closed → (v.writing = true ↔ v.output ≠ [])

namespace OutputView

/-- The step did not touch the stream, or closed it. -/
def Quiet (v v' : OutputView) : Prop :=
  v' = v ∨ v' = { v with closed := True, writing := false }

/-- A `send` was called. -/
def call (v : OutputView) (x : Sent) : OutputView := { v with sent := v.sent ++ [x] }

/-- A message was processed: `taken` of it went to the socket, `rest` to the output. -/
def next (v : OutputView) (x : Sent) (direct : Option WriteResult) (taken rest : Bytes) :
    OutputView :=
  { v with
    handed := v.handed ++ taken
    output := v.output ++ rest
    kept := v.kept ++ if Event.dropped direct then [] else [x]
    processed := v.processed ++ [x]
    writing := v.writing || !rest.isEmpty }

/-- Of a message that is not dropped, what the socket did not take becomes the tail
of the output, and the socket is offered it only with no output pending. -/
def Splits (v : OutputView) (x : Sent) (direct : Option WriteResult) (taken rest : Bytes) :
    Prop :=
  (Event.dropped direct = true ∧ taken = [] ∧ rest = [] ∨
    Event.dropped direct = false ∧ taken ++ rest = x.2) ∧ (taken ≠ [] → v.output = [])

theorem Conserved.quiet {v v' : OutputView} (h : v.Conserved) (hq : v.Quiet v') :
    v'.Conserved := by
  rcases hq with rfl | rfl
  · exact h
  · exact ⟨h.stream, h.order, h.fromOthers, fun hn => absurd trivial hn⟩

theorem Conserved.call {v : OutputView} (h : v.Conserved) (x : Sent) : (v.call x).Conserved := by
  refine ⟨h.stream, fun t => ?_, h.fromOthers, h.writing⟩
  exact (h.order t).trans (by simp [OutputView.call])

theorem Conserved.enqueue {v : OutputView} (h : v.Conserved) {x : Sent} (hx : x.1 ≠ .loop) :
    Conserved { v.call x with queued := v.queued ++ [x] } := by
  refine ⟨h.stream, fun t => ?_, fun y hy => ?_, h.writing⟩
  · have ho := (h.order t).append (List.Sublist.refl (ofThread t [x]))
    simpa [OutputView.call] using ho
  · rcases List.mem_append.mp hy with hy | hy
    · exact h.fromOthers y hy
    · rw [List.mem_singleton.mp hy]; exact hx

theorem next_stream {v : OutputView} (h : v.Conserved) {x : Sent} {direct taken rest}
    (hs : v.Splits x direct taken rest) :
    (v.handed ++ taken) ++ (v.output ++ rest) =
      (v.kept ++ if Event.dropped direct then [] else [x]).flatMap Prod.snd := by
  obtain ⟨hsplit, ho⟩ := hs
  rw [List.flatMap_append, ← h.stream]
  rcases hsplit with ⟨hd, rfl, rfl⟩ | ⟨hd, hx⟩
  · simp [hd]
  · by_cases ht : taken = []
    · subst ht
      simpa [hd] using hx
    · simp [hd, ho ht, hx]

theorem next_writing {v : OutputView} (h : v.Conserved) (hopen : ¬ v.closed)
    (rest : Bytes) : (v.writing || !rest.isEmpty) = true ↔ v.output ++ rest ≠ [] := by
  have hw := h.writing hopen
  cases hv : v.writing <;> cases rest <;> simp_all

/-- The loop thread sends: nothing of its own is queued before this message. -/
theorem Conserved.direct {v : OutputView} (h : v.Conserved) (hopen : ¬ v.closed)
    {x : Sent} (hx : x.1 = .loop) {direct taken rest} (hs : v.Splits x direct taken rest) :
    ((v.call x).next x direct taken rest).Conserved := by
  refine ⟨next_stream h hs, fun t => ?_, h.fromOthers, fun _ => next_writing h hopen rest⟩
  by_cases ht : t = .loop
  · subst ht
    have hnone := ofThread_eq_nil h.fromOthers
    have ho := (h.order .loop).append (List.Sublist.refl (ofThread .loop [x]))
    rw [ofThread_append, hnone, List.append_nil] at ho
    show (ofThread _ ((v.processed ++ [x]) ++ v.queued)).Sublist (ofThread _ (v.sent ++ [x]))
    rw [ofThread_append, ofThread_append, ofThread_append, hnone, List.append_nil]
    exact ho
  · have hnone : ofThread t [x] = [] :=
      ofThread_eq_nil fun y hy he => ht (by rw [← he, List.mem_singleton.mp hy, hx])
    show (ofThread _ ((v.processed ++ [x]) ++ v.queued)).Sublist (ofThread _ (v.sent ++ [x]))
    rw [ofThread_append, ofThread_append, ofThread_append, hnone, List.append_nil,
      List.append_nil, ← ofThread_append]
    exact h.order t

/-- The front of the queue is processed. -/
theorem Conserved.dequeue {v : OutputView} (h : v.Conserved) (hopen : ¬ v.closed)
    {x : Sent} {xs : List Sent} (hx : v.queued = x :: xs) {direct taken rest}
    (hs : v.Splits x direct taken rest) :
    (OutputView.next { v with queued := xs } x direct taken rest).Conserved := by
  refine ⟨next_stream h hs, fun t => ?_, fun y hy => ?_, fun _ => next_writing h hopen rest⟩
  · have ho := h.order t
    rw [hx] at ho
    simpa [OutputView.next] using ho
  · exact h.fromOthers y (by rw [hx]; exact List.mem_cons_of_mem _ hy)

/-- The front of the queue is given up. -/
theorem Conserved.giveUp {v : OutputView} (h : v.Conserved) {x : Sent} {xs : List Sent}
    (hx : v.queued = x :: xs) : Conserved { v with queued := xs } := by
  refine ⟨h.stream, fun t => ?_, fun y hy => ?_, h.writing⟩
  · have hsub : (v.processed ++ xs).Sublist (v.processed ++ v.queued) := by
      rw [hx]
      exact List.Sublist.append (List.Sublist.refl _) (List.sublist_cons_self _ _)
    exact (hsub.filter _).trans (h.order t)
  · exact h.fromOthers y (by rw [hx]; exact List.mem_cons_of_mem _ hy)

/-- The socket takes the first `n` bytes of the output. -/
theorem Conserved.flush {v : OutputView} (h : v.Conserved) (n : Nat) {b : Bool}
    (hb : ¬ v.closed → (b = true ↔ v.output.drop n ≠ [])) :
    Conserved { v with
      handed := v.handed ++ v.output.take n, output := v.output.drop n, writing := b } :=
  ⟨by simpa using h.stream, h.order, h.fromOthers, hb⟩

end OutputView

namespace World

open OutputView

theorem outputView_record {e : Event} (h : e.quiet) (w : World) :
    (w.record e).outputView = w.outputView := by
  obtain ⟨h1, h2, h3, h4⟩ := h
  simp only [outputView, record, handed, sent, processed, kept, List.flatMap_append,
    List.flatMap_singleton, h1, h2, h3, h4, List.append_nil]

theorem outputView_queueInLoop {f : Functor} (h : f.queued = []) (w : World) :
    (w.queueInLoop f).outputView = w.outputView := by
  simp [outputView, queueInLoop, queued, h]

theorem outputView_setState {s : StateE} {w : World} (hs : s ≠ .kDisconnected)
    (hw : w.state_ ≠ .kDisconnected) : (w.setState s).outputView = w.outputView := by
  simp [outputView, setState, hs, hw]

/-- `sendInLoop` in an open state, as the stream sees it. -/
theorem outputView_sendInLoop {w : World} (h : w.state_ ≠ .kDisconnected) (r : WriteResult)
    (t : Thread) (message : Bytes) :
    ∃ direct taken rest, w.outputView.Splits (t, message) direct taken rest ∧
      (w.sendInLoop r t message).outputView =
        w.outputView.next (t, message) direct taken rest := by
  obtain ⟨direct, events, rest, q, hpath, hq, he⟩ := sendInLoop_open h r t message
  have hqueued : queued (w.pendingFunctors_ ++ q) = queued w.pendingFunctors_ := by
    rw [queued, List.flatMap_append, ← queued, ← queued, queued_notifications hq, List.append_nil]
  refine ⟨direct, events.flatMap Event.handedBytes, rest, ⟨?_, ?_⟩, ?_⟩
  · cases hpath with
    | behind _ => exact .inr ⟨rfl, rfl⟩
    | wrote _ _ n hr =>
      subst hr
      exact .inr ⟨rfl, by simp [Event.handedBytes, WriteResult.nwrote]⟩
    | retry _ _ e hr hf =>
      subst hr
      exact .inr ⟨hf, by simp [Event.handedBytes, WriteResult.nwrote]⟩
    | fault _ _ e hr hf =>
      subst hr
      exact .inl ⟨hf, by simp [Event.handedBytes, WriteResult.nwrote], rfl⟩
  · intro ht
    cases hpath with
    | behind _ => exact absurd rfl ht
    | wrote _ ho => exact ho
    | retry _ ho => exact ho
    | fault _ ho => exact ho
  · have hev : events = [] ∨ events = [.write message r] := by cases hpath <;> simp
    rw [he]
    simp only [outputView, next, isWriting_writingChannel, hqueued, handed, kept, processed, sent,
      List.flatMap_append, List.flatMap_cons]
    rcases hev with rfl | rfl <;> by_cases hr : rest = [] <;>
      simp [hr]

theorem quiet_shutdown (output : Bytes) : (Event.shutdown output).quiet := ⟨rfl, rfl, rfl, rfl⟩

theorem quiet_shutdownWrite (output : Bytes) : (Event.shutdownWrite output).quiet :=
  ⟨rfl, rfl, rfl, rfl⟩

theorem outputView_shutdownInLoop (w : World) : w.shutdownInLoop.outputView = w.outputView := by
  unfold shutdownInLoop
  split
  · rfl
  · exact outputView_record (quiet_shutdownWrite _) w

theorem outputView_shutdown (t : Thread) (w : World) :
    (w.shutdown t).outputView = w.outputView := by
  unfold shutdown
  by_cases hs : w.state_ = .kConnected
  · rw [if_pos hs]
    have hopen : w.state_ ≠ .kDisconnected := by rw [hs]; nofun
    dsimp only
    split
    · rw [outputView_shutdownInLoop, outputView_record (quiet_shutdown _),
        outputView_setState (s := .kDisconnecting) nofun hopen]
    · rw [outputView_queueInLoop rfl, outputView_record (quiet_shutdown _),
        outputView_setState (s := .kDisconnecting) nofun hopen]
  · rw [if_neg hs]

theorem outputView_forceClose (w : World) : w.forceClose.outputView = w.outputView := by
  unfold forceClose
  split
  · next h => rw [outputView_queueInLoop rfl, outputView_setState (s := .kDisconnecting) nofun
      (open_of_forceClose h)]
  · rfl

theorem outputView_forceCloseWithDelay (w : World) :
    w.forceCloseWithDelay.outputView = w.outputView := by
  unfold forceCloseWithDelay
  split
  · next h => exact outputView_setState (s := .kDisconnecting) nofun (open_of_forceClose h)
  · rfl

theorem outputView_startReadInLoop (w : World) : w.startReadInLoop.outputView = w.outputView := by
  unfold startReadInLoop
  split
  · simp [outputView]
  · rfl

theorem outputView_stopReadInLoop (w : World) : w.stopReadInLoop.outputView = w.outputView := by
  unfold stopReadInLoop
  split
  · simp [outputView]
  · rfl

theorem outputView_handleClose (w : World) :
    w.handleClose.outputView = { w.outputView with closed := True, writing := false } := by
  simp [outputView, handleClose, record, handed, sent, processed, kept]

theorem quiet_forceCloseInLoop (w : World) : w.outputView.Quiet w.forceCloseInLoop.outputView := by
  unfold forceCloseInLoop
  split
  · exact .inr (outputView_handleClose w)
  · exact .inl rfl

theorem quiet_handleRead (r : ReadResult) (w : World) :
    w.outputView.Quiet (w.handleRead r).outputView := by
  cases r with
  | error => exact .inl rfl
  | bytes data =>
    cases data with
    | nil => exact .inr (outputView_handleClose w)
    | cons b data => exact .inl (outputView_record ⟨rfl, rfl, rfl, rfl⟩ _)

theorem quiet_connectDestroyed (w : World) :
    w.outputView.Quiet w.connectDestroyed.outputView := by
  unfold connectDestroyed
  by_cases hs : w.state_ = .kConnected
  · rw [if_pos hs]
    right
    simp [outputView, record, handed, sent, processed, kept]
  · rw [if_neg hs]
    left
    simp [outputView]

theorem conserved_handleWrite {w : World} (h : w.outputView.Conserved) (r : WriteResult) :
    (w.handleWrite r).outputView.Conserved := by
  have hpath := handleWrite_path r w
  generalize w.handleWrite r = w' at hpath
  have hflush (b : Bool) := h.flush (r.nwrote w.outputBuffer_.length) (b := b)
  cases hpath with
  | idle _ => exact h
  | stuck hw hn =>
    have hv : w.outputView.output.drop (r.nwrote w.outputBuffer_.length) =
        w.outputView.output := by rw [hn]; rfl
    convert hflush w.outputView.writing (by rw [hv]; exact h.writing) using 1
    simp [outputView, record, handed, sent, processed, kept, hn]
  | part hw hn hlt =>
    convert hflush true (fun _ => by simpa [outputView] using hlt) using 1
    simp [outputView, record, handed, sent, processed, kept, hw]
  | drained hw hn hall q hq =>
    have hqueued : queued (w.pendingFunctors_ ++ q) = queued w.pendingFunctors_ := by
      rw [queued, List.flatMap_append, ← queued, ← queued,
        queued_notifications fun f hf => .inl (hq f hf), List.append_nil]
    convert hflush false (fun _ => by simp [outputView, hall]) using 1
    by_cases hs : w.state_ = .kDisconnecting <;>
      simp [outputView, handed, sent, processed, kept, hqueued, hall, hs]

theorem outputView_accept (t : Thread) (message : Bytes) (w : World) :
    (w.accept t message).outputView = w.outputView.call (t, message) := by
  simp [outputView, accept, record, OutputView.call, handed, sent, processed, kept]

/-- A message the loop thread was called with goes through `sendInLoop` at once. -/
theorem conserved_sendNow {w : World} (h : w.outputView.Conserved)
    (hopen : w.state_ ≠ .kDisconnected) (r : WriteResult) (message : Bytes) :
    ((w.accept .loop message).sendInLoop r .loop message).outputView.Conserved := by
  obtain ⟨direct, taken, rest, hs, he⟩ :=
    outputView_sendInLoop (w := w.accept .loop message) hopen r .loop message
  rw [outputView_accept] at he hs
  rw [he]
  exact h.direct hopen rfl hs

/-- A message of another thread is queued behind the earlier ones. -/
theorem conserved_sendLater {w : World} (h : w.outputView.Conserved) {t : Thread}
    (ht : t ≠ .loop) (message : Bytes) :
    ((w.accept t message).queueInLoop (.sendInLoop t message)).outputView.Conserved := by
  convert h.enqueue (x := (t, message)) ht using 1
  rw [← outputView_accept]
  simp [outputView, accept, record, queueInLoop, queued, Functor.queued]

/-- A refused message stays in the history of calls only. -/
theorem conserved_refused {w : World} (h : w.outputView.Conserved) (t : Thread)
    (message : Bytes) : (w.record (.send t message)).outputView.Conserved := by
  convert h.call (t, message) using 1
  simp [outputView, record, OutputView.call, handed, sent, processed, kept]

theorem conserved_call {w : World} (h : w.outputView.Conserved) (t : Thread) (c : UserCall) :
    (w.call t c).outputView.Conserved := by
  have hpath := call_path t c w
  generalize w.call t c = w' at hpath
  cases hpath with
  | sendNow message r hs => exact conserved_sendNow h (by rw [hs]; nofun) r message
  | sendBufferNow buf r =>
    by_cases hd : w.state_ = .kDisconnected
    · rw [sendInLoop_closed (by exact hd), outputView_record ⟨rfl, rfl, rfl, rfl⟩,
        outputView_accept]
      exact h.call _
    · exact conserved_sendNow h hd r buf
  | sendLater t message _ _ ht => exact conserved_sendLater h ht message
  | sendBufferLater t buf _ _ ht => exact conserved_sendLater h ht buf
  | sendRefused t message => exact conserved_refused h t message
  | sendBufferIgnored t buf => exact conserved_refused h t buf
  | shutdown t =>
    rw [outputView_shutdown]
    exact h
  | forceClose =>
    rw [outputView_forceClose]
    exact h
  | forceCloseWithDelay =>
    rw [outputView_forceCloseWithDelay]
    exact h
  | startReadNow =>
    rw [outputView_startReadInLoop]
    exact h
  | stopReadNow =>
    rw [outputView_stopReadInLoop]
    exact h
  | startReadLater | stopReadLater =>
    rw [outputView_queueInLoop rfl]
    exact h
  | retrieveInput => exact h

theorem conserved_resume {w : World} (h : w.outputView.Conserved) (read : ReadResult)
    (write : WriteResult) (f : Frame) : (w.resume read write f).outputView.Conserved := by
  have hpath := resume_path read write f w
  generalize w.resume read write f = w' at hpath
  cases hpath with
  | skip => exact h
  | hangUp => exact h.quiet (.inr (outputView_handleClose w))
  | read => exact h.quiet (quiet_handleRead read w)
  | write => exact conserved_handleWrite h write
  | closed => exact h.quiet (.inl (outputView_record ⟨rfl, rfl, rfl, rfl⟩ w))

theorem conserved_functor {w : World} {f : Functor} {rest : List Functor}
    (h : w.outputView.Conserved) (hf : w.pendingFunctors_ = f :: rest) (write : WriteResult) :
    (runFunctor write f { w with pendingFunctors_ := rest }).outputView.Conserved := by
  let u : World := { w with pendingFunctors_ := rest }
  have hsame (hq : f.queued = []) : u.outputView = w.outputView := by
    simp [u, outputView, queued, hf, hq]
  show (runFunctor write f u).outputView.Conserved
  cases f with
  | sendInLoop t message =>
    have hv : w.outputView.queued = (t, message) :: queued rest := by
      simp [outputView, queued, hf, Functor.queued]
    show (u.sendInLoop write t message).outputView.Conserved
    by_cases hd : w.state_ = .kDisconnected
    · rw [sendInLoop_closed (by exact hd), outputView_record ⟨rfl, rfl, rfl, rfl⟩]
      exact h.giveUp hv
    · obtain ⟨direct, taken, tail, hs, he⟩ := outputView_sendInLoop (w := u) hd write t message
      rw [he]
      exact h.dequeue hd hv hs
  | shutdownInLoop =>
    show u.shutdownInLoop.outputView.Conserved
    rw [outputView_shutdownInLoop, hsame rfl]
    exact h
  | forceCloseInLoop => exact (hsame rfl ▸ h).quiet (quiet_forceCloseInLoop u)
  | startReadInLoop =>
    show u.startReadInLoop.outputView.Conserved
    rw [outputView_startReadInLoop, hsame rfl]
    exact h
  | stopReadInLoop =>
    show u.stopReadInLoop.outputView.Conserved
    rw [outputView_stopReadInLoop, hsame rfl]
    exact h
  | writeCompleteCallback => exact hsame rfl ▸ h
  | highWaterMarkCallback n => exact hsame rfl ▸ h

theorem conserved_step (w : World) (s : Step) (w' : World) (h : w.outputView.Conserved)
    (hstep : w.step s = some w') : w'.outputView.Conserved := by
  cases takes_of_step hstep with
  | call t c => exact conserved_call h t c
  | connectEstablished _ hs =>
    have hv : w.connectEstablished.outputView = w.outputView := by
      simp [connectEstablished, outputView, record, handed, sent, processed, kept, hs]
    rw [hv]
    exact h
  | connectDestroyed _ => exact h.quiet (quiet_connectDestroyed w)
  | poll _ _ _ _ _ => exact h
  | handleEvent _ _ _ => exact h
  | resume f rest read write _ =>
    exact conserved_resume (w := { w with frames := rest }) h read write f
  | functor f rest write _ hf => exact conserved_functor h hf write
  | timer _ _ => exact h.quiet (quiet_forceCloseInLoop { w with delayed := w.delayed - 1 })

theorem conserved_new (c : Config) : (new c).outputView.Conserved :=
  ⟨rfl, fun _ => List.Sublist.refl _, nofun, fun _ => by simp [outputView, new]⟩

/-- In every run, the bytes handed to the socket and the bytes pending are the messages
kept, each whole and once; every thread's messages keep their order; and while the
connection is not closed, write events are asked for exactly when output is pending. -/
theorem output_stream_conserved (c : Config) (steps : List Step) :
    ∀ w ∈ run step (new c) steps,
      handed w.trace ++ w.outputBuffer_ = (kept w.trace).flatMap Prod.snd ∧
      (∀ t, (ofThread t (processed w.trace)).Sublist (ofThread t (sent w.trace))) ∧
      (w.state_ ≠ .kDisconnected → (w.channel_.isWriting = true ↔ w.outputBuffer_ ≠ [])) := by
  intro w hw
  have h : w.outputView.Conserved :=
    reaches_invariant step conserved_step (conserved_new c) ⟨steps, hw⟩
  refine ⟨h.stream, fun t => ?_, h.writing⟩
  have hpre : (ofThread t (processed w.trace)).Sublist
      (ofThread t (processed w.trace ++ queued w.pendingFunctors_)) := by
    rw [ofThread_append]
    exact List.sublist_append_left _ _
  exact hpre.trans (h.order t)

/-- A direct write of one byte of two, a message of another thread behind it, and a
`handleWrite` that takes two of the three bytes pending. -/
def shortWrites : List Step :=
  [.connectEstablished, .call .loop (.send [1, 2] (.count 1)),
    .call (.other 1) (.send [3, 4] (.count 0)), .functor (.count 0),
    .poll { pollout := true }, .handleEvent, .resume .error (.count 2),
    .resume .error (.count 2), .resume .error (.count 2), .resume .error (.count 2)]

theorem output_stream_conserved_shortWrites :
    ∃ w, run step (new {}) shortWrites = some w ∧
      handed w.trace ++ w.outputBuffer_ = (kept w.trace).flatMap Prod.snd ∧
      (∀ t, (ofThread t (processed w.trace)).Sublist (ofThread t (sent w.trace))) ∧
      (w.state_ ≠ .kDisconnected → (w.channel_.isWriting = true ↔ w.outputBuffer_ ≠ [])) := by
  have hsome : (run step (new {}) shortWrites).isSome = true := by decide
  obtain ⟨w, hw⟩ := Option.isSome_iff_exists.mp hsome
  exact ⟨w, hw, output_stream_conserved {} _ w hw⟩

end World

end Cnet.Net
