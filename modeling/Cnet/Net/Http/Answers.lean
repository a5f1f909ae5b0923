import Mathlib.Data.List.Infix
import Cnet.Support.Runs
import Cnet.Net.ConnectionSteps
import Cnet.Net.OutputStream
import Cnet.Net.Http.HttpServer
import Cnet.Net.Http.Segmentation

/-!
# What the server answers

`onMessage` parses at most one request a call, and `send(Buffer*)` still sends after
`shutdown()`. So a client gets one answer a request, and none behind a closing one,
exactly where the calls are as `KeepsUp` says: requests come no faster than calls, no
response has a string too long for a `StringPiece`, and the call of the closing answer is
the last one, or there is no request behind the one it answers.
-/

namespace Cnet.Net.Http

open Cnet.Support

/-- What a byte stream holds to be answered. -/
inductive Outcome
  | request (v : RequestView)
  | malformed
deriving DecidableEq, Repr

/-- The complete requests of the bytes at hand, and a malformed request line behind them. -/
def outcomesFrom (p : Position) (l : Bytes) : List Outcome :=
  (settleLines p l).outputs.map .request ++ if (settleLines p l).failed then [.malformed] else []

def outcomes (stream : Bytes) : List Outcome := outcomesFrom Position.start stream

/-- They are what the driver of the parser finds in the unsplit stream. -/
theorem outcomes_driver (receiveTime : Timestamp) (stream : Bytes) :
    ∃ d, Driver.run [(receiveTime, stream)] = some d ∧
      outcomes stream = d.requests.map (fun r => .request r.view) ++
        if d.stopped then [.malformed] else [] := by
  obtain ⟨d, hd, ha, -⟩ := Driver.run_agrees [(receiveTime, stream)]
  simp only [List.map_cons, List.map_nil, List.flatten_cons, List.flatten_nil,
    List.append_nil] at ha
  refine ⟨d, hd, ?_⟩
  rw [outcomes, outcomesFrom, ← ha.requests, ← ha.stopped, List.map_map]
  rfl

def Answer.outcome : Answer → Outcome
  | .response request _ => .request request.view
  | .badRequest => .malformed

/-- The response that a call gives to a request. -/
def Call.response (call : Call) (v : RequestView) : HttpResponse :=
  call.httpCallback { closeConnection_ := wantsClose v }

/-- The answer that a call gives to an outcome closes the connection. -/
def Call.closes (call : Call) : Outcome → Bool
  | .request v => (call.response v).closeConnection_
  | .malformed => true

/-- The answer can be sent as a whole. -/
def Call.Sendable (call : Call) : Outcome → Prop
  | .request v => (call.response v).Short
  | .malformed => True

/-- What the server passed to the connection are the answers to the outcomes of the
stream, in order, one each, up to and including the first that closes. -/
structure AnsweredOnce (stream : Bytes) (s : Session) : Prop where
  passed : (processed s.conn.trace).map Prod.snd = s.answers.map Answer.bytes
  inOrder : s.answers.map Answer.outcome <+: outcomes stream
  stops : ∀ a ∈ s.answers.dropLast, a.closing = false
  complete : s.answers.length = (outcomes stream).length ∨
    ∃ a, s.answers.getLast? = some a ∧ a.closing = true

/-! ## Calls that keep up -/

/-- The bytes that some calls bring. -/
def stream (calls : List Call) : Bytes := calls.flatMap Call.segment

/-- How many outcomes are complete after the first `i` calls. -/
def complete (calls : List Call) (i : Nat) : Nat := (outcomes (stream (calls.take i))).length

/-- How many outcomes are due in the first `i` calls, if there is one a call: for any `j`, no
more than are complete after `j` calls and one for each call since then. -/
def due (calls : List Call) (i : Nat) : Nat :=
  ((List.range (i + 1)).map fun j => complete calls j + (i - j)).min?.getD 0

/-- When call `i` comes, the outcome that is due next is complete, and it is `o`. -/
def Answers (calls : List Call) (i : Nat) (o : Outcome) : Prop :=
  due calls i < complete calls (i + 1) ∧ (outcomes (stream calls))[due calls i]? = some o

/-- The answer due in call `i` closes the connection. -/
def Closes (calls : List Call) (i : Nat) : Prop :=
  ∃ call o, calls[i]? = some call ∧ Answers calls i o ∧ call.closes o = true

structure KeepsUp (calls : List Call) : Prop where
  /-- The answers up to the first closing one can be sent. -/
  sendable : ∀ i call o, calls[i]? = some call → Answers calls i o →
    (∀ j < i, ¬ Closes calls j) → call.Sendable o
  /-- If a call comes after the first closing answer, no request does. -/
  last : ∀ i, Closes calls i → (∀ j < i, ¬ Closes calls j) → i + 1 < calls.length →
    ∀ v, (outcomes (stream calls))[due calls i + 1]? ≠ some (.request v)
  /-- If no answer closes, there is a call left at any time for each outcome still to be
  completed. -/
  pace : (∀ i, ¬ Closes calls i) → ∀ j ≤ calls.length,
    (outcomes (stream calls)).length ≤ complete calls j + (calls.length - j)

/-- The calls among the steps of a session. -/
def calls (steps : List SessionStep) : List Call :=
  steps.filterMap fun
    | .message call => some call
    | .writable _ => none

/-- The bytes received by them. -/
def received (steps : List SessionStep) : Bytes := stream (calls steps)

/-- More input leaves the outcomes found so far as they are. -/
theorem outcomesFrom_append (p : Position) (l m : Bytes) :
    outcomesFrom p (l ++ m) =
      if (settleLines p l).failed then outcomesFrom p l
      else (settleLines p l).outputs.map .request ++
        outcomesFrom (settleLines p l).state ((settleLines p l).rest ++ m) := by
  rw [outcomesFrom, settleLines, settle_append, Settled.more]
  split
  · next h => simp [outcomesFrom, h]
  · next h => simp [outcomesFrom, List.append_assoc]

theorem outcomesFrom_of_failed {p : Position} {l : Bytes} (h : (settleLines p l).failed = true)
    (m : Bytes) : outcomesFrom p (l ++ m) = outcomesFrom p l := by
  rw [outcomesFrom_append, if_pos h]

/-- More input brings more outcomes. -/
theorem outcomes_extend (l m : Bytes) : outcomes l <+: outcomes (l ++ m) := by
  rw [outcomes, outcomes, outcomesFrom_append]
  split
  · exact List.prefix_refl _
  · next h =>
    rw [outcomesFrom, if_neg h, List.append_nil]
    exact List.prefix_append _ _

/-- The outcomes of a part of the stream are the first ones of the whole. -/
theorem getElem?_outcomes (l m : Bytes) (k : Nat) :
    (outcomes l)[k]? = if k < (outcomes l).length then (outcomes (l ++ m))[k]? else none := by
  obtain ⟨rest, hrest⟩ := outcomes_extend l m
  split
  · next h => rw [← hrest, List.getElem?_append_left h]
  · next h => exact List.getElem?_eq_none (Nat.not_lt.mp h)

section Pace

variable {calls : List Call} {i k : Nat}

theorem le_due_iff : k ≤ due calls i ↔ ∀ j ≤ i, k ≤ complete calls j + (i - j) := by
  rw [due]
  cases hmin : ((List.range (i + 1)).map fun j => complete calls j + (i - j)).min? with
  | none => simp [List.min?_eq_none_iff] at hmin
  | some m =>
    rw [Option.getD_some, List.le_min?_iff hmin]
    simp only [List.forall_mem_map, List.mem_range, Nat.lt_succ_iff]

theorem due_le_complete (calls : List Call) (i : Nat) : due calls i ≤ complete calls i := by
  have := le_due_iff.mp (Nat.le_refl (due calls i)) i (Nat.le_refl i)
  omega

theorem due_zero (calls : List Call) : due calls 0 = 0 := by
  have hsplit : lines.split [] = none := rfl
  have hnil : outcomes [] = [] := by
    rw [outcomes, outcomesFrom, settleLines, settle_none _ _ hsplit]
    rfl
  have hle := due_le_complete calls 0
  rw [complete, List.take_zero, stream, List.flatMap_nil, hnil] at hle
  exact Nat.le_zero.mp hle

/-- One more call answers one more outcome, if it is complete. -/
theorem due_succ (calls : List Call) (i : Nat) :
    due calls (i + 1) = min (due calls i + 1) (complete calls (i + 1)) := by
  have hsucc := le_due_iff.mp (Nat.le_refl (due calls (i + 1)))
  have hself := le_due_iff.mp (Nat.le_refl (due calls i))
  refine Nat.le_antisymm (Nat.le_min.mpr ⟨?_, ?_⟩) (le_due_iff.mpr fun j hj => ?_)
  · have hle : due calls (i + 1) - 1 ≤ due calls i := le_due_iff.mpr fun j hj => by
      have := hsucc j (by omega)
      omega
    omega
  · have := hsucc (i + 1) (Nat.le_refl _)
    omega
  · by_cases hlast : j = i + 1
    · subst hlast
      omega
    · have := hself j (by omega)
      omega

theorem stream_take_succ {call : Call} (h : calls[i]? = some call) :
    stream (calls.take (i + 1)) = stream (calls.take i) ++ call.segment := by
  rw [List.take_add_one, h, stream, List.flatMap_append, Option.toList_some,
    List.flatMap_singleton, stream]

theorem complete_le_succ {call : Call} (h : calls[i]? = some call) :
    complete calls i ≤ complete calls (i + 1) := by
  rw [complete, complete, stream_take_succ h]
  exact (outcomes_extend _ _).length_le

/-- What is due when a call comes, if it is complete. -/
theorem getElem?_due (calls : List Call) (i k : Nat) :
    (outcomes (stream (calls.take i)))[k]? =
      if k < complete calls i then (outcomes (stream calls))[k]? else none := by
  have hsplit : stream calls = stream (calls.take i) ++ stream (calls.drop i) := by
    rw [stream, stream, stream, ← List.flatMap_append, List.take_append_drop]
  rw [hsplit, complete]
  exact getElem?_outcomes _ _ _

theorem lt_of_closes (h : Closes calls i) : i < calls.length := by
  obtain ⟨call, -, hcall, -⟩ := h
  exact (List.getElem?_eq_some_iff.mp hcall).1

end Pace

/-- What is left of the condition, call by call. -/
def KeepsUpFrom (received : Bytes) (answered : Nat) (closed : Bool) : List Call → Prop
  | [] => closed = true ∨ answered = (outcomes received).length
  | call :: calls =>
    match (outcomes (received ++ call.segment))[answered]? with
    | none => KeepsUpFrom (received ++ call.segment) answered closed calls
    | some o =>
      if closed then o = .malformed ∧ KeepsUpFrom (received ++ call.segment) answered closed calls
      else call.Sendable o ∧
        KeepsUpFrom (received ++ call.segment) (answered + 1) (call.closes o) calls

/-- After a closing answer, no call may find a request. -/
theorem keepsUpFrom_closed (received : Bytes) (answered : Nat) (calls : List Call) :
    KeepsUpFrom received answered true calls ↔
      calls = [] ∨ ∀ v, (outcomes (received ++ stream calls))[answered]? ≠ some (.request v) := by
  induction calls generalizing received with
  | nil => exact iff_of_true (.inl rfl) (.inl rfl)
  | cons call calls ih =>
    have hstream : received ++ stream (call :: calls) =
        received ++ call.segment ++ stream calls := by
      rw [stream, List.flatMap_cons, List.append_assoc, stream]
    have hpart := getElem?_outcomes (received ++ call.segment) (stream calls) answered
    rw [KeepsUpFrom, hstream, or_iff_right (List.cons_ne_nil _ _)]
    cases hnext : (outcomes (received ++ call.segment))[answered]? with
    | none =>
      refine (ih _).trans ⟨?_, .inr⟩
      rintro (rfl | hno)
      · intro v
        rw [stream, List.flatMap_nil, List.append_nil, hnext]
        exact nofun
      · exact hno
    | some o =>
      have hlt := (List.getElem?_eq_some_iff.mp hnext).1
      rw [hnext, if_pos hlt] at hpart
      dsimp only
      rw [if_pos rfl, ih, ← hpart]
      cases o with
      | request v => exact iff_of_false (fun h => absurd h.1 nofun) fun h => h v rfl
      | malformed => exact iff_of_true ⟨rfl, .inr nofun⟩ nofun

section KeepsUp

variable {calls : List Call} {i : Nat}

theorem answers_iff {o : Outcome} : Answers calls i o ↔
    (outcomes (stream (calls.take (i + 1))))[due calls i]? = some o := by
  rw [getElem?_due, Answers]
  split
  · next h => exact and_iff_right h
  · next h => exact iff_of_false (fun hand => h hand.1) nofun

/-- All calls have come, and none has closed. -/
theorem keepsUp_iff_pace (hopen : ∀ j < calls.length, ¬ Closes calls j)
    (hsend : ∀ j < calls.length, ∀ call o, calls[j]? = some call → Answers calls j o →
      call.Sendable o) :
    KeepsUp calls ↔ due calls calls.length = (outcomes (stream calls)).length := by
  have hnone : ∀ i, ¬ Closes calls i := fun i h => hopen i (lt_of_closes h) h
  have hle := due_le_complete calls calls.length
  rw [complete, List.take_length] at hle
  constructor
  · exact fun h => Nat.le_antisymm hle (le_due_iff.mpr (h.pace hnone))
  · intro hdue
    refine ⟨fun i call o hcall ho _ => ?_, fun i hi => absurd hi (hnone i), fun _ => ?_⟩
    · exact hsend i (List.getElem?_eq_some_iff.mp hcall).1 call o hcall ho
    · exact le_due_iff.mp (Nat.le_of_eq hdue.symm)

/-- Call `i` closes, and is the first to. -/
theorem keepsUp_iff_last (hopen : ∀ j < i, ¬ Closes calls j)
    (hsend : ∀ j < i, ∀ call o, calls[j]? = some call → Answers calls j o → call.Sendable o)
    {call : Call} {o : Outcome} (hcall : calls[i]? = some call) (ho : Answers calls i o)
    (hcloses : call.closes o = true) :
    KeepsUp calls ↔ call.Sendable o ∧ (i + 1 = calls.length ∨
      ∀ v, (outcomes (stream calls))[due calls i + 1]? ≠ some (.request v)) := by
  have hclosed : Closes calls i := ⟨call, o, hcall, ho, hcloses⟩
  have hlt := lt_of_closes hclosed
  constructor
  · refine fun h => ⟨h.sendable i call o hcall ho hopen, ?_⟩
    rcases Nat.lt_or_eq_of_le (Nat.succ_le_of_lt hlt) with hmore | hend
    · exact .inr (h.last i hclosed hopen hmore)
    · exact .inl hend
  · rintro ⟨hsendable, hlast⟩
    refine ⟨fun k call' o' hcall' ho' hbefore => ?_, fun k hk hbefore hmore => ?_,
      fun hnone => absurd hclosed (hnone i)⟩
    · rcases Nat.lt_trichotomy k i with hlt | rfl | hgt
      · exact hsend k hlt call' o' hcall' ho'
      · obtain rfl := Option.some.inj (hcall.symm.trans hcall')
        obtain rfl := Option.some.inj (ho.2.symm.trans ho'.2)
        exact hsendable
      · exact absurd hclosed (hbefore i hgt)
    · rcases Nat.lt_trichotomy k i with hlt | rfl | hgt
      · exact absurd hk (hopen k hlt)
      · exact hlast.resolve_left (Nat.ne_of_lt hmore)
      · exact absurd hclosed (hbefore i hgt)

/-- Up to call `i` no answer has closed, and all could be sent. -/
theorem keepsUpFrom_iff (n : Nat) (hn : i + n = calls.length) (hopen : ∀ j < i, ¬ Closes calls j)
    (hsend : ∀ j < i, ∀ call o, calls[j]? = some call → Answers calls j o → call.Sendable o) :
    KeepsUpFrom (stream (calls.take i)) (due calls i) false (calls.drop i) ↔ KeepsUp calls := by
  induction n generalizing i with
  | zero =>
    obtain rfl : i = calls.length := hn
    rw [List.drop_length, List.take_length, KeepsUpFrom, or_iff_right Bool.false_ne_true]
    exact (keepsUp_iff_pace hopen hsend).symm
  | succ n ih =>
    have hi : i < calls.length := by omega
    obtain ⟨call, hcall⟩ : ∃ call, calls[i]? = some call := ⟨_, List.getElem?_eq_getElem hi⟩
    have hdrop : calls.drop i = call :: calls.drop (i + 1) := by
      obtain ⟨hlt, rfl⟩ := List.getElem?_eq_some_iff.mp hcall
      exact List.drop_eq_getElem_cons hlt
    have hle := Nat.le_trans (due_le_complete calls i) (complete_le_succ hcall)
    have hsucc := due_succ calls i
    rw [hdrop, KeepsUpFrom, ← stream_take_succ hcall]
    cases hnext : (outcomes (stream (calls.take (i + 1))))[due calls i]? with
    | none =>
      have hno : ∀ o, ¬ Answers calls i o := fun o ho =>
        absurd ((answers_iff.mp ho).symm.trans hnext) nofun
      have hfull := List.getElem?_eq_none_iff.mp hnext
      rw [← complete] at hfull
      have hsame : due calls (i + 1) = due calls i := by omega
      have hrest := ih (i := i + 1) (by omega)
        (fun j hj hclosed => ?_) fun j hj c o hc ho => ?_
      · rw [hsame] at hrest
        exact hrest
      · rcases Nat.lt_or_eq_of_le (Nat.le_of_lt_succ hj) with hlt | rfl
        · exact hopen j hlt hclosed
        · obtain ⟨_, o, -, ho, -⟩ := hclosed
          exact hno o ho
      · rcases Nat.lt_or_eq_of_le (Nat.le_of_lt_succ hj) with hlt | rfl
        · exact hsend j hlt c o hc ho
        · exact absurd ho (hno o)
    | some o =>
      have ho : Answers calls i o := answers_iff.mpr hnext
      have hmore : due calls (i + 1) = due calls i + 1 := by
        have := ho.1
        omega
      dsimp only
      rw [if_neg Bool.false_ne_true]
      cases hcloses : call.closes o with
      | true =>
        have hwhole : stream (calls.take (i + 1)) ++ stream (calls.drop (i + 1)) =
            stream calls := by
          rw [stream, stream, ← List.flatMap_append, List.take_append_drop, stream]
        rw [keepsUpFrom_closed, hwhole, List.drop_eq_nil_iff,
          keepsUp_iff_last hopen hsend hcall ho hcloses]
        exact and_congr_right' (or_congr_left ⟨fun h => by omega, fun h => by omega⟩)
      | false =>
        by_cases hsendable : call.Sendable o
        · rw [and_iff_right hsendable, ← hmore]
          refine ih (by omega) (fun j hj hclosed => ?_) fun j hj c o' hc ho' => ?_
          · rcases Nat.lt_or_eq_of_le (Nat.le_of_lt_succ hj) with hlt | rfl
            · exact hopen j hlt hclosed
            · obtain ⟨c, o', hc, ho', htrue⟩ := hclosed
              obtain rfl := Option.some.inj (hcall.symm.trans hc)
              obtain rfl := Option.some.inj (ho.2.symm.trans ho'.2)
              exact absurd (hcloses.symm.trans htrue) nofun
          · rcases Nat.lt_or_eq_of_le (Nat.le_of_lt_succ hj) with hlt | rfl
            · exact hsend j hlt c o' hc ho'
            · obtain rfl := Option.some.inj (hcall.symm.trans hc)
              obtain rfl := Option.some.inj (ho.2.symm.trans ho'.2)
              exact hsendable
        · exact iff_of_false (fun h => hsendable h.1) fun h =>
            hsendable (h.sendable i call o hcall ho hopen)

end KeepsUp

/-! ## What the server sees -/

/-- What the server sees of its connection: the messages passed to it, its state, and
the bytes received and not parsed yet. -/
structure ServerView where
  passed : List Bytes
  state : StateE
  input : Bytes

def serverView (w : World) : ServerView where
  passed := (processed w.trace).map Prod.snd
  state := w.state_
  input := w.inputBuffer_

theorem serverView_record {e : Event} (h : e.processedMessage = []) (w : World) :
    serverView (w.record e) = serverView w := by
  simp only [serverView, World.record, processed, List.flatMap_append, List.flatMap_singleton, h,
    List.append_nil]

theorem serverView_sendInLoop {w : World} (h : w.state_ ≠ .kDisconnected) (r : WriteResult)
    (message : Bytes) :
    serverView (w.sendInLoop r .loop message) =
      { serverView w with passed := (serverView w).passed ++ [message] } := by
  obtain ⟨direct, events, rest, q, hpath, -, he⟩ := World.sendInLoop_open h r .loop message
  have hev : events.flatMap Event.processedMessage = [] := by cases hpath <;> rfl
  have hbuf : (if rest = [] then [] else [Event.buffered rest]).flatMap Event.processedMessage =
      [] := by
    split <;> rfl
  rw [he]
  simp [serverView, processed, hev, hbuf]

theorem serverView_accept (t : Thread) (message : Bytes) (w : World) :
    serverView (w.accept t message) = serverView w := by
  rw [World.accept, serverView_record rfl, serverView_record rfl]

/-- `send(Buffer*)` passes the message in every open state. -/
theorem serverView_sendBuffer {w : World} (h : w.state_ ≠ .kDisconnected) (r : WriteResult)
    (buf : Bytes) :
    serverView (w.sendBuffer r .loop buf).1 =
      { serverView w with passed := (serverView w).passed ++ [buf] } := by
  rw [World.sendBuffer_loop, serverView_sendInLoop (by exact h), serverView_accept]

theorem serverView_send {w : World} (h : w.state_ = .kConnected) (r : WriteResult)
    (message : Bytes) :
    serverView (w.send r .loop message) =
      { serverView w with passed := (serverView w).passed ++ [message] } := by
  have ho : (w.accept .loop message).state_ ≠ .kDisconnected := by
    show w.state_ ≠ _
    rw [h]
    nofun
  rw [World.send_loop h, serverView_sendInLoop ho, serverView_accept]

/-- `send(StringPiece)` passes it only while connected. -/
theorem serverView_send_refused {w : World} (h : w.state_ ≠ .kConnected) (r : WriteResult)
    (message : Bytes) : serverView (w.send r .loop message) = serverView w := by
  rw [World.send_refused h, serverView_record rfl]

theorem serverView_shutdown (w : World) :
    serverView (w.shutdown .loop) = { serverView w with
      state := if w.state_ = .kConnected then .kDisconnecting else w.state_ } := by
  unfold World.shutdown World.shutdownInLoop
  by_cases hs : w.state_ = .kConnected
  · rw [if_pos hs]
    cases hw : w.channel_.isWriting <;>
      simp [serverView, World.record, World.setState, Thread.isInLoopThread, processed, hw, hs]
  · simp [serverView, hs]

theorem serverView_handleWrite (r : WriteResult) (w : World) :
    serverView (w.handleWrite r) = serverView w := by
  have hpath := World.handleWrite_path r w
  generalize w.handleWrite r = w' at hpath
  cases hpath with
  | idle _ => rfl
  | stuck _ _ => exact serverView_record rfl w
  | part _ _ _ => simp [serverView, World.record, processed]
  | drained _ _ _ q _ =>
    by_cases hs : w.state_ = .kDisconnecting <;> simp [serverView, processed, hs]

theorem serverView_handleRead {data : Bytes} (h : data ≠ []) (w : World) :
    serverView (w.handleRead (.bytes data)) =
      { serverView w with input := (serverView w).input ++ data } := by
  cases data with
  | nil => exact absurd rfl h
  | cons b data => simp [World.handleRead, serverView, World.record, processed]

/-- What is left to answer, given what was answered. -/
def Pending (s : Session) (stream : Bytes) (closed : Bool) : Prop :=
  (∀ m, outcomes (stream ++ m) = s.answers.map Answer.outcome ++
      outcomesFrom s.context.position (s.conn.inputBuffer_ ++ m)) ∨
    -- the malformed line has been answered, and is still in the buffer
    (closed = true ∧ (∀ m, outcomes (stream ++ m) = s.answers.map Answer.outcome) ∧
      ∀ m, outcomesFrom s.context.position (s.conn.inputBuffer_ ++ m) = [.malformed])

/-- The invariant of a session that has kept up so far. -/
structure SessionInv (s : Session) (stream : Bytes) (closed : Bool) : Prop where
  expecting : s.context.expecting
  state : s.conn.state_ = if closed then .kDisconnecting else .kConnected
  passed : (processed s.conn.trace).map Prod.snd = s.answers.map Answer.bytes
  stops : ∀ a ∈ s.answers.dropLast, a.closing = false
  last : closed = true ↔ ∃ a, s.answers.getLast? = some a ∧ a.closing = true
  pending : Pending s stream closed

/-- No request, and no malformed line, is complete. -/
theorem outcomesFrom_more {p p' : Position} {l l' : Bytes}
    (h : settleLines p l = ⟨[], p', l', false⟩) (m : Bytes) :
    outcomesFrom p (l ++ m) = outcomesFrom p' (l' ++ m) := by
  rw [outcomesFrom_append, h]
  rfl

theorem outcomesFrom_got {p : Position} {l l' : Bytes} {v : RequestView}
    (h : settleLines p l = { settleLines Position.start l' with
      outputs := v :: (settleLines Position.start l').outputs }) (m : Bytes) :
    outcomesFrom p (l ++ m) = .request v :: outcomesFrom Position.start (l' ++ m) := by
  rw [outcomesFrom_append p, outcomesFrom_append Position.start, h]
  dsimp only
  split
  · simp only [outcomesFrom, h, List.map_cons, List.cons_append]
  · simp only [List.map_cons, List.cons_append]

theorem outcomesFrom_bad {p p' : Position} {l l' : Bytes}
    (h : settleLines p l = ⟨[], p', l', true⟩) (m : Bytes) :
    outcomesFrom p (l ++ m) = [.malformed] := by
  rw [outcomesFrom_of_failed (by rw [h]), outcomesFrom, h]
  rfl

namespace Session

/-- The session after `parseRequest` in `onMessage`. -/
def parsed (s : Session) (call : Call) (ctx : HttpContext) (buf : Bytes) : Session :=
  { s with
    context := ctx
    conn := { s.conn.handleRead (.bytes call.segment) with inputBuffer_ := buf } }

theorem serverView_parsed (s : Session) (call : Call) (ctx : HttpContext) (buf : Bytes) :
    serverView (s.parsed call ctx buf).conn = { serverView s.conn with input := buf } := by
  have h := serverView_handleRead call.nonempty s.conn
  have hp := congrArg ServerView.passed h
  have hs := congrArg ServerView.state h
  simp only [serverView] at hp hs
  simp only [serverView, parsed, hp, hs]

/-- What a segment leads to: nothing is complete yet, a request is answered or its response
cannot be put together, or a line is malformed. -/
inductive Received (s : Session) (call : Call) : Option Session → Prop
  | more {ctx : HttpContext} {buf : Bytes} (he : ctx.expecting)
      (hs : settleLines s.context.position (s.conn.inputBuffer_ ++ call.segment) =
        ⟨[], ctx.position, buf, false⟩) :
      Received s call (some (s.parsed call ctx buf))
  | got {ctx : HttpContext} {buf : Bytes}
      (hs : settleLines s.context.position (s.conn.inputBuffer_ ++ call.segment) =
        { settleLines Position.start buf with
          outputs := ctx.request_.view :: (settleLines Position.start buf).outputs }) :
      Received s call ((call.response ctx.request_.view).output.map fun message =>
        { (s.parsed call ctx buf).respond call ctx.request_ (call.response ctx.request_.view)
            message with context := ctx.reset })
  | bad {ctx : HttpContext} {buf : Bytes} {p : Position} (he : ctx.expecting)
      (hs : settleLines s.context.position (s.conn.inputBuffer_ ++ call.segment) =
        ⟨[], p, buf, true⟩)
      (hs' : settleLines ctx.position buf = ⟨[], ctx.position, buf, true⟩) :
      Received s call (some ((s.parsed call ctx buf).onBadRequest call))

theorem not_gotAll {ctx : HttpContext} (h : ctx.expecting) : ctx.gotAll = false := by
  rcases h with h | h <;> simp [HttpContext.gotAll, h]

theorem onRequest_eq (call : Call) (req : HttpRequest) (s : Session) :
    s.onRequest call req = (call.response req.view).output.map fun message =>
      s.respond call req (call.response req.view) message := by
  rw [onRequest, Option.map_eq_bind]
  rfl

theorem message_received {s : Session} (h : s.context.expecting) (call : Call) :
    Received s call (s.step (.message call)) := by
  have hinput : (s.conn.handleRead (.bytes call.segment)).inputBuffer_ =
      s.conn.inputBuffer_ ++ call.segment :=
    congrArg ServerView.input (serverView_handleRead call.nonempty s.conn)
  obtain ⟨ok, ctx, buf, hparse, hp⟩ := HttpContext.parseRequest_parsed call.receiveTime h
    (s.conn.handleRead (.bytes call.segment)).inputBuffer_
  rw [step, onMessage, hparse]
  rw [hinput] at hp
  cases hp with
  | more he hs _ =>
    simp only [Option.bind_eq_bind, Option.bind_some, not_gotAll he]
    exact .more he hs
  | got hg hs _ =>
    simp only [Option.bind_eq_bind, Option.bind_some, hg, Bool.not_true, Bool.false_eq_true,
      if_false, if_true, onRequest_eq]
    have hgot : Received _ call _ := .got hs
    rw [Option.map_eq_bind] at hgot ⊢
    rw [Option.bind_assoc]
    exact hgot
  | bad he hs hs' _ =>
    simp only [Option.bind_eq_bind, Option.bind_some, not_gotAll he]
    exact .bad he hs hs'

/-- Between two calls the parser expects a line, and the connection is open. -/
structure Ready (s : Session) : Prop where
  expecting : s.context.expecting
  state : s.conn.state_ ≠ .kDisconnected

/-- Nothing that was passed or answered is taken back. -/
structure Grows (s s' : Session) : Prop where
  passed : (serverView s.conn).passed <+: (serverView s'.conn).passed
  answers : s.answers <+: s'.answers

theorem Grows.trans {s s₁ s' : Session} (h : s.Grows s₁) (h' : s₁.Grows s') : s.Grows s' :=
  ⟨h.passed.trans h'.passed, h.answers.trans h'.answers⟩

theorem state_parsed (s : Session) (call : Call) (ctx : HttpContext) (buf : Bytes) :
    (s.parsed call ctx buf).conn.state_ = s.conn.state_ :=
  congrArg ServerView.state (serverView_parsed s call ctx buf)

theorem passed_parsed (s : Session) (call : Call) (ctx : HttpContext) (buf : Bytes) :
    (serverView (s.parsed call ctx buf).conn).passed = (serverView s.conn).passed := by
  simp only [serverView_parsed]

theorem shutdown_open {w : World} (h : w.state_ ≠ .kDisconnected) :
    (w.shutdown .loop).state_ ≠ .kDisconnected := by
  have hstate : (w.shutdown .loop).state_ = _ := congrArg ServerView.state (serverView_shutdown w)
  dsimp only at hstate
  rw [hstate]
  split
  · exact nofun
  · exact h

theorem passed_shutdown (w : World) :
    (serverView (w.shutdown .loop)).passed = (serverView w).passed := by
  simp only [serverView_shutdown]

/-- A response is passed in an open connection. -/
theorem respond_view {s : Session} (h : s.conn.state_ ≠ .kDisconnected) (call : Call)
    (req : HttpRequest) (response : HttpResponse) (message : Bytes) :
    (serverView (s.respond call req response message).conn).passed =
        (serverView s.conn).passed ++ [message] ∧
      (s.respond call req response message).conn.state_ ≠ .kDisconnected := by
  have hsent := serverView_sendBuffer h call.write message
  have hpassed := congrArg ServerView.passed hsent
  have hstate : (s.conn.sendBuffer call.write .loop message).1.state_ = s.conn.state_ :=
    congrArg ServerView.state hsent
  have hopen : (s.conn.sendBuffer call.write .loop message).1.state_ ≠ .kDisconnected := by
    rw [hstate]
    exact h
  rw [respond]
  dsimp only
  split
  · exact ⟨(passed_shutdown _).trans hpassed, shutdown_open hopen⟩
  · exact ⟨hpassed, hopen⟩

theorem onBadRequest_view (call : Call) (s : Session) :
    s.Grows (s.onBadRequest call) ∧
      (s.conn.state_ ≠ .kDisconnected → (s.onBadRequest call).conn.state_ ≠ .kDisconnected) := by
  by_cases hconn : s.conn.state_ = .kConnected
  · have hsent := serverView_send hconn call.write badRequest
    have hpassed := congrArg ServerView.passed hsent
    have hstate : (s.conn.send call.write .loop badRequest).state_ = s.conn.state_ :=
      congrArg ServerView.state hsent
    refine ⟨⟨?_, ?_⟩, fun hopen => shutdown_open (by rw [hstate]; exact hopen)⟩
    · rw [onBadRequest, passed_shutdown, hpassed]
      exact List.prefix_append _ _
    · rw [onBadRequest, if_pos hconn]
      exact List.prefix_append _ _
  · have hsent := serverView_send_refused hconn call.write badRequest
    have hstate : (s.conn.send call.write .loop badRequest).state_ = s.conn.state_ :=
      congrArg ServerView.state hsent
    refine ⟨⟨?_, ?_⟩, fun hopen => shutdown_open (by rw [hstate]; exact hopen)⟩
    · rw [onBadRequest, passed_shutdown, hsent]
    · rw [onBadRequest, if_neg hconn]

theorem step_grows {s s' : Session} (h : s.Ready) {a : SessionStep} (hs : s.step a = some s') :
    s'.Ready ∧ s.Grows s' := by
  cases a with
  | writable r =>
    obtain rfl := Option.some.inj hs
    have hview := serverView_handleWrite r s.conn
    have hstate : (s.conn.handleWrite r).state_ = s.conn.state_ := congrArg ServerView.state hview
    refine ⟨⟨h.expecting, hstate ▸ h.state⟩, ?_, List.prefix_refl _⟩
    rw [hview]
  | message call =>
    have hr := message_received h.expecting call
    rw [hs] at hr
    generalize hres : some s' = result at hr
    cases hr with
    | @more ctx buf he _ =>
      obtain rfl := Option.some.inj hres
      have hstate := s.state_parsed call ctx buf
      refine ⟨⟨he, hstate ▸ h.state⟩, ?_, List.prefix_refl _⟩
      rw [passed_parsed]
    | @got ctx buf _ =>
      obtain ⟨message, -, rfl⟩ := Option.map_eq_some_iff.mp hres.symm
      have hopen : (s.parsed call ctx buf).conn.state_ ≠ .kDisconnected := by
        rw [state_parsed]
        exact h.state
      obtain ⟨hpassed, hstate⟩ := respond_view hopen call ctx.request_
        (call.response ctx.request_.view) message
      refine ⟨⟨ctx.expecting_reset, hstate⟩, ?_, List.prefix_append _ _⟩
      rw [hpassed, passed_parsed]
      exact List.prefix_append _ _
    | @bad ctx buf _ he _ _ =>
      obtain rfl := Option.some.inj hres
      obtain ⟨hgrows, hstate⟩ := onBadRequest_view call (s.parsed call ctx buf)
      refine ⟨⟨he, hstate (by rw [state_parsed]; exact h.state)⟩, ?_, hgrows.answers⟩
      rw [← passed_parsed s call ctx buf]
      exact hgrows.passed

theorem run_grows {s s' : Session} (h : s.Ready) {steps : List SessionStep}
    (hs : run step s steps = some s') : s.Grows s' := by
  induction steps generalizing s with
  | nil =>
    obtain rfl := Option.some.inj hs
    exact ⟨List.prefix_refl _, List.prefix_refl _⟩
  | cons a steps ih =>
    obtain ⟨m, hm, hs⟩ := (run_cons_some step).mp hs
    obtain ⟨hready, hgrows⟩ := step_grows h hm
    exact hgrows.trans (ih hready hs)

end Session

theorem mem_dropLast_mono {α : Type} {l l' : List α} (h : l <+: l') {a : α}
    (ha : a ∈ l.dropLast) : a ∈ l'.dropLast := by
  obtain ⟨t, rfl⟩ := h
  cases t with
  | nil => simpa using ha
  | cons b t =>
    rw [List.dropLast_append_of_ne_nil (by simp)]
    exact List.mem_append_left _ (List.dropLast_subset l ha)

/-- Once an answer has followed a closing one, the session is lost. -/
theorem not_answeredOnce_of_behind {s s' : Session} {a : Answer} (ha : a ∈ s.answers.dropLast)
    (hc : a.closing = true) (h : s.answers <+: s'.answers) (stream : Bytes) :
    ¬ AnsweredOnce stream s' := by
  intro hs
  have := hs.stops a (mem_dropLast_mono h ha)
  rw [hc] at this
  exact absurd this nofun

/-- Once something else than an answer has been passed, the session is lost as well. -/
theorem not_answeredOnce_of_ne {s s' : Session} {messages : List Bytes} {answers : List Answer}
    {message : Bytes} {a : Answer} (hpassed : (serverView s.conn).passed = messages ++ [message])
    (hanswers : s.answers = answers ++ [a]) (hsame : messages = answers.map Answer.bytes)
    (hne : message ≠ a.bytes) (h : s.Grows s') (stream : Bytes) : ¬ AnsweredOnce stream s' := by
  intro hs
  obtain ⟨passed', hpassed'⟩ := h.passed
  obtain ⟨answers', hanswers'⟩ := h.answers
  have heq : (serverView s'.conn).passed = s'.answers.map Answer.bytes := hs.passed
  rw [← hpassed', ← hanswers', hpassed, hanswers, hsame, List.map_append, List.map_append,
    List.append_assoc, List.append_assoc] at heq
  exact hne (List.cons.inj (List.append_cancel_left heq)).1

/-- At the end of a session, the condition is what is left of the contract. -/
theorem SessionInv.answeredOnce_iff {s : Session} {stream : Bytes} {closed : Bool}
    (h : SessionInv s stream closed) :
    AnsweredOnce stream s ↔ closed = true ∨ s.answers.length = (outcomes stream).length := by
  constructor
  · intro ha
    rcases ha.complete with hlen | hlast
    · exact .inr hlen
    · exact .inl (h.last.mpr hlast)
  · intro hk
    refine ⟨h.passed, ?_, h.stops, ?_⟩
    · rcases h.pending with hp | ⟨-, hp, -⟩
      · have hp := hp []
        rw [List.append_nil] at hp
        rw [hp]
        exact List.prefix_append _ _
      · have hp := hp []
        rw [List.append_nil] at hp
        exact hp ▸ List.prefix_refl _
    · rcases hk with hc | hlen
      · exact .inr (h.last.mp hc)
      · exact .inl hlen

/-- Whether the next outcome is complete once `segment` has arrived. -/
theorem SessionInv.next {s : Session} {stream : Bytes} {closed : Bool}
    (h : SessionInv s stream closed) (segment : Bytes) :
    (outcomes (stream ++ segment))[s.answers.length]? =
        (outcomesFrom s.context.position (s.conn.inputBuffer_ ++ segment)).head? ∨
      (closed = true ∧ (outcomes (stream ++ segment))[s.answers.length]? = none ∧
        outcomesFrom s.context.position (s.conn.inputBuffer_ ++ segment) = [.malformed]) := by
  rcases h.pending with hp | ⟨hc, hp, hm⟩
  · left
    rw [hp segment, List.getElem?_append_right (by simp), List.length_map, Nat.sub_self,
      List.head?_eq_getElem?]
  · right
    exact ⟨hc, by rw [hp segment]; simp, hm segment⟩

section Next

variable {s : Session} {stream segment : Bytes} {closed : Bool} (h : SessionInv s stream closed)
include h

theorem SessionInv.next_more {p : Position} {buf : Bytes}
    (hs : settleLines s.context.position (s.conn.inputBuffer_ ++ segment) = ⟨[], p, buf, false⟩) :
    (outcomes (stream ++ segment))[s.answers.length]? = none := by
  rcases h.next segment with hn | ⟨-, -, hbad⟩
  · rw [hn, outcomesFrom, hs]
    rfl
  · rw [outcomesFrom, hs] at hbad
    exact absurd hbad nofun

theorem SessionInv.next_got {v : RequestView} {buf : Bytes}
    (hs : settleLines s.context.position (s.conn.inputBuffer_ ++ segment) =
      { settleLines Position.start buf with
        outputs := v :: (settleLines Position.start buf).outputs }) :
    (outcomes (stream ++ segment))[s.answers.length]? = some (.request v) := by
  have hfrom := outcomesFrom_got hs []
  rw [List.append_nil] at hfrom
  rcases h.next segment with hn | ⟨-, -, hbad⟩
  · rw [hn, hfrom]
    rfl
  · rw [hfrom] at hbad
    exact absurd (List.cons.inj hbad).1 nofun

/-- Behind a closing answer the malformed line may have been the next outcome before. -/
theorem SessionInv.next_bad {p : Position} {buf : Bytes}
    (hs : settleLines s.context.position (s.conn.inputBuffer_ ++ segment) = ⟨[], p, buf, true⟩) :
    (outcomes (stream ++ segment))[s.answers.length]? = some .malformed ∨
      closed = true ∧ (outcomes (stream ++ segment))[s.answers.length]? = none := by
  have hfrom := outcomesFrom_bad hs []
  rw [List.append_nil] at hfrom
  rcases h.next segment with hn | ⟨hc, hn, -⟩
  · left
    rw [hn, hfrom]
    rfl
  · exact .inr ⟨hc, hn⟩

end Next

theorem SessionInv.none_closing {s : Session} {stream : Bytes} {closed : Bool}
    (h : SessionInv s stream closed) (hc : closed = false) :
    ∀ a ∈ s.answers, a.closing = false := by
  intro a ha
  by_cases hl : a ∈ s.answers.dropLast
  · exact h.stops a hl
  · have hne : s.answers ≠ [] := List.ne_nil_of_mem ha
    have hlast : s.answers.getLast? = some a := by
      rw [← List.dropLast_concat_getLast hne, List.mem_append, or_iff_right hl,
        List.mem_singleton] at ha
      rw [List.getLast?_eq_some_getLast hne, ha]
    by_contra hclosing
    have := h.last.mpr ⟨a, hlast, by simpa using hclosing⟩
    exact absurd (hc.symm.trans this) nofun

/-- A session that has not been closed gives one more answer. -/
theorem SessionInv.answered {s s' : Session} {stream stream' buf : Bytes}
    (h : SessionInv s stream false) {a : Answer} (he : s'.context.expecting)
    (hanswers : s'.answers = s.answers ++ [a])
    (hfinal : serverView s'.conn = ⟨s.answers.map Answer.bytes ++ [a.bytes],
      if a.closing then .kDisconnecting else .kConnected, buf⟩)
    (hpending : Pending s' stream' a.closing) : SessionInv s' stream' a.closing where
  expecting := he
  state := congrArg ServerView.state hfinal
  passed := by
    rw [hanswers, List.map_append]
    exact congrArg ServerView.passed hfinal
  stops := by
    rw [hanswers, List.dropLast_concat]
    exact h.none_closing rfl
  last := by
    rw [hanswers, List.getLast?_concat]
    simp
  pending := hpending

section

variable {s : Session} {stream : Bytes} {closed : Bool} (h : SessionInv s stream closed)
  (call : Call)
include h

theorem SessionInv.parsed_view (ctx : HttpContext) (buf : Bytes) :
    serverView (s.parsed call ctx buf).conn =
      ⟨s.answers.map Answer.bytes, if closed then .kDisconnecting else .kConnected, buf⟩ := by
  rw [Session.serverView_parsed, serverView, h.passed, h.state]

/-- The segment completes nothing. -/
theorem SessionInv.more {ctx : HttpContext} {buf : Bytes} (he : ctx.expecting)
    (hs : settleLines s.context.position (s.conn.inputBuffer_ ++ call.segment) =
      ⟨[], ctx.position, buf, false⟩) :
    SessionInv (s.parsed call ctx buf) (stream ++ call.segment) closed := by
  have hview := h.parsed_view call ctx buf
  refine ⟨he, congrArg ServerView.state hview, congrArg ServerView.passed hview, h.stops, h.last,
    ?_⟩
  rcases h.pending with hp | ⟨-, -, hm⟩
  · left
    intro m
    rw [List.append_assoc, hp, ← List.append_assoc, outcomesFrom_more hs]
    rfl
  · have hbad := hm call.segment
    rw [outcomesFrom, hs] at hbad
    exact absurd hbad nofun

/-- The segment completes a request of a session that has not been closed, and its response
is sent as a whole. -/
theorem SessionInv.got (hc : closed = false) {ctx : HttpContext} {buf : Bytes}
    (hs : settleLines s.context.position (s.conn.inputBuffer_ ++ call.segment) =
      { settleLines Position.start buf with
        outputs := ctx.request_.view :: (settleLines Position.start buf).outputs }) :
    SessionInv
      { (s.parsed call ctx buf).respond call ctx.request_ (call.response ctx.request_.view)
          (call.response ctx.request_.view).text with context := ctx.reset }
      (stream ++ call.segment) (call.closes (.request ctx.request_.view)) := by
  subst hc
  have hview := h.parsed_view call ctx buf
  have hconn : (s.parsed call ctx buf).conn.state_ = .kConnected := congrArg ServerView.state hview
  set response := call.response ctx.request_.view with hresponse
  have hanswers : ((s.parsed call ctx buf).respond call ctx.request_ response
      response.text).answers = s.answers ++ [.response ctx.request_ response] := rfl
  have hsent := serverView_sendBuffer (w := (s.parsed call ctx buf).conn)
    (by rw [hconn]; nofun) call.write response.text
  have hfinal : serverView ((s.parsed call ctx buf).respond call ctx.request_ response
      response.text).conn = ⟨s.answers.map Answer.bytes ++ [response.text],
        if response.closeConnection_ then .kDisconnecting else .kConnected, buf⟩ := by
    rw [hview] at hsent
    rw [Session.respond]
    dsimp only
    have hstate : (World.sendBuffer call.write .loop response.text
        (s.parsed call ctx buf).conn).1.state_ = .kConnected := congrArg ServerView.state hsent
    cases hclose : response.closeConnection_ with
    | true =>
      rw [if_pos rfl, serverView_shutdown, hsent, if_pos hstate]
      rfl
    | false => rw [if_neg nofun, hsent, if_neg nofun]
  have hcloses : call.closes (.request ctx.request_.view) =
      (Answer.response ctx.request_ response).closing := rfl
  rw [hcloses]
  refine h.answered ctx.expecting_reset hanswers hfinal ?_
  left
  intro m
  have hp := (h.pending.resolve_right fun hbad => absurd hbad.1 nofun) (call.segment ++ m)
  have hinput : ((s.parsed call ctx buf).respond call ctx.request_ response
      response.text).conn.inputBuffer_ = buf := congrArg ServerView.input hfinal
  rw [← List.append_assoc, ← List.append_assoc, outcomesFrom_got hs] at hp
  rw [hp, hanswers, HttpContext.position_reset, hinput]
  simp [Answer.outcome]

/-- A request completed behind a closing answer is answered all the same. -/
theorem SessionInv.behind (hc : closed = true) (ctx : HttpContext) (buf : Bytes)
    (response : HttpResponse) (message : Bytes) :
    ∃ a ∈ ((s.parsed call ctx buf).respond call ctx.request_ response message).answers.dropLast,
      a.closing = true := by
  obtain ⟨a, hlast, hclosing⟩ := h.last.mp hc
  refine ⟨a, ?_, hclosing⟩
  show a ∈ (s.answers ++ [_]).dropLast
  rw [List.dropLast_concat]
  exact List.mem_of_getLast? hlast

/-- A malformed line in a session that has not been closed. -/
theorem SessionInv.bad (hc : closed = false) {ctx : HttpContext} {buf : Bytes} {p : Position}
    (he : ctx.expecting)
    (hs : settleLines s.context.position (s.conn.inputBuffer_ ++ call.segment) =
      ⟨[], p, buf, true⟩)
    (hs' : settleLines ctx.position buf = ⟨[], ctx.position, buf, true⟩) :
    SessionInv ((s.parsed call ctx buf).onBadRequest call) (stream ++ call.segment) true ∧
      ((s.parsed call ctx buf).onBadRequest call).answers = s.answers ++ [.badRequest] := by
  subst hc
  have hview := h.parsed_view call ctx buf
  have hconn : (s.parsed call ctx buf).conn.state_ = .kConnected := congrArg ServerView.state hview
  have hsent := serverView_send hconn call.write badRequest
  rw [hview] at hsent
  have hstate : (World.send call.write .loop badRequest (s.parsed call ctx buf).conn).state_ =
      .kConnected := congrArg ServerView.state hsent
  have hfinal : serverView ((s.parsed call ctx buf).onBadRequest call).conn =
      ⟨s.answers.map Answer.bytes ++ [badRequest], .kDisconnecting, buf⟩ := by
    show serverView (World.shutdown _ _) = _
    rw [serverView_shutdown, hsent, if_pos hstate]
  have hanswers : ((s.parsed call ctx buf).onBadRequest call).answers =
      s.answers ++ [.badRequest] := if_pos hconn
  refine ⟨h.answered he hanswers hfinal ?_, hanswers⟩
  right
  have hinput : ((s.parsed call ctx buf).onBadRequest call).conn.inputBuffer_ = buf :=
    congrArg ServerView.input hfinal
  refine ⟨rfl, fun m => ?_, fun m => ?_⟩
  · have hp := (h.pending.resolve_right fun hbad => absurd hbad.1 nofun) (call.segment ++ m)
    rw [← List.append_assoc, ← List.append_assoc, outcomesFrom_bad hs] at hp
    rw [hp, hanswers]
    simp [Answer.outcome]
  · rw [hinput]
    exact outcomesFrom_bad hs' m

/-- A malformed line behind a closing answer: the 400 reply is refused. -/
theorem SessionInv.refused (hc : closed = true) {ctx : HttpContext} {buf : Bytes} {p : Position}
    (he : ctx.expecting)
    (hs : settleLines s.context.position (s.conn.inputBuffer_ ++ call.segment) =
      ⟨[], p, buf, true⟩)
    (hs' : settleLines ctx.position buf = ⟨[], ctx.position, buf, true⟩) :
    SessionInv ((s.parsed call ctx buf).onBadRequest call) (stream ++ call.segment) closed ∧
      ((s.parsed call ctx buf).onBadRequest call).answers = s.answers := by
  subst hc
  have hview := h.parsed_view call ctx buf
  have hconn : (s.parsed call ctx buf).conn.state_ = .kDisconnecting :=
    congrArg ServerView.state hview
  have hne : (s.parsed call ctx buf).conn.state_ ≠ .kConnected := by rw [hconn]; nofun
  have hsent := serverView_send_refused hne call.write badRequest
  rw [hview] at hsent
  have hstate : (World.send call.write .loop badRequest (s.parsed call ctx buf).conn).state_ =
      .kDisconnecting := congrArg ServerView.state hsent
  have hfinal : serverView ((s.parsed call ctx buf).onBadRequest call).conn =
      ⟨s.answers.map Answer.bytes, .kDisconnecting, buf⟩ := by
    show serverView (World.shutdown _ _) = _
    rw [serverView_shutdown, hsent, hstate]
    rfl
  have hanswers : ((s.parsed call ctx buf).onBadRequest call).answers = s.answers := if_neg hne
  have hinput : ((s.parsed call ctx buf).onBadRequest call).conn.inputBuffer_ = buf :=
    congrArg ServerView.input hfinal
  have hbad (m : Bytes) : outcomesFrom ctx.position
      (((s.parsed call ctx buf).onBadRequest call).conn.inputBuffer_ ++ m) = [.malformed] := by
    rw [hinput]
    exact outcomesFrom_bad hs' m
  refine ⟨⟨he, congrArg ServerView.state hfinal, ?_, ?_, ?_, ?_⟩, hanswers⟩
  · rw [hanswers]
    exact congrArg ServerView.passed hfinal
  · rw [hanswers]
    exact h.stops
  · rw [hanswers]
    exact h.last
  · rw [Pending, hanswers]
    rcases h.pending with hp | ⟨-, hp, -⟩
    · left
      intro m
      have hm := hp (call.segment ++ m)
      rw [← List.append_assoc, ← List.append_assoc, outcomesFrom_bad hs] at hm
      rw [hm]
      exact congrArg (_ ++ ·) (hbad m).symm
    · right
      refine ⟨rfl, fun m => ?_, hbad⟩
      rw [List.append_assoc]
      exact hp (call.segment ++ m)

end

theorem SessionInv.writable {s : Session} {stream : Bytes} {closed : Bool}
    (h : SessionInv s stream closed) (r : WriteResult) :
    SessionInv { s with conn := s.conn.handleWrite r } stream closed := by
  have hview := serverView_handleWrite r s.conn
  have hinput : (s.conn.handleWrite r).inputBuffer_ = s.conn.inputBuffer_ :=
    congrArg ServerView.input hview
  refine ⟨h.expecting, (congrArg ServerView.state hview).trans h.state,
    (congrArg ServerView.passed hview).trans h.passed, h.stops, h.last, ?_⟩
  simpa only [Pending, hinput] using h.pending

theorem SessionInv.ready {s : Session} {stream : Bytes} {closed : Bool}
    (h : SessionInv s stream closed) : s.Ready where
  expecting := h.expecting
  state := by
    rw [h.state]
    split <;> exact nofun

/-- A session in which a response has been sent can only end well if it had not been closed,
and the response was sent as a whole. -/
theorem SessionInv.open_of_answeredOnce {s : Session} {stream : Bytes} {closed : Bool}
    (h : SessionInv s stream closed) {call : Call} {ctx : HttpContext} {buf : Bytes}
    {steps : List SessionStep} {all : Bytes} {s' : Session}
    (hrun : ∃ message, (call.response ctx.request_.view).output = some message ∧
      run Session.step { (s.parsed call ctx buf).respond call ctx.request_
        (call.response ctx.request_.view) message with context := ctx.reset } steps = some s')
    (honce : AnsweredOnce all s') :
    closed = false ∧ (call.response ctx.request_.view).Short := by
  obtain ⟨message, hmessage, hrun⟩ := hrun
  have hopen : (s.parsed call ctx buf).conn.state_ ≠ .kDisconnected := by
    rw [Session.state_parsed]
    exact h.ready.state
  obtain ⟨hpassed, hstate⟩ := Session.respond_view hopen call ctx.request_
    (call.response ctx.request_.view) message
  have hready : Session.Ready { (s.parsed call ctx buf).respond call ctx.request_
      (call.response ctx.request_.view) message with context := ctx.reset } :=
    ⟨ctx.expecting_reset, hstate⟩
  have hgrows := Session.run_grows hready hrun
  constructor
  · by_contra hclosed
    obtain ⟨a, ha, hclosing⟩ := h.behind call (Bool.not_eq_false _ ▸ hclosed) ctx buf
      (call.response ctx.request_.view) message
    exact not_answeredOnce_of_behind ha hclosing hgrows.answers all honce
  · by_contra hlong
    have hne : message ≠ (call.response ctx.request_.view).text := fun heq =>
      hlong ((HttpResponse.length_of_output hmessage).2 (congrArg List.length heq))
    have hsame : (serverView (s.parsed call ctx buf).conn).passed = s.answers.map Answer.bytes :=
      (Session.passed_parsed s call ctx buf).trans h.passed
    refine not_answeredOnce_of_ne (a := .response ctx.request_ (call.response ctx.request_.view))
      ?_ rfl rfl hne hgrows all honce
    exact hpassed.trans (congrArg (· ++ [message]) hsame)

/-- A request is answered once only if no closing answer was given before, by a response that
is sent as a whole; and then it comes to what the rest of the steps do. -/
theorem SessionInv.got_iff {s : Session} {stream : Bytes} {closed : Bool}
    (h : SessionInv s stream closed) {call : Call} {ctx : HttpContext} {buf : Bytes}
    {steps : List SessionStep} {all : Bytes} {R : Prop}
    (hrest : closed = false → ((∃ s', run Session.step
      { (s.parsed call ctx buf).respond call ctx.request_ (call.response ctx.request_.view)
        (call.response ctx.request_.view).text with context := ctx.reset } steps = some s' ∧
      AnsweredOnce all s') ↔ R)) :
    (∃ m, (call.response ctx.request_.view).output.map (fun message =>
        { (s.parsed call ctx buf).respond call ctx.request_ (call.response ctx.request_.view)
          message with context := ctx.reset }) = some m ∧
      ∃ s', run Session.step m steps = some s' ∧ AnsweredOnce all s') ↔
      closed = false ∧ (call.response ctx.request_.view).Short ∧ R := by
  constructor
  · rintro ⟨m, hm, s', hs', honce⟩
    obtain ⟨message, hmessage, rfl⟩ := Option.map_eq_some_iff.mp hm
    obtain ⟨hc, hshort⟩ := h.open_of_answeredOnce ⟨message, hmessage, hs'⟩ honce
    have hwhole := HttpResponse.output_of_short hshort
    obtain rfl := Option.some.inj (hwhole.symm.trans hmessage)
    exact ⟨hc, hshort, (hrest hc).mp ⟨s', hs', honce⟩⟩
  · rintro ⟨hc, hshort, hR⟩
    have hwhole := HttpResponse.output_of_short hshort
    exact ⟨_, Option.map_eq_some_iff.mpr ⟨_, hwhole, rfl⟩, (hrest hc).mpr hR⟩

open Session in
/-- From a session that has kept up, the contract holds at the end exactly if the rest of
the calls keep up as well. -/
theorem SessionInv.run_iff (steps : List SessionStep) (s : Session) (stream : Bytes)
    (closed : Bool) (h : SessionInv s stream closed) :
    (∃ s', run step s steps = some s' ∧ AnsweredOnce (stream ++ received steps) s') ↔
      KeepsUpFrom stream s.answers.length closed (calls steps) := by
  induction steps generalizing s stream closed with
  | nil =>
    rw [received, calls, List.filterMap_nil, Http.stream, List.flatMap_nil, List.append_nil,
      KeepsUpFrom, ← h.answeredOnce_iff]
    constructor
    · rintro ⟨s', hs', honce⟩
      obtain rfl := Option.some.inj hs'
      exact honce
    · intro honce
      exact ⟨s, rfl, honce⟩
  | cons a steps ih =>
    rw [exists_run_cons]
    cases a with
    | writable r =>
      have hiff := ih _ _ _ (h.writable r)
      rw [step]
      simp only [Option.some.injEq, exists_eq_left']
      exact hiff
    | message call =>
      have hstream : stream ++ received (.message call :: steps) =
          stream ++ call.segment ++ received steps := by simp [received, calls, Http.stream]
      have hcalls : calls (.message call :: steps) = call :: calls steps := rfl
      have hr := message_received h.expecting call
      rw [hstream, hcalls, KeepsUpFrom]
      generalize s.step (.message call) = result at hr
      cases hr with
      | @more ctx buf he hs =>
        have hiff := ih _ _ _ (h.more call he hs)
        rw [h.next_more hs]
        simp only [Option.some.injEq, exists_eq_left']
        exact hiff
      | @got ctx buf hs =>
        rw [h.next_got hs, h.got_iff fun hc => ih _ _ _ (h.got call hc hs)]
        cases closed <;> simp [respond, parsed, Call.Sendable]
      | @bad ctx buf p he hs hs' =>
        simp only [Option.some.injEq, exists_eq_left']
        cases hc : closed with
        | false =>
          obtain ⟨hinv, hanswers⟩ := h.bad call hc he hs hs'
          have hiff := ih _ _ _ hinv
          have hsome := (h.next_bad hs).resolve_right
            fun hn => absurd (hc.symm.trans hn.1) Bool.false_ne_true
          rw [hanswers, List.length_append, List.length_singleton] at hiff
          rw [hsome]
          exact hiff.trans (and_iff_right trivial).symm
        | true =>
          obtain ⟨hinv, hanswers⟩ := h.refused call hc he hs hs'
          have hiff := ih _ _ _ hinv
          rw [hanswers, hc] at hiff
          rcases h.next_bad hs with hn | ⟨-, hn⟩
          · rw [hn]
            exact hiff.trans (by simp)
          · rw [hn]
            exact hiff

/-- A session over any segmentation of any byte stream comes to its end, with every request
answered once up to the first closing answer, exactly if its calls keep up. -/
theorem answered_once_iff (c : Config) (steps : List SessionStep) :
    (∃ s, run Session.step (Session.start c) steps = some s ∧
      AnsweredOnce (received steps) s) ↔ KeepsUp (calls steps) := by
  have hstart : SessionInv (Session.start c) [] false := by
    have hanswers : (Session.start c).answers = [] := rfl
    have hposition : (Session.start c).context.position = Position.start := rfl
    have hinput : (Session.start c).conn.inputBuffer_ = [] := rfl
    have htrace : (Session.start c).conn.trace = [.connectionCallback true] := rfl
    refine ⟨.inl rfl, rfl, ?_, ?_, ?_, .inl fun m => ?_⟩
    · rw [htrace, hanswers]
      rfl
    · rw [hanswers]
      exact fun _ ha => absurd ha List.not_mem_nil
    · simp [hanswers]
    · rw [hposition, hinput, hanswers]
      rfl
  have hiff := @keepsUpFrom_iff (calls steps) 0 _ (Nat.zero_add _)
    (fun j hj => absurd hj (Nat.not_lt_zero j)) fun j hj => absurd hj (Nat.not_lt_zero j)
  rw [due_zero, List.drop_zero] at hiff
  exact (hstart.run_iff steps).trans hiff

/-- Two requests in one segment, and nothing after it. -/
def pipelined : Call where
  segment := ascii "GET / HTTP/1.1\r\n\r\nGET / HTTP/1.1\r\n\r\n"
  nonempty := by decide
  receiveTime := 0
  httpCallback := id
  write := .count 0

/-- The second request is complete when the only call of the server answers the first. -/
theorem answered_once_fails_pipelined :
    ¬ ∀ (c : Config) (steps : List SessionStep),
      ∀ s ∈ run Session.step (Session.start c) steps, AnsweredOnce (received steps) s := by
  intro h
  have hrun : ∃ s ∈ run Session.step (Session.start {}) [.message pipelined],
      s.answers.map Answer.closing = [false] := by decide
  have hparse : ∃ d ∈ Driver.run [(0, received [.message pipelined])],
      d.requests.length = 2 := by decide
  obtain ⟨s, hs, hanswers⟩ := hrun
  obtain ⟨d, hd, hrequests⟩ := hparse
  have hlen : s.answers.length = 1 := by simpa using congrArg List.length hanswers
  obtain ⟨e, he, hout⟩ := outcomes_driver 0 (received [.message pipelined])
  obtain rfl := Option.some.inj (hd.symm.trans he)
  rcases (h {} _ s hs).complete with hc | ⟨a, ha, hclosing⟩
  · have := congrArg List.length hout
    simp only [List.length_append, List.length_map] at this
    omega
  · have hmem := List.mem_map_of_mem (f := Answer.closing) (List.mem_of_getLast? ha)
    rw [hanswers, List.mem_singleton, hclosing] at hmem
    exact absurd hmem nofun

end Cnet.Net.Http
