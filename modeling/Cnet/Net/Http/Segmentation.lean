import Mathlib.Data.List.Forall2
import Cnet.Net.Http.HttpContext

/-!
# Parsing does not depend on segmentation

The parser is a reader of CRLF-framed lines that starts afresh after each request.
A driver that feeds it segments gets from any split of a byte string what it gets
from the whole, and each request is what its own bytes give a fresh parser.
-/

namespace Cnet.Net.Http

open Cnet.Support

/-- Lines end with CRLF. -/
def lines : Splitter Byte := pairSplitter CR LF

inductive Phase
  | requestLine
  | headers
deriving DecidableEq, Repr

/-- Where the parser stands between two lines. -/
abbrev Position := Phase × RequestView

/-- What the parser does with a line. -/
def readLine : Position → Bytes → Action Position RequestView
  | (.requestLine, v), line =>
    let (ok, r) := processRequestLine line v.toRequest
    if ok then .next (.headers, r.view) else .fail
  | (.headers, v), line =>
    let c := find colon line
    if c ≠ line.length then .next (.headers, (v.toRequest.addHeader line c).view)
    else .emit v (.requestLine, .fresh)

/-- Before the first line of a request. -/
def Position.start : Position := (.requestLine, .fresh)

/-- Everything the parser makes of the bytes at hand. -/
abbrev settleLines (p : Position) (l : Bytes) : Settled Position Byte RequestView :=
  settle lines readLine p l

theorem findCRLF_some {buf : Bytes} {crlf : Nat} (h : findCRLF buf = some crlf) :
    lines.split buf = some (buf.take crlf, buf.drop (crlf + 2)) := by
  show (findPair CR LF buf).map _ = _
  rw [show findPair CR LF buf = some crlf from h]
  rfl

theorem findCRLF_none {buf : Bytes} (h : findCRLF buf = none) : lines.split buf = none := by
  show (findPair CR LF buf).map _ = _
  rw [show findPair CR LF buf = none from h]
  rfl

/-- Two updates of a request that agree on whether they succeed and on the view. -/
def SameView (p p' : Bool × HttpRequest) : Prop := p.1 = p'.1 ∧ p.2.view = p'.2.view

section

variable {r r' : HttpRequest} (h : r.view = r'.view)
include h

theorem setMethod_view (m : Bytes) : SameView (r.setMethod m) (r'.setMethod m) := by
  simp only [HttpRequest.view, RequestView.mk.injEq] at h
  simp [SameView, HttpRequest.setMethod, HttpRequest.view, h]

theorem setTarget_view (target : Bytes) :
    (setTarget target r).view = (setTarget target r').view := by
  simp only [HttpRequest.view, RequestView.mk.injEq] at h
  unfold setTarget
  dsimp only
  split_ifs <;> simp [HttpRequest.setPath, HttpRequest.setQuery, HttpRequest.view, h]

theorem setVersionOf_view (version : Bytes) :
    SameView (setVersionOf version r) (setVersionOf version r') := by
  simp only [HttpRequest.view, RequestView.mk.injEq] at h
  unfold setVersionOf
  split_ifs <;> simp [SameView, HttpRequest.setVersion, HttpRequest.view, h]

theorem addHeader_view (line : Bytes) (c : Nat) :
    (r.addHeader line c).view = (r'.addHeader line c).view := by
  simp only [HttpRequest.view, RequestView.mk.injEq] at h
  simp [HttpRequest.addHeader, HttpRequest.view, h]

theorem processRequestLine_view (line : Bytes) :
    SameView (processRequestLine line r) (processRequestLine line r') := by
  unfold processRequestLine
  dsimp only
  have hm := setMethod_view h (line.take (find space line))
  rw [hm.1]
  split_ifs
  · exact ⟨rfl, h⟩
  · exact ⟨rfl, hm.2⟩
  · exact ⟨rfl, hm.2⟩
  · exact setVersionOf_view (setTarget_view hm.2 _) _

end

/-- Whether a request line is accepted depends on the line alone. -/
theorem processRequestLine_ok (line : Bytes) (r r' : HttpRequest) :
    (processRequestLine line r).1 = (processRequestLine line r').1 := by
  unfold processRequestLine setVersionOf
  dsimp only [HttpRequest.setMethod]
  split_ifs <;> rfl

section

variable {r : HttpRequest} {line : Bytes}

theorem readLine_accepted (hok : (processRequestLine line r).1 = true) (receiveTime : Timestamp) :
    readLine (.requestLine, r.view) line =
      .next (.headers, ((processRequestLine line r).2.setReceiveTime receiveTime).view) := by
  have hview := processRequestLine_view (RequestView.view_toRequest r.view) line
  simp only [readLine, hview.1, hok, if_true]
  exact congrArg (fun v => Action.next (Phase.headers, v)) hview.2

/-- A request line that one request refuses is refused by all. -/
theorem readLine_refused (hok : (processRequestLine line r).1 = false) (v : RequestView) :
    readLine (.requestLine, v) line = .fail := by
  have hok' := processRequestLine_ok line v.toRequest r
  simp only [readLine, hok', hok]
  rfl

theorem readLine_header (hcolon : find colon line ≠ line.length) :
    readLine (.headers, r.view) line =
      .next (.headers, (r.addHeader line (find colon line)).view) := by
  have hview := addHeader_view (RequestView.view_toRequest r.view) line (find colon line)
  simp only [readLine, ne_eq, hcolon, not_false_eq_true, if_true]
  exact congrArg (fun v => Action.next (Phase.headers, v)) hview

theorem readLine_blank (hcolon : find colon line = line.length) (v : RequestView) :
    readLine (.headers, v) line = .emit v Position.start := by
  simp only [readLine, hcolon, ne_eq, not_true_eq_false, if_false]
  rfl

end

namespace HttpContext

/-- The parser is between two lines. -/
def expecting (ctx : HttpContext) : Prop :=
  ctx.state_ = .kExpectRequestLine ∨ ctx.state_ = .kExpectHeaders

def position (ctx : HttpContext) : Position :=
  (if ctx.state_ = .kExpectHeaders then .headers else .requestLine, ctx.request_.view)

theorem position_requestLine {ctx : HttpContext} (hs : ctx.state_ = .kExpectRequestLine) :
    ctx.position = (.requestLine, ctx.request_.view) := by
  simp [position, hs]

theorem position_headers {ctx : HttpContext} (hs : ctx.state_ = .kExpectHeaders) :
    ctx.position = (.headers, ctx.request_.view) := by
  simp [position, hs]

theorem expecting_reset (ctx : HttpContext) : ctx.reset.expecting := .inl rfl

@[simp] theorem position_reset (ctx : HttpContext) : ctx.reset.position = Position.start := rfl

/-- What one call of `parseRequest` did, in terms of all that can be done. -/
inductive Parsed (ctx : HttpContext) (buf : Bytes) : Bool → HttpContext → Bytes → Prop
  /-- No line is complete any more. -/
  | more {ctx' : HttpContext} {buf' : Bytes} (he : ctx'.expecting)
      (hs : settleLines ctx.position buf = ⟨[], ctx'.position, buf', false⟩)
      (hlen : buf'.length ≤ buf.length) : Parsed ctx buf true ctx' buf'
  /-- A request is complete. -/
  | got {ctx' : HttpContext} {buf' : Bytes} (hg : ctx'.gotAll = true)
      (hs : settleLines ctx.position buf = { settleLines Position.start buf' with
        outputs := ctx'.request_.view :: (settleLines Position.start buf').outputs })
      (hlen : buf'.length < buf.length) : Parsed ctx buf true ctx' buf'
  /-- A request line is malformed, and stays so. -/
  | bad {ctx' : HttpContext} {buf' : Bytes} {p : Position} (he : ctx'.expecting)
      (hs : settleLines ctx.position buf = ⟨[], p, buf', true⟩)
      (hs' : settleLines ctx'.position buf' = ⟨[], ctx'.position, buf', true⟩)
      (hlen : buf'.length ≤ buf.length) : Parsed ctx buf false ctx' buf'

theorem Parsed.step {ctx ctx₁ : HttpContext} {buf buf₁ : Bytes} {ok ctx' buf'}
    (hs : settleLines ctx.position buf = settleLines ctx₁.position buf₁)
    (hlen : buf₁.length < buf.length) (h : Parsed ctx₁ buf₁ ok ctx' buf') :
    Parsed ctx buf ok ctx' buf' := by
  cases h with
  | more he hm hl => exact .more he (hs.trans hm) (by omega)
  | got hg hm hl => exact .got hg (hs.trans hm) (by omega)
  | bad he hm hm' hl => exact .bad he (hs.trans hm) hm' (by omega)

theorem findCRLF_length {buf : Bytes} {crlf : Nat} (h : findCRLF buf = some crlf) :
    (buf.drop (crlf + 2)).length < buf.length := lines.length_lt (findCRLF_some h)

/-- With an iteration for every readable byte and one more, the loop ends. -/
theorem parseLoop_parsed (receiveTime : Timestamp) (fuel : Nat) (ctx : HttpContext) (buf : Bytes)
    (he : ctx.expecting) (hf : buf.length < fuel) :
    ∃ ok ctx' buf', parseLoop receiveTime fuel ctx buf = some (ok, ctx', buf') ∧
      Parsed ctx buf ok ctx' buf' := by
  induction fuel generalizing ctx buf with
  | zero => omega
  | succ fuel ih =>
    cases hc : findCRLF buf with
    | none =>
      have hsettle : settleLines ctx.position buf = ⟨[], ctx.position, buf, false⟩ :=
        settle_none lines readLine (findCRLF_none hc)
      refine ⟨true, ctx, buf, ?_, .more he hsettle (Nat.le_refl _)⟩
      rcases he with hs | hs <;> rw [parseLoop, hs] <;> simp only [hc]
    | some crlf =>
      have hsplit := findCRLF_some hc
      have hlen := findCRLF_length hc
      rcases he with hs | hs
      · have hpos := position_requestLine hs
        cases hok : (processRequestLine (buf.take crlf) ctx.request_).1 with
        | true =>
          let next : HttpContext := {
            state_ := .kExpectHeaders
            request_ := (processRequestLine (buf.take crlf) ctx.request_).2.setReceiveTime
              receiveTime }
          have hact : readLine ctx.position (buf.take crlf) = .next next.position := by
            rw [hpos]
            exact readLine_accepted hok receiveTime
          obtain ⟨ok, ctx', buf', hloop, hp⟩ := ih next (buf.drop (crlf + 2)) (.inr rfl) (by omega)
          refine ⟨ok, ctx', buf', ?_, hp.step (settle_next lines readLine hsplit hact) hlen⟩
          rw [parseLoop, hs]
          simp only [hc, hok, if_true]
          exact hloop
        | false =>
          have hact : readLine ctx.position (buf.take crlf) = .fail := by
            rw [hpos]
            exact readLine_refused hok _
          let next : HttpContext := {
            state_ := .kExpectRequestLine
            request_ := (processRequestLine (buf.take crlf) ctx.request_).2 }
          have hagain : readLine next.position (buf.take crlf) = .fail := readLine_refused hok _
          refine ⟨false, next, buf, ?_, .bad (.inl rfl) (settle_fail lines readLine hsplit hact)
            (settle_fail lines readLine hsplit hagain) (Nat.le_refl _)⟩
          rw [parseLoop, hs]
          simp only [hc, hok]
          exact if_neg nofun
      · have hpos := position_headers hs
        by_cases hcolon : find colon (buf.take crlf) = (buf.take crlf).length
        · have hact : readLine ctx.position (buf.take crlf) =
              .emit ctx.request_.view Position.start := by
            rw [hpos]
            exact readLine_blank hcolon _
          refine ⟨true, { ctx with state_ := .kGotAll }, buf.drop (crlf + 2), ?_,
            .got rfl (settle_emit lines readLine hsplit hact) hlen⟩
          rw [parseLoop, hs]
          simp only [hc, hcolon, ne_eq, not_true_eq_false, if_false]
        · let next : HttpContext := {
            state_ := .kExpectHeaders
            request_ := ctx.request_.addHeader (buf.take crlf) (find colon (buf.take crlf)) }
          have hact : readLine ctx.position (buf.take crlf) = .next next.position := by
            rw [hpos]
            exact readLine_header hcolon
          obtain ⟨ok, ctx', buf', hloop, hp⟩ := ih next (buf.drop (crlf + 2)) (.inr rfl) (by omega)
          refine ⟨ok, ctx', buf', ?_, hp.step (settle_next lines readLine hsplit hact) hlen⟩
          rw [parseLoop, hs]
          simp only [hc, ne_eq, hcolon, not_false_eq_true, if_true]
          exact hloop

theorem parseRequest_parsed (receiveTime : Timestamp) {ctx : HttpContext} (he : ctx.expecting)
    (buf : Bytes) :
    ∃ ok ctx' buf', parseRequest receiveTime ctx buf = some (ok, ctx', buf') ∧
      Parsed ctx buf ok ctx' buf' :=
  parseLoop_parsed receiveTime _ ctx buf he (Nat.lt_succ_self _)

end HttpContext

/-- A driver of the parser: it appends each segment to the buffer, then calls
`parseRequest`, with `reset` after each complete request, and stops for good at the
first error. -/
structure Driver where
  ctx : HttpContext := {}
  buf : Bytes := []
  requests : List HttpRequest := []
  consumed : Nat := 0
  stopped : Bool := false
deriving DecidableEq, Repr

namespace Driver

/-- The calls after one segment; `none` if they do not come to an end. -/
def drain (receiveTime : Timestamp) : Nat → Driver → Option Driver
  | 0, _ => none
  | fuel + 1, d => do
    let (ok, ctx, buf) ← d.ctx.parseRequest receiveTime d.buf
    let d' : Driver :=
      { d with ctx := ctx, buf := buf, consumed := d.consumed + (d.buf.length - buf.length) }
    if !ok then return { d' with stopped := true }
    else if ctx.gotAll then
      drain receiveTime fuel { d' with ctx := ctx.reset, requests := d.requests ++ [ctx.request_] }
    else return d'

def feed (d : Driver) (segment : Timestamp × Bytes) : Option Driver :=
  let d := { d with buf := d.buf ++ segment.2 }
  if d.stopped then some d else d.drain segment.1 (d.buf.length + 1)

/-- All segments, each with the time it was received. -/
def run (segments : List (Timestamp × Bytes)) : Option Driver := segments.foldlM feed {}

/-- The driver has done everything the reader does. -/
structure Agrees (d : Driver) (r : Settled Position Byte RequestView) : Prop where
  requests : d.requests.map HttpRequest.view = r.outputs
  buf : d.buf = r.rest
  stopped : d.stopped = r.failed
  expecting : d.stopped = false → d.ctx.expecting ∧ d.ctx.position = r.state

theorem drain_agrees (receiveTime : Timestamp) (fuel : Nat) (d : Driver)
    (he : d.ctx.expecting) (hs : d.stopped = false) (hf : d.buf.length < fuel) :
    ∃ d', d.drain receiveTime fuel = some d' ∧
      d'.Agrees { settleLines d.ctx.position d.buf with
        outputs := d.requests.map HttpRequest.view ++ (settleLines d.ctx.position d.buf).outputs } ∧
      d'.consumed + d'.buf.length = d.consumed + d.buf.length := by
  induction fuel generalizing d with
  | zero => omega
  | succ fuel ih =>
    obtain ⟨ok, ctx, buf, hparse, hp⟩ := HttpContext.parseRequest_parsed receiveTime he d.buf
    rw [drain, hparse]
    cases hp with
    | more hexp hsettle hlen =>
      have hnot : ctx.gotAll = false := by rcases hexp with h | h <;> simp [HttpContext.gotAll, h]
      refine ⟨_, by simp only [Option.bind_eq_bind, Option.bind_some, hnot]; rfl, ?_, ?_⟩
      · rw [hsettle]
        exact ⟨by simp, rfl, hs, fun _ => ⟨hexp, rfl⟩⟩
      · dsimp only
        omega
    | got hg hsettle hlen =>
      let next : Driver := { d with
        ctx := ctx.reset, buf := buf, requests := d.requests ++ [ctx.request_],
        consumed := d.consumed + (d.buf.length - buf.length) }
      obtain ⟨d', hd', ha, hc⟩ :=
        ih next ctx.expecting_reset hs (Nat.lt_of_lt_of_le hlen (by omega))
      refine ⟨d', ?_, ?_, ?_⟩
      · simp only [Option.bind_eq_bind, Option.bind_some, hg]
        exact hd'
      · rw [hsettle]
        rw [HttpContext.position_reset] at ha
        simpa [next] using ha
      · have hsum : next.consumed + next.buf.length = d.consumed + d.buf.length := by
          show d.consumed + (d.buf.length - buf.length) + buf.length = _
          omega
        exact hc.trans hsum
    | bad hexp hsettle hagain hlen =>
      refine ⟨_, by simp only [Option.bind_eq_bind, Option.bind_some]; rfl, ?_, ?_⟩
      · rw [hsettle]
        exact ⟨by simp, rfl, rfl, fun h => absurd h nofun⟩
      · dsimp only
        omega

theorem feed_agrees {d : Driver} {r : Settled Position Byte RequestView} (h : d.Agrees r)
    (segment : Timestamp × Bytes) :
    ∃ d', d.feed segment = some d' ∧ d'.Agrees (r.more lines readLine segment.2) ∧
      d'.consumed + d'.buf.length = d.consumed + d.buf.length + segment.2.length := by
  cases hs : d.stopped with
  | true =>
    refine ⟨{ d with buf := d.buf ++ segment.2 }, by simp [feed, hs], ?_, ?_⟩
    · rw [Settled.more, if_pos (by rw [← h.stopped, hs])]
      exact ⟨h.requests, by rw [← h.buf], h.stopped,
        fun hn => absurd (hs.symm.trans hn) (by decide)⟩
    · show d.consumed + (d.buf ++ segment.2).length = _
      rw [List.length_append]
      omega
  | false =>
    obtain ⟨he, hpos⟩ := h.expecting hs
    obtain ⟨d', hd', ha, hc⟩ := drain_agrees segment.1 ((d.buf ++ segment.2).length + 1)
      { d with buf := d.buf ++ segment.2 } he hs (Nat.lt_succ_self _)
    have hfeed : d.feed segment = some d' := by
      rw [feed]
      dsimp only
      rw [if_neg (by rw [hs]; exact Bool.false_ne_true)]
      exact hd'
    refine ⟨d', hfeed, ?_, ?_⟩
    · rw [Settled.more, if_neg (by rw [← h.stopped, hs]; exact Bool.false_ne_true)]
      rw [h.requests, hpos, h.buf] at ha
      exact ha
    · rw [hc]
      show d.consumed + (d.buf ++ segment.2).length = _
      rw [List.length_append]
      omega

theorem run_agrees (segments : List (Timestamp × Bytes)) :
    ∃ d, run segments = some d ∧
      d.Agrees (settleLines Position.start (segments.map Prod.snd).flatten) ∧
      d.consumed + d.buf.length = (segments.map Prod.snd).flatten.length := by
  suffices h : ∀ (segments : List (Timestamp × Bytes)) (d : Driver) r, d.Agrees r →
      ∃ d', segments.foldlM feed d = some d' ∧
        d'.Agrees (settlePieces lines readLine r (segments.map Prod.snd)) ∧
        d'.consumed + d'.buf.length =
          d.consumed + d.buf.length + (segments.map Prod.snd).flatten.length by
    have hstart : settleLines Position.start [] = ⟨[], Position.start, [], false⟩ :=
      settle_none lines readLine lines.split_nil
    obtain ⟨d, hd, ha, hc⟩ := h segments {} (settleLines Position.start [])
      (by rw [hstart]; exact ⟨rfl, rfl, rfl, fun _ => ⟨.inl rfl, rfl⟩⟩)
    rw [settlePieces_flatten, List.nil_append] at ha
    exact ⟨d, hd, ha, by simpa using hc⟩
  intro segments
  induction segments with
  | nil => intro d r h; exact ⟨d, rfl, h, rfl⟩
  | cons segment segments ih =>
    intro d r h
    obtain ⟨m, hm, ham, hcm⟩ := feed_agrees h segment
    obtain ⟨d', hd', ha, hc⟩ := ih m _ ham
    refine ⟨d', ?_, ha, ?_⟩
    · rw [List.foldlM_cons, hm]
      exact hd'
    · rw [hc, hcm, List.map_cons, List.flatten_cons, List.length_append]
      omega

end Driver

theorem readLine_fresh (p : Position) (line : Bytes) (v : RequestView) (p' : Position)
    (h : readLine p line = .emit v p') : p' = Position.start := by
  obtain ⟨phase, w⟩ := p
  cases phase with
  | requestLine =>
    simp only [readLine] at h
    split at h <;> exact absurd h nofun
  | headers =>
    simp only [readLine] at h
    split at h
    · exact absurd h nofun
    · exact (Action.emit.inj h).2.symm

/-- Inside the headers of a request, only its end leads out of them. -/
theorem headers_stay (n : Nat) (v : RequestView) (l : Bytes) (hn : l.length = n)
    (h : (settleLines (.headers, v) l).outputs = []) :
    (settleLines (.headers, v) l).state.1 = .headers := by
  induction n using Nat.strongRecOn generalizing v l with
  | ind n ih =>
    cases hs : lines.split l with
    | none => rw [settleLines, settle_none lines readLine hs]
    | some p =>
      obtain ⟨line, rest⟩ := p
      by_cases hc : find colon line = line.length
      · rw [settleLines, settle_emit lines readLine hs (readLine_blank hc v)] at h
        exact absurd h nofun
      · have ha : readLine (.headers, v) line =
            .next (.headers, (v.toRequest.addHeader line (find colon line)).view) :=
          readLine_header (r := v.toRequest) hc
        rw [settleLines, settle_next lines readLine hs ha] at h ⊢
        exact ih rest.length (hn ▸ lines.length_lt hs) _ rest rfl h

/-- A reader that ends up before a request without a result has read nothing. -/
theorem eq_nil_of_settle_start {l : Bytes}
    (h : settleLines Position.start l = ⟨[], Position.start, [], false⟩) : l = [] := by
  cases hs : lines.split l with
  | none =>
    rw [settleLines, settle_none lines readLine hs] at h
    exact congrArg Settled.rest h
  | some p =>
    obtain ⟨line, rest⟩ := p
    cases hok : (processRequestLine line RequestView.fresh.toRequest).1 with
    | true =>
      have ha : readLine Position.start line = .next
          (.headers, (processRequestLine line RequestView.fresh.toRequest).2.view) := by
        simp only [readLine, Position.start, hok, if_true]
      rw [settleLines, settle_next lines readLine hs ha] at h
      have hstay := headers_stay rest.length _ rest rfl (congrArg Settled.outputs h)
      rw [settleLines, h] at hstay
      exact absurd hstay nofun
    | false =>
      have ha : readLine Position.start line = .fail := readLine_refused hok _
      rw [settleLines, settle_fail lines readLine hs ha] at h
      exact absurd (congrArg Settled.failed h) nofun

/-- The bytes of one request, parsed by a fresh context. -/
def ParsesAlone (own : Bytes) (v : RequestView) : Prop :=
  ∀ receiveTime, ∃ ctx, HttpContext.parseRequest receiveTime {} own = some (true, ctx, []) ∧
    ctx.gotAll = true ∧ ctx.request_.view = v

theorem parsesAlone_of_reads {own : Bytes} {v : RequestView}
    (h : ReadsAlone lines readLine Position.start own v) : ParsesAlone own v := by
  intro receiveTime
  obtain ⟨ok, ctx, buf, hparse, hp⟩ :=
    HttpContext.parseRequest_parsed receiveTime (.inl rfl : HttpContext.expecting {}) own
  change settleLines (HttpContext.position {}) own = _ at h
  cases hp with
  | more _ hs _ => rw [h] at hs; exact absurd (congrArg Settled.outputs hs) nofun
  | got hg hs _ =>
    rw [h] at hs
    have hout := congrArg Settled.outputs hs
    have hrest := congrArg Settled.rest hs
    have hstate := congrArg Settled.state hs
    have hfailed := congrArg Settled.failed hs
    obtain ⟨hview, hnone⟩ := List.cons.inj hout
    have hbuf : buf = [] := by
      apply eq_nil_of_settle_start
      cases hr : settleLines Position.start buf
      rw [hr] at hnone hrest hstate hfailed
      simp_all
    exact ⟨ctx, hbuf ▸ hparse, hg, hview.symm⟩
  | bad _ hs _ _ => rw [h] at hs; exact absurd (congrArg Settled.outputs hs) nofun

/-- For every split of a byte string, the driver ends on every segment, with the
requests, the error and the number of bytes consumed of the unsplit string; and each
request is what its own bytes alone give a fresh context. -/
theorem parsing_ignores_segmentation (segments : List (Timestamp × Bytes)) :
    ∃ d, Driver.run segments = some d ∧
      (∀ receiveTime, ∃ e, Driver.run [(receiveTime, (segments.map Prod.snd).flatten)] = some e ∧
        d.requests.map HttpRequest.view = e.requests.map HttpRequest.view ∧
        d.stopped = e.stopped ∧ d.consumed = e.consumed) ∧
      ∃ owns tail, (segments.map Prod.snd).flatten = owns.flatten ++ tail ∧
        List.Forall₂ ParsesAlone owns (d.requests.map HttpRequest.view) := by
  obtain ⟨d, hd, ha, hc⟩ := Driver.run_agrees segments
  refine ⟨d, hd, fun receiveTime => ?_, ?_⟩
  · obtain ⟨e, he, hae, hce⟩ :=
      Driver.run_agrees [(receiveTime, (segments.map Prod.snd).flatten)]
    simp only [List.map_cons, List.map_nil, List.flatten_cons, List.flatten_nil,
      List.append_nil] at hae hce
    have hbuf : d.buf = e.buf := ha.buf.trans hae.buf.symm
    refine ⟨e, he, ha.requests.trans hae.requests.symm, ha.stopped.trans hae.stopped.symm, ?_⟩
    rw [hbuf] at hc
    omega
  · obtain ⟨owns, tail, hsplit, hall⟩ := settle_owns lines readLine readLine_fresh
      (segments.map Prod.snd).flatten
    refine ⟨owns, tail, hsplit, ?_⟩
    rw [ha.requests]
    exact hall.imp fun _ _ h => parsesAlone_of_reads h

end Cnet.Net.Http
