import Cnet.Net.Http.Grammar

/-!
# Rejected request lines

`processRequestLine` writes into the request while it still checks the line. A line that is
refused for want of a space, or for its method, leaves the request as it was; a line that is
refused later leaves its method behind, on which `setMethod` fails its assert when the same
line is looked at again.
-/

namespace Cnet.Net.Http

open Cnet.Support

/-- The line begins with a known method and a space. -/
def BeginsWithMethod (line : Bytes) : Prop :=
  ∃ method ∈ methodNames, ∃ rest, line = method ++ space :: rest

theorem setTarget_method (target : Bytes) (r : HttpRequest) :
    (setTarget target r).method_ = r.method_ := by
  unfold setTarget
  dsimp only
  split_ifs <;> rfl

theorem setVersionOf_method (version : Bytes) (r : HttpRequest) :
    (setVersionOf version r).2.method_ = r.method_ := by
  unfold setVersionOf
  split_ifs <;> rfl

/-- Whatever becomes of it, a line leaves what comes before its first space as the method. -/
theorem processRequestLine_method {method : Bytes} (hmethod : space ∉ method) (rest : Bytes)
    (r : HttpRequest) :
    (processRequestLine (method ++ space :: rest) r).2.method_ = Method.ofName method := by
  have hlen : method.length ≠ (method ++ space :: rest).length := by
    rw [List.length_append, List.length_cons]
    omega
  rw [processRequestLine]
  simp only [find_append hmethod, take_append_cons, drop_append_cons, if_neg hlen]
  split_ifs
  · rfl
  · rfl
  · exact (setVersionOf_method _ _).trans (setTarget_method _ _)

theorem processRequestLine_noSpace {line : Bytes} (h : space ∉ line) (r : HttpRequest) :
    processRequestLine line r = (false, r) := by
  rw [processRequestLine, if_pos (find_of_notMem h)]

/-- A line with an unknown method is refused as soon as this is known. -/
theorem processRequestLine_unknown {method : Bytes} (hmethod : space ∉ method)
    (hunknown : Method.ofName method = .kInvalid) (rest : Bytes) (r : HttpRequest) :
    processRequestLine (method ++ space :: rest) r = (false, { r with method_ := .kInvalid }) := by
  have hlen : method.length ≠ (method ++ space :: rest).length := by
    rw [List.length_append, List.length_cons]
    omega
  have hset : r.setMethod method = (false, { r with method_ := .kInvalid }) := by
    rw [HttpRequest.setMethod, hunknown]
    rfl
  rw [processRequestLine]
  simp only [find_append hmethod, take_append_cons, if_neg hlen, hset]
  rfl

/-- Where `setMethod` may be called, a line leaves the request as it was unless it begins
with a known method. -/
theorem processRequestLine_unchanged_iff {line : Bytes} {r : HttpRequest}
    (hassert : space ∈ line → r.method_ = .kInvalid)
    (hbad : (processRequestLine line r).1 = false) :
    (processRequestLine line r).2 = r ↔ ¬ BeginsWithMethod line := by
  by_cases hspace : space ∈ line
  · obtain ⟨method, rest, rfl, hmethod⟩ := exists_of_find_ne (find_ne_length_iff.mpr hspace)
    have hinvalid := hassert hspace
    by_cases hunknown : Method.ofName method = .kInvalid
    · have hsame : { r with method_ := .kInvalid } = r := by rw [← hinvalid]
      rw [processRequestLine_unknown hmethod hunknown, iff_true_left hsame]
      rintro ⟨method', hname, rest', heq⟩
      obtain ⟨rfl, -⟩ := append_cons_inj hmethod (space_notMem_method hname) heq
      exact mem_methodNames_iff.mp hname hunknown
    · constructor
      · intro hsame
        have hleft := processRequestLine_method hmethod rest r
        rw [hsame, hinvalid] at hleft
        exact absurd hleft.symm hunknown
      · exact fun hno => absurd ⟨method, mem_methodNames_iff.mpr hunknown, rest, rfl⟩ hno
  · rw [processRequestLine_noSpace hspace]
    refine iff_of_true rfl ?_
    rintro ⟨method, -, rest, rfl⟩
    exact hspace (List.mem_append_right _ List.mem_cons_self)

namespace HttpContext

/-- The assert in `setMethod`, which a call of `parseRequest` reaches for its first line only
and if this has a space. -/
def SetMethodAsserts (ctx : HttpContext) (buf : Bytes) : Prop :=
  ctx.state_ = .kExpectRequestLine → ∀ k ∈ findCRLF buf, space ∈ buf.take k →
    ctx.request_.method_ = .kInvalid

/-- Each time that more bytes come, the next call fails no assert, rejects the line again
and changes nothing. -/
def RejectsAgain (ctx : HttpContext) : Bytes → List (Timestamp × Bytes) → Prop
  | _, [] => True
  | buf, (receiveTime, more) :: arrivals =>
    SetMethodAsserts ctx (buf ++ more) ∧
      parseRequest receiveTime ctx (buf ++ more) = some (false, ctx, buf ++ more) ∧
      RejectsAgain ctx (buf ++ more) arrivals

/-- The bytes before the first CRLF. -/
def firstLine (buf : Bytes) : Bytes := buf.take ((findCRLF buf).getD buf.length)

theorem parseLoop_ne_false (receiveTime : Timestamp) (fuel : Nat) {ctx : HttpContext} (buf : Bytes)
    (h : ctx.state_ ≠ .kExpectRequestLine) {ctx' : HttpContext} {buf' : Bytes} :
    parseLoop receiveTime fuel ctx buf ≠ some (false, ctx', buf') := by
  induction fuel generalizing ctx buf with
  | zero => exact (Option.some_ne_none _).symm
  | succ fuel ih =>
    rw [parseLoop]
    split
    · case h_1 hstate => exact absurd hstate h
    · split
      · dsimp only
        split_ifs
        · exact ih _ h
        · simp
      · simp
    · exact ih _ h
    · exact ih _ h

/-- What a call that returns false did. -/
theorem parseRequest_false {receiveTime : Timestamp} {ctx ctx' : HttpContext} {buf buf' : Bytes}
    (h : parseRequest receiveTime ctx buf = some (false, ctx', buf')) :
    ctx.state_ = .kExpectRequestLine ∧ buf' = buf ∧ ∃ k, findCRLF buf = some k ∧
      (processRequestLine (buf.take k) ctx.request_).1 = false ∧
      ctx' = { ctx with request_ := (processRequestLine (buf.take k) ctx.request_).2 } := by
  have hstate : ctx.state_ = .kExpectRequestLine := by
    by_contra hno
    exact parseLoop_ne_false receiveTime _ buf hno h
  rw [parseRequest, parseLoop, hstate] at h
  dsimp only at h
  cases hfind : findCRLF buf with
  | none =>
    rw [hfind] at h
    simp only [Option.some.injEq, Prod.mk.injEq, Bool.true_eq_false, false_and] at h
  | some k =>
    rw [hfind] at h
    dsimp only at h
    split_ifs at h with hok
    · exact absurd h (parseLoop_ne_false receiveTime _ _ (by simp))
    · rw [Option.some.injEq, Prod.mk.injEq, Prod.mk.injEq] at h
      obtain ⟨-, hctx, hbuf⟩ := h
      refine ⟨hstate, hbuf.symm, k, rfl, Bool.not_eq_true _ ▸ hok, ?_⟩
      rw [← hctx, hstate]

/-- A call on a line that is refused without a trace. -/
theorem parseRequest_rejects (receiveTime : Timestamp) {ctx : HttpContext} {buf : Bytes} {k : Nat}
    (hstate : ctx.state_ = .kExpectRequestLine) (hfind : findCRLF buf = some k)
    (hline : processRequestLine (buf.take k) ctx.request_ = (false, ctx.request_)) :
    parseRequest receiveTime ctx buf = some (false, ctx, buf) := by
  rw [parseRequest, parseLoop, hstate]
  dsimp only
  rw [hfind]
  dsimp only
  rw [hline, if_neg Bool.false_ne_true, ← hstate]

/-- More bytes leave the first line as it is. -/
theorem firstLine_append {buf : Bytes} {k : Nat} (h : findCRLF buf = some k) (more : Bytes) :
    findCRLF (buf ++ more) = some k ∧ (buf ++ more).take k = buf.take k := by
  obtain ⟨line, rest, rfl, hline, rfl⟩ := exists_of_findCRLF h
  have hassoc : line ++ crlf ++ rest ++ more = line ++ crlf ++ (rest ++ more) :=
    List.append_assoc _ _ _
  rw [hassoc, take_line, take_line]
  exact ⟨findCRLF_append hline _, rfl⟩

/-- A line refused without a trace stays refused, however often it is looked at. -/
theorem rejectsAgain {ctx : HttpContext} {buf : Bytes} {k : Nat}
    (hstate : ctx.state_ = .kExpectRequestLine) (hfind : findCRLF buf = some k)
    (hline : processRequestLine (buf.take k) ctx.request_ = (false, ctx.request_))
    (hassert : space ∈ buf.take k → ctx.request_.method_ = .kInvalid)
    (arrivals : List (Timestamp × Bytes)) : RejectsAgain ctx buf arrivals := by
  induction arrivals generalizing buf with
  | nil => exact True.intro
  | cons arrival arrivals ih =>
    obtain ⟨hfind', htake⟩ := firstLine_append hfind arrival.2
    rw [← htake] at hline hassert
    refine ⟨fun _ j hj hspace => ?_, parseRequest_rejects _ hstate hfind' hline,
      ih hfind' hline hassert⟩
    obtain rfl := Option.some.inj (hfind'.symm.trans hj)
    exact hassert hspace

/-- Where a call rejects the first line, it leaves the context as it was, and so do all calls
to come, exactly if the line does not begin with a known method and a space. -/
theorem rejection_leaves_parser_iff (receiveTime : Timestamp) (ctx ctx' : HttpContext)
    (buf buf' : Bytes) (hassert : SetMethodAsserts ctx buf)
    (h : parseRequest receiveTime ctx buf = some (false, ctx', buf')) :
    (ctx' = ctx ∧ ∀ arrivals, RejectsAgain ctx' buf' arrivals) ↔
      ¬ BeginsWithMethod (firstLine buf) := by
  obtain ⟨hstate, rfl, k, hfind, hbad, hctx⟩ := parseRequest_false h
  have hmethod : space ∈ buf'.take k → ctx.request_.method_ = .kInvalid :=
    fun hspace => hassert hstate k hfind hspace
  have hfirst : firstLine buf' = buf'.take k := by rw [firstLine, hfind, Option.getD_some]
  have hunchanged := processRequestLine_unchanged_iff hmethod hbad
  rw [hfirst, ← hunchanged]
  constructor
  · rintro ⟨hsame, -⟩
    rw [hctx] at hsame
    exact congrArg request_ hsame
  · intro hsame
    rw [hsame] at hctx
    subst hctx
    refine ⟨rfl, rejectsAgain hstate hfind ?_ hmethod⟩
    exact Prod.ext hbad hsame

/-- An unknown method. -/
theorem rejection_leaves_parser_iff_unknown :
    (({} : HttpContext) = {} ∧ ∀ arrivals, RejectsAgain {} (ascii "BAD / HTTP/1.1\r\n") arrivals) ↔
      ¬ BeginsWithMethod (firstLine (ascii "BAD / HTTP/1.1\r\n")) := by
  refine rejection_leaves_parser_iff 0 {} {} _ _ ?_ (by decide)
  exact fun _ _ _ _ => rfl

/-- `GET` and a target without a version: the method stays behind, and when one more byte
comes, the assert fails. -/
theorem rejection_leaves_method :
    ∃ ctx', parseRequest 0 {} (ascii "GET /\r\n") = some (false, ctx', ascii "GET /\r\n") ∧
      ctx' ≠ {} ∧ ¬ RejectsAgain ctx' (ascii "GET /\r\n") [(0, [0])] := by
  refine ⟨{ request_ := { method_ := .kGet } }, by decide, by decide, ?_⟩
  rintro ⟨hassert, -⟩
  have hinvalid := hassert rfl 5 (by decide) (by decide)
  exact absurd hinvalid (by decide)

end HttpContext

end Cnet.Net.Http
