import Cnet.Net.Http.Segmentation

/-!
# The grammar of requests

A request is a request line, header lines with a colon, and an empty line. The parser
takes any line without a colon for the empty one, so it accepts more than that, and
exactly what a line without a colon completes.
-/

namespace Cnet.Net.Http

open Cnet.Support

/-! ## Searching -/

theorem find_of_notMem {b : Byte} {l : Bytes} (h : b ∉ l) : find b l = l.length :=
  List.findIdx_eq_length.mpr fun _ hx => decide_eq_false fun heq => h (heq ▸ hx)

theorem find_append {b : Byte} {front : Bytes} (h : b ∉ front) (rest : Bytes) :
    find b (front ++ b :: rest) = front.length := by
  have hfront := find_of_notMem h
  rw [find] at hfront
  rw [find, List.findIdx_append, hfront, if_neg (Nat.lt_irrefl _), List.findIdx_cons,
    decide_eq_true rfl]
  exact Nat.zero_add _

/-- The first `b` divides a range in one way only. -/
theorem append_cons_inj {b : Byte} {front front' rest rest' : Bytes} (h : b ∉ front)
    (h' : b ∉ front') (heq : front ++ b :: rest = front' ++ b :: rest') :
    front = front' ∧ rest = rest' := by
  have hlen : front.length = front'.length := by
    rw [← find_append h rest, heq, find_append h' rest']
  obtain ⟨hfront, hcons⟩ := List.append_inj heq hlen
  exact ⟨hfront, List.tail_eq_of_cons_eq hcons⟩

theorem take_append_cons (front : Bytes) (b : Byte) (rest : Bytes) :
    (front ++ b :: rest).take front.length = front := List.take_left

theorem drop_append_cons (front : Bytes) (b : Byte) (rest : Bytes) :
    (front ++ b :: rest).drop (front.length + 1) = rest := by
  rw [← List.drop_drop, List.drop_left, List.drop_one, List.tail_cons]

/-- The range falls apart at the byte found. -/
theorem exists_of_find_ne {b : Byte} {l : Bytes} (h : find b l ≠ l.length) :
    ∃ front rest, l = front ++ b :: rest ∧ b ∉ front := by
  have hmem : b ∈ l := by
    by_contra hno
    exact h (find_of_notMem hno)
  obtain ⟨front, rest, hl, hfront⟩ := List.eq_append_cons_of_mem hmem
  exact ⟨front, rest, hl, hfront⟩

theorem find_ne_length_iff {b : Byte} {l : Bytes} : find b l ≠ l.length ↔ b ∈ l := by
  constructor
  · intro h
    by_contra hno
    exact h (find_of_notMem hno)
  · intro h
    obtain ⟨front, rest, rfl, hfront⟩ := List.eq_append_cons_of_mem h
    rw [find_append hfront, List.length_append, List.length_cons]
    omega

/-- A line: no CRLF in it. -/
def IsLine (line : Bytes) : Prop := findCRLF line = none

instance (line : Bytes) : Decidable (IsLine line) :=
  inferInstanceAs (Decidable (findCRLF line = none))

def crlf : Bytes := [CR, LF]

theorem findCRLF_append {line : Bytes} (h : IsLine line) (rest : Bytes) :
    findCRLF (line ++ crlf ++ rest) = some line.length := by
  rw [List.append_assoc]
  exact findPair_append (by decide) h rest

theorem exists_of_findCRLF {buf : Bytes} {k : Nat} (h : findCRLF buf = some k) :
    ∃ line rest, buf = line ++ crlf ++ rest ∧ IsLine line ∧ line.length = k := by
  obtain ⟨line, rest, hbuf, hlen, -⟩ := findPair_some CR LF h
  have hline : buf.take k = line := by
    rw [hbuf]
    exact List.take_left' hlen
  refine ⟨line, rest, ?_, ?_, hlen⟩
  · rw [hbuf, List.append_assoc]
    rfl
  · rw [IsLine, ← hline]
    exact findPair_take CR LF h

theorem take_line (line rest : Bytes) : (line ++ crlf ++ rest).take line.length = line := by
  rw [List.append_assoc, List.take_left]

theorem drop_line (line rest : Bytes) : (line ++ crlf ++ rest).drop (line.length + 2) = rest := by
  rw [List.append_assoc, ← List.drop_drop, List.drop_left]
  rfl

theorem length_line_append (line rest : Bytes) :
    (line ++ crlf ++ rest).length = line.length + 2 + rest.length := by
  rw [List.length_append, List.length_append]
  rfl

/-! ## Request lines -/

def methodNames : List Bytes :=
  [ascii "GET", ascii "POST", ascii "HEAD", ascii "PUT", ascii "DELETE"]

/-- `METHOD SP TARGET SP VERSION`. -/
inductive RequestLine : Bytes → Prop where
  | mk {method target version : Bytes} (hmethod : method ∈ methodNames)
      (htarget : space ∉ target)
      (hversion : version = ascii "HTTP/1.0" ∨ version = ascii "HTTP/1.1") :
      RequestLine (method ++ space :: (target ++ space :: version))

theorem mem_methodNames_iff {m : Bytes} : m ∈ methodNames ↔ Method.ofName m ≠ .kInvalid := by
  constructor
  · intro h
    have hall : ∀ name ∈ methodNames, Method.ofName name ≠ .kInvalid := by decide
    exact hall m h
  · intro h
    rw [Method.ofName] at h
    simp only [methodNames, List.mem_cons, List.not_mem_nil, or_false]
    by_contra hno
    simp only [not_or] at hno
    obtain ⟨h₁, h₂, h₃, h₄, h₅⟩ := hno
    rw [if_neg h₁, if_neg h₂, if_neg h₃, if_neg h₄, if_neg h₅] at h
    exact h rfl

theorem space_notMem_method {m : Bytes} (h : m ∈ methodNames) : space ∉ m := by
  have hall : ∀ name ∈ methodNames, space ∉ name := by decide
  exact hall m h

/-- What `processRequestLine` does with a line that falls into three. -/
theorem processRequestLine_append {method target version : Bytes} (hmethod : space ∉ method)
    (htarget : space ∉ target) (r : HttpRequest) :
    processRequestLine (method ++ space :: (target ++ space :: version)) r =
      if Method.ofName method = .kInvalid then (false, (r.setMethod method).2)
      else setVersionOf version (setTarget target (r.setMethod method).2) := by
  have hlen : method.length ≠ (method ++ space :: (target ++ space :: version)).length := by
    rw [List.length_append, List.length_cons]
    omega
  have hlen' : target.length ≠ (target ++ space :: version).length := by
    rw [List.length_append, List.length_cons]
    omega
  rw [processRequestLine]
  simp only [find_append hmethod, find_append htarget, take_append_cons, drop_append_cons,
    if_neg hlen, if_neg hlen']
  by_cases hknown : Method.ofName method = .kInvalid
  · have hno : (r.setMethod method).1 = false := by
      rw [HttpRequest.setMethod, hknown]
      rfl
    rw [if_pos hknown, hno]
    rfl
  · have hyes : (r.setMethod method).1 = true := by
      rw [HttpRequest.setMethod]
      exact bne_iff_ne.mpr hknown
    rw [if_neg hknown, hyes]
    rfl

theorem setVersionOf_ok_iff (version : Bytes) (r : HttpRequest) :
    (setVersionOf version r).1 = true ↔
      version = ascii "HTTP/1.0" ∨ version = ascii "HTTP/1.1" := by
  constructor
  · intro h
    rw [setVersionOf] at h
    split_ifs at h with hshape hone hzero
    · obtain ⟨-, htake⟩ := Bool.and_eq_true_iff.mp hshape
      rw [← List.take_append_drop 7 version, of_decide_eq_true htake, hone]
      exact .inr rfl
    · obtain ⟨-, htake⟩ := Bool.and_eq_true_iff.mp hshape
      rw [← List.take_append_drop 7 version, of_decide_eq_true htake, hzero]
      exact .inl rfl
  · rintro (rfl | rfl) <;> rfl

/-- The request lines are the lines that are accepted. -/
theorem processRequestLine_ok_iff (line : Bytes) (r : HttpRequest) :
    (processRequestLine line r).1 = true ↔ RequestLine line := by
  constructor
  · intro h
    have hsp : find space line ≠ line.length := by
      intro heq
      rw [processRequestLine, if_pos heq] at h
      exact absurd h Bool.false_ne_true
    obtain ⟨method, rest, rfl, hmethod⟩ := exists_of_find_ne hsp
    have hsp' : find space rest ≠ rest.length := by
      intro heq
      rw [processRequestLine] at h
      simp only [find_append hmethod, drop_append_cons, heq] at h
      split_ifs at h
    obtain ⟨target, version, rfl, htarget⟩ := exists_of_find_ne hsp'
    rw [processRequestLine_append hmethod htarget] at h
    split_ifs at h with hknown
    exact .mk (mem_methodNames_iff.mpr hknown) htarget ((setVersionOf_ok_iff ..).mp h)
  · rintro ⟨hmethod, htarget, hversion⟩
    rw [processRequestLine_append (space_notMem_method hmethod) htarget,
      if_neg (mem_methodNames_iff.mp hmethod)]
    exact (setVersionOf_ok_iff ..).mpr hversion

/-! ## Header lines -/

/-- Header lines with a colon, then a line `last` without one, then `tail`. -/
inductive HeadersEnd : Bytes → List Bytes → Bytes → Bytes → Prop where
  | stop {last : Bytes} (hline : IsLine last) (hcolon : colon ∉ last) (tail : Bytes) :
      HeadersEnd (last ++ crlf ++ tail) [] last tail
  | header {line : Bytes} (hline : IsLine line) (hcolon : colon ∈ line) {body : Bytes}
      {headers : List Bytes} {last tail : Bytes} (hrest : HeadersEnd body headers last tail) :
      HeadersEnd (line ++ crlf ++ body) (line :: headers) last tail

theorem line_inj {line line' rest rest' : Bytes} (hline : IsLine line) (hline' : IsLine line')
    (h : line ++ crlf ++ rest = line' ++ crlf ++ rest') : line = line' ∧ rest = rest' := by
  have hlen : line.length = line'.length := by
    have hfind := findCRLF_append hline rest
    rw [h, findCRLF_append hline' rest'] at hfind
    exact (Option.some.inj hfind).symm
  rw [List.append_assoc, List.append_assoc] at h
  obtain ⟨hl, hr⟩ := List.append_inj h hlen
  exact ⟨hl, List.append_cancel_left hr⟩

/-- A body falls into lines in one way only. -/
theorem HeadersEnd.unique {body : Bytes} {headers headers' : List Bytes}
    {last last' tail tail' : Bytes} (h : HeadersEnd body headers last tail)
    (h' : HeadersEnd body headers' last' tail') :
    headers = headers' ∧ last = last' ∧ tail = tail' := by
  induction h generalizing headers' with
  | stop hline hcolon tail =>
    generalize hbody : _ ++ crlf ++ tail = body at h'
    cases h' with
    | stop hline' hcolon' tail' =>
      obtain ⟨hl, ht⟩ := line_inj hline hline' hbody
      exact ⟨rfl, hl, ht⟩
    | header hline' hcolon' hrest =>
      obtain ⟨rfl, -⟩ := line_inj hline hline' hbody
      exact absurd hcolon' hcolon
  | header hline hcolon hrest ih =>
    generalize hbody : _ ++ crlf ++ _ = body at h'
    cases h' with
    | stop hline' hcolon' tail' =>
      obtain ⟨rfl, -⟩ := line_inj hline hline' hbody
      exact absurd hcolon hcolon'
    | header hline' hcolon' hrest' =>
      obtain ⟨rfl, rfl⟩ := line_inj hline hline' hbody
      obtain ⟨rfl, rfl, rfl⟩ := ih hrest'
      exact ⟨rfl, rfl, rfl⟩

theorem HeadersEnd.findCRLF_ne {body : Bytes} {headers : List Bytes} {last tail : Bytes}
    (h : HeadersEnd body headers last tail) : findCRLF body ≠ none := by
  cases h with
  | stop hline hcolon tail =>
    rw [findCRLF_append hline]
    exact Option.some_ne_none _
  | header hline hcolon hrest =>
    rw [findCRLF_append hline]
    exact Option.some_ne_none _

/-- What follows a line with a colon ends as the whole does. -/
theorem HeadersEnd.tail_of_colon {line rest : Bytes} (hline : IsLine line) (hcolon : colon ∈ line)
    {headers : List Bytes} {last tail : Bytes}
    (h : HeadersEnd (line ++ crlf ++ rest) headers last tail) :
    ∃ headers', HeadersEnd rest headers' last tail := by
  generalize hbody : line ++ crlf ++ rest = body at h
  cases h with
  | stop hline' hcolon' tail =>
    obtain ⟨rfl, -⟩ := line_inj hline hline' hbody
    exact absurd hcolon hcolon'
  | header hline' hcolon' hrest =>
    obtain ⟨-, rfl⟩ := line_inj hline hline' hbody
    exact ⟨_, hrest⟩

/-- What a header line does to a request. -/
def addHeaderLine (r : HttpRequest) (line : Bytes) : HttpRequest :=
  r.addHeader line (find colon line)

namespace HttpContext

/-- The loop, from the state in which it expects headers. -/
theorem parseLoop_headers (receiveTime : Timestamp) (fuel : Nat) (r : HttpRequest) (body : Bytes)
    (hfuel : body.length < fuel) :
    (∃ headers last tail, HeadersEnd body headers last tail ∧
      parseLoop receiveTime fuel ⟨.kExpectHeaders, r⟩ body =
        some (true, ⟨.kGotAll, headers.foldl addHeaderLine r⟩, tail)) ∨
    (∀ headers last tail, ¬ HeadersEnd body headers last tail) ∧
      ∃ ctx rest, parseLoop receiveTime fuel ⟨.kExpectHeaders, r⟩ body = some (true, ctx, rest) ∧
        ctx.gotAll = false := by
  induction fuel generalizing r body with
  | zero => exact absurd hfuel (Nat.not_lt_zero _)
  | succ fuel ih =>
    rw [parseLoop]
    cases hfind : findCRLF body with
    | none =>
      exact .inr ⟨fun headers last tail h => h.findCRLF_ne hfind, ⟨.kExpectHeaders, r⟩, body,
        rfl, rfl⟩
    | some k =>
      obtain ⟨line, rest, rfl, hline, rfl⟩ := exists_of_findCRLF hfind
      dsimp only
      rw [take_line, drop_line]
      by_cases hcolon : colon ∈ line
      · rw [if_pos (find_ne_length_iff.mpr hcolon)]
        have hshort : rest.length < fuel := by
          rw [length_line_append] at hfuel
          omega
        rcases ih (addHeaderLine r line) rest hshort with
          ⟨headers, last, tail, hend, hloop⟩ | ⟨hno, ctx, rest', hloop, hnot⟩
        · exact .inl ⟨line :: headers, last, tail, .header hline hcolon hend, hloop⟩
        · refine .inr ⟨fun headers last tail h => ?_, ctx, rest', hloop, hnot⟩
          obtain ⟨headers', hrest⟩ := h.tail_of_colon hline hcolon
          exact hno _ _ _ hrest
      · rw [if_neg (not_not.mpr (find_of_notMem hcolon))]
        exact .inl ⟨[], line, rest, .stop hline hcolon rest, rfl⟩

end HttpContext

/-! ## Requests -/

/-- A request line, header lines with a colon, a line without one, and `tail`. -/
inductive RequestEnd : Bytes → Bytes → List Bytes → Bytes → Bytes → Prop where
  | mk {line : Bytes} (hline : IsLine line) (hrequest : RequestLine line) {body : Bytes}
      {headers : List Bytes} {last tail : Bytes} (hend : HeadersEnd body headers last tail) :
      RequestEnd (line ++ crlf ++ body) line headers last tail

theorem RequestEnd.unique {buf line line' : Bytes} {headers headers' : List Bytes}
    {last last' tail tail' : Bytes} (h : RequestEnd buf line headers last tail)
    (h' : RequestEnd buf line' headers' last' tail') :
    line = line' ∧ headers = headers' ∧ last = last' ∧ tail = tail' := by
  obtain ⟨hline, -, hend⟩ := h
  generalize hbuf : line ++ crlf ++ _ = buf at h'
  obtain ⟨hline', -, hend'⟩ := h'
  obtain ⟨rfl, rfl⟩ := line_inj hline hline' hbuf
  exact ⟨rfl, hend.unique hend'⟩

theorem RequestEnd.of_line {line body line' : Bytes} {headers : List Bytes} {last tail : Bytes}
    (hline : IsLine line) (h : RequestEnd (line ++ crlf ++ body) line' headers last tail) :
    RequestLine line ∧ HeadersEnd body headers last tail := by
  generalize hbuf : line ++ crlf ++ body = buf at h
  obtain ⟨hline', hrequest, hend⟩ := h
  obtain ⟨rfl, rfl⟩ := line_inj hline hline' hbuf
  exact ⟨hrequest, hend⟩

namespace HttpContext

/-- A fresh context gets a request exactly from the buffers that begin with one. -/
theorem parseRequest_fresh (receiveTime : Timestamp) (buf : Bytes) :
    (∃ line headers last tail, RequestEnd buf line headers last tail ∧
      parseRequest receiveTime {} buf = some (true, ⟨.kGotAll, headers.foldl addHeaderLine
        ((processRequestLine line {}).2.setReceiveTime receiveTime)⟩, tail)) ∨
    (∀ line headers last tail, ¬ RequestEnd buf line headers last tail) ∧
      ∃ ok ctx rest, parseRequest receiveTime {} buf = some (ok, ctx, rest) ∧
        ctx.gotAll = false := by
  rw [parseRequest, parseLoop]
  cases hfind : findCRLF buf with
  | none =>
    refine .inr ⟨fun line headers last tail h => ?_, true, {}, buf, rfl, rfl⟩
    obtain ⟨hline, -, -⟩ := h
    rw [findCRLF_append hline] at hfind
    exact absurd hfind (Option.some_ne_none _)
  | some k =>
    obtain ⟨line, body, rfl, hline, rfl⟩ := exists_of_findCRLF hfind
    dsimp only
    rw [take_line, drop_line]
    by_cases hrequest : RequestLine line
    · have hok := (processRequestLine_ok_iff line {}).mpr hrequest
      have hshort : body.length < (line ++ crlf ++ body).length := by
        rw [length_line_append]
        omega
      rw [if_pos hok]
      rcases parseLoop_headers receiveTime _
          ((processRequestLine line {}).2.setReceiveTime receiveTime) body hshort with
        ⟨headers, last, tail, hend, hloop⟩ | ⟨hno, ctx, rest, hloop, hnot⟩
      · exact .inl ⟨line, headers, last, tail, .mk hline hrequest hend, hloop⟩
      · exact .inr ⟨fun line' headers last tail h => hno _ _ _ (h.of_line hline).2, true, ctx,
          rest, hloop, hnot⟩
    · have hbad := (processRequestLine_ok_iff line {}).not.mpr hrequest
      rw [if_neg hbad]
      exact .inr ⟨fun line' headers last tail h => hrequest (h.of_line hline).1, _, _, _, rfl,
        rfl⟩

end HttpContext

/-- The text of a request whose headers end with the line `last`. -/
def requestText (line : Bytes) (headers : List Bytes) (last : Bytes) : Bytes :=
  line ++ crlf ++ headers.flatMap (· ++ crlf) ++ last ++ crlf

/-- A request line, and headers with a colon. -/
structure WellFormed (line : Bytes) (headers : List Bytes) : Prop where
  isLine : IsLine line
  requestLine : RequestLine line
  headers : ∀ header ∈ headers, IsLine header ∧ colon ∈ header

theorem headersEnd_of_text {headers : List Bytes}
    (h : ∀ header ∈ headers, IsLine header ∧ colon ∈ header) {last : Bytes}
    (hline : IsLine last) (hcolon : colon ∉ last) (tail : Bytes) :
    HeadersEnd (headers.flatMap (· ++ crlf) ++ (last ++ crlf ++ tail)) headers last tail := by
  induction headers with
  | nil => exact .stop hline hcolon tail
  | cons header headers ih =>
    obtain ⟨⟨hheader, hmem⟩, hrest⟩ := List.forall_mem_cons.mp h
    rw [List.flatMap_cons, List.append_assoc]
    exact .header hheader hmem (ih hrest)

theorem text_of_headersEnd {body : Bytes} {headers : List Bytes} {last tail : Bytes}
    (h : HeadersEnd body headers last tail) :
    (∀ header ∈ headers, IsLine header ∧ colon ∈ header) ∧ IsLine last ∧ colon ∉ last ∧
      body = headers.flatMap (· ++ crlf) ++ (last ++ crlf ++ tail) := by
  induction h with
  | stop hline hcolon tail => exact ⟨List.forall_mem_nil _, hline, hcolon, rfl⟩
  | header hline hcolon hrest ih =>
    obtain ⟨hheaders, hlast, hnone, rfl⟩ := ih
    exact ⟨List.forall_mem_cons.mpr ⟨⟨hline, hcolon⟩, hheaders⟩, hlast, hnone,
      by simp only [List.flatMap_cons, List.append_assoc]⟩

theorem requestEnd_iff {buf line : Bytes} {headers : List Bytes} {last tail : Bytes} :
    RequestEnd buf line headers last tail ↔ WellFormed line headers ∧ IsLine last ∧ colon ∉ last ∧
      buf = requestText line headers last ++ tail := by
  constructor
  · rintro ⟨hline, hrequest, hend⟩
    obtain ⟨hheaders, hlast, hnone, rfl⟩ := text_of_headersEnd hend
    refine ⟨⟨hline, hrequest, hheaders⟩, hlast, hnone, ?_⟩
    simp only [requestText, List.append_assoc]
  · rintro ⟨⟨hline, hrequest, hheaders⟩, hlast, hnone, rfl⟩
    have htext : requestText line headers last ++ tail =
        line ++ crlf ++ (headers.flatMap (· ++ crlf) ++ (last ++ crlf ++ tail)) := by
      simp only [requestText, List.append_assoc]
    rw [htext]
    exact .mk hline hrequest (headersEnd_of_text hheaders hlast hnone tail)

/-- A request of the grammar: the line after the headers is empty. -/
def IsRequest (own : Bytes) : Prop :=
  ∃ line headers, WellFormed line headers ∧ own = requestText line headers []

/-- The parser accepts `buf` exactly if it begins with a request, and takes this request. -/
def FollowsGrammar (buf : Bytes) : Prop :=
  ∀ receiveTime, ∃ ok ctx rest, HttpContext.parseRequest receiveTime {} buf = some (ok, ctx, rest) ∧
    (ok = true ∧ ctx.gotAll = true ↔ ∃ own tail, IsRequest own ∧ buf = own ++ tail) ∧
      (ok = true ∧ ctx.gotAll = true → ∃ own, IsRequest own ∧ buf = own ++ rest)

/-- The headers of the request in `buf` are cut short by a line that is not empty and has no
colon. -/
def CutShort (buf : Bytes) : Prop :=
  ∃ line headers last tail, WellFormed line headers ∧ IsLine last ∧ colon ∉ last ∧ last ≠ [] ∧
    buf = requestText line headers last ++ tail

/-- The line without a colon is taken for the empty one. -/
theorem not_followsGrammar_of_cutShort {buf : Bytes} (hcut : CutShort buf) :
    ¬ FollowsGrammar buf := by
  intro h
  obtain ⟨line, headers, last, tail, hwell, hlast, hnone, hne, hbuf⟩ := hcut
  have hend := requestEnd_iff.mpr ⟨hwell, hlast, hnone, hbuf⟩
  obtain ⟨ok, ctx, rest, hparse, -, htaken⟩ := h 0
  rcases HttpContext.parseRequest_fresh 0 buf with
    ⟨line', headers', last', tail', hend', hparse'⟩ | ⟨hno, -⟩
  · obtain ⟨-, -, rfl, rfl⟩ := hend.unique hend'
    cases hparse'.symm.trans hparse
    obtain ⟨own, ⟨line₀, headers₀, hwell₀, rfl⟩, hown⟩ := htaken ⟨rfl, rfl⟩
    have hend₀ := requestEnd_iff.mpr ⟨hwell₀, (rfl : IsLine []), List.not_mem_nil, hown⟩
    exact hne (hend.unique hend₀).2.2.1
  · exact hno _ _ _ _ hend

/-- The parser follows the grammar on every buffer but those cut short. -/
theorem followsGrammar_iff (buf : Bytes) : FollowsGrammar buf ↔ ¬ CutShort buf := by
  constructor
  · exact fun h hcut => not_followsGrammar_of_cutShort hcut h
  · intro hnot receiveTime
    rcases HttpContext.parseRequest_fresh receiveTime buf with
      ⟨line, headers, last, tail, hend, hparse⟩ | ⟨hno, ok, ctx, rest, hparse, hgot⟩
    · obtain ⟨hwell, hlast, hnone, hbuf⟩ := requestEnd_iff.mp hend
      have hempty : last = [] := by
        by_contra hne
        exact hnot ⟨line, headers, last, tail, hwell, hlast, hnone, hne, hbuf⟩
      subst hempty
      have hown : ∃ own, IsRequest own ∧ buf = own ++ tail := ⟨_, ⟨line, headers, hwell, rfl⟩, hbuf⟩
      refine ⟨true, _, tail, hparse, iff_of_true ⟨rfl, rfl⟩ ?_, fun _ => hown⟩
      obtain ⟨own, hrequest, heq⟩ := hown
      exact ⟨own, tail, hrequest, heq⟩
    · refine ⟨ok, ctx, rest, hparse, iff_of_false ?_ ?_, fun h => ?_⟩
      · rintro ⟨-, h⟩
        exact Bool.false_ne_true (hgot.symm.trans h)
      · rintro ⟨own, tail, ⟨line, headers, hwell, rfl⟩, hbuf⟩
        exact hno _ _ _ _ (requestEnd_iff.mpr ⟨hwell, (rfl : IsLine []), List.not_mem_nil, hbuf⟩)
      · exact absurd (hgot.symm.trans h.2) Bool.false_ne_true

theorem followsGrammar_fails_noColon : ¬ ∀ buf, FollowsGrammar buf := by
  intro h
  have hmethod : ascii "GET" ∈ methodNames := by decide
  have htarget : space ∉ ascii "/" := by decide
  have hcut : CutShort (ascii "GET / HTTP/1.1\r\nHost\r\n") :=
    ⟨ascii "GET / HTTP/1.1", [], ascii "Host", [],
      ⟨by decide, .mk hmethod htarget (.inr rfl), List.forall_mem_nil _⟩,
      by decide, by decide, by decide, by decide⟩
  exact not_followsGrammar_of_cutShort hcut (h _)

end Cnet.Net.Http
