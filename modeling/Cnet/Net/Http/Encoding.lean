import Mathlib.Data.List.TakeWhile
import Cnet.Net.Http.HttpServer
import Cnet.Net.Http.Grammar

/-!
# Encoding requests

`appendToBuffer` writes the request line through a buffer of 256 bytes and leaves the
query out. What it writes is parsed back exactly if there is no query, the line fits and no
header is too long for a `StringPiece`.
-/

namespace Cnet.Net.Http

open Cnet.Support
open Cnet.Base

/-- A test of the bytes one after the other. -/
theorem forall_mem_of_all {l : Bytes} {p : Byte → Prop} [DecidablePred p]
    (h : l.all (fun b => decide (p b)) = true) : ∀ b ∈ l, p b :=
  fun b hb => of_decide_eq_true (List.all_eq_true.mp h b hb)

/-- What a pointer to the characters of `s` is read back as: they end at a zero. -/
def cString (s : Bytes) : Bytes := s.takeWhile (· ≠ 0)

namespace HttpRequest

def methodString (r : HttpRequest) : Bytes :=
  match r.method_ with
  | .kGet => ascii "GET"
  | .kPost => ascii "POST"
  | .kHead => ascii "HEAD"
  | .kPut => ascii "PUT"
  | .kDelete => ascii "DELETE"
  | .kInvalid => ascii "UNKNOWN"

/-- The text that goes through `uri`. -/
def lineText (r : HttpRequest) : Bytes :=
  r.methodString ++ ascii " " ++ cString r.uri_.path_ ++ ascii " HTTP/1.1"

/-- The strings that `appendToBuffer` appends, in order. -/
def strings (r : HttpRequest) : List Bytes :=
  [cString (snprintf 256 r.lineText), ascii "\r\n"] ++
    r.headers_.flatMap (fun (key, value) => [key ++ ascii ": " ++ value, ascii "\r\n"]) ++
      [ascii "\r\n"]

/-- `appendToBuffer(output)`: every `append` is one of a `StringPiece`. -/
def appendToBuffer (r : HttpRequest) (output : Buffer) : Option Buffer :=
  output.appendStrings r.strings

/-- The bytes that `appendToBuffer` appends, where every `append` comes to its end. -/
def output (r : HttpRequest) : Option Bytes := appended r.strings

/-- On a buffer with room for it, `appendToBuffer` puts the output behind what is there. -/
theorem appendToBuffer_spec {r : HttpRequest} {b : Buffer} {out : Bytes} (h : b.Indexed)
    (hout : r.output = some out)
    (hfit : b.writerIndex_ + out.length + Buffer.kCheapPrepend < wordSize) :
    ∃ b', r.appendToBuffer b = some b' ∧ b'.readable = b.readable ++ out :=
  Buffer.appendStrings_spec h hout hfit

end HttpRequest

/-- The requests that the round trip is about. -/
structure Encodable (r : HttpRequest) : Prop where
  method : r.method_ ≠ .kInvalid
  path_slash : r.uri_.path_.head? = some 47
  path : ∀ b ∈ r.uri_.path_, b ≠ space ∧ b ≠ question ∧ b ≠ CR ∧ b ≠ LF ∧ b ≠ 0
  query : r.uri_.query_ = [] ∨ r.uri_.query_.head? = some question
  query_bytes : ∀ b ∈ r.uri_.query_, b ≠ space ∧ b ≠ CR ∧ b ≠ LF ∧ b ≠ 0
  /-- `headers_` is a `std::map`: its keys are in order. -/
  sorted : r.headers_.Pairwise fun entry entry' => entry.1 < entry'.1
  name : ∀ entry ∈ r.headers_, entry.1 ≠ [] ∧ ∀ b ∈ entry.1, b ≠ colon ∧ b ≠ CR ∧ b ≠ LF
  value : ∀ entry ∈ r.headers_, (∀ b ∈ entry.2, b ≠ CR ∧ b ≠ LF) ∧
    (∀ b ∈ entry.2.head?, isspace b = false) ∧ ∀ b ∈ entry.2.getLast?, isspace b = false

/-- A fresh parser takes all that is written, and gets the request back. -/
def RoundTrips (r : HttpRequest) : Prop :=
  ∃ out, r.output = some out ∧ ∀ receiveTime, ∃ ctx,
    HttpContext.parseRequest receiveTime {} out = some (true, ctx, []) ∧ ctx.gotAll = true ∧
      ctx.request_.method_ = r.method_ ∧ ctx.request_.uri_.path_ = r.uri_.path_ ∧
        ctx.request_.uri_.query_ = r.uri_.query_ ∧ ctx.request_.headers_ = r.headers_

/-! ## Headers -/

theorem assign_last {m : StringMap} {key : Bytes} (h : ∀ entry ∈ m, entry.1 < key) (value : Bytes) :
    m.assign key value = m ++ [(key, value)] := by
  induction m with
  | nil => rfl
  | cons entry m ih =>
    obtain ⟨hentry, hrest⟩ := List.forall_mem_cons.mp h
    have hne : key ≠ entry.1 := fun heq => List.lt_irrefl key (heq ▸ hentry)
    rw [StringMap.assign, if_neg (List.lt_asymm hentry), if_neg hne, ih hrest]
    rfl

/-- The line of a header. -/
def headerLine (entry : Bytes × Bytes) : Bytes := entry.1 ++ ascii ": " ++ entry.2

theorem isLine_of_notMem {line : Bytes} (h : CR ∉ line) : IsLine line := by
  rw [IsLine]
  cases hfind : findCRLF line with
  | none => rfl
  | some k =>
    obtain ⟨front, rest, hline, -⟩ := findPair_some CR LF hfind
    rw [hline] at h
    exact absurd (List.mem_append_right _ List.mem_cons_self) h

theorem dropWhile_isspace {value : Bytes} (h : ∀ b ∈ value.head?, isspace b = false) :
    value.dropWhile isspace = value := by
  cases value with
  | nil => rfl
  | cons b value => exact List.dropWhile_cons_of_neg (Bool.not_eq_true _ ▸ h b rfl)

/-- The name and the value that a line is read as. -/
def headerOf (line : Bytes) : Bytes × Bytes :=
  (line.take (find colon line),
    ((((line.drop (find colon line + 1)).dropWhile isspace).reverse).dropWhile isspace).reverse)

theorem addHeaderLine_eq (r : HttpRequest) (line : Bytes) : addHeaderLine r line =
    { r with headers_ := r.headers_.assign (headerOf line).1 (headerOf line).2 } := rfl

theorem headerOf_headerLine {entry : Bytes × Bytes} (hname : colon ∉ entry.1)
    (hhead : ∀ b ∈ entry.2.head?, isspace b = false)
    (hlast : ∀ b ∈ entry.2.getLast?, isspace b = false) : headerOf (headerLine entry) = entry := by
  have hline : headerLine entry = entry.1 ++ colon :: (space :: entry.2) := by
    rw [headerLine, List.append_assoc]
    rfl
  have hspace : (space :: entry.2).dropWhile isspace = entry.2 :=
    (List.dropWhile_cons_of_pos rfl).trans (dropWhile_isspace hhead)
  have hreverse : entry.2.reverse.dropWhile isspace = entry.2.reverse :=
    dropWhile_isspace (by rwa [List.head?_reverse])
  rw [headerOf, hline, find_append hname, take_append_cons, drop_append_cons, hspace, hreverse,
    List.reverse_reverse]

/-- A line has a colon besides what it is read as. -/
theorem length_headerOf {line : Bytes} (h : colon ∈ line) :
    (headerOf line).1.length + (headerOf line).2.length + 1 ≤ line.length := by
  obtain ⟨front, rest, rfl, hfront⟩ := exists_of_find_ne (find_ne_length_iff.mpr h)
  have htrim : ∀ l : Bytes, (l.dropWhile isspace).length ≤ l.length :=
    fun l => (List.dropWhile_suffix _).length_le
  have hleft := htrim rest
  have hright := htrim (rest.dropWhile isspace).reverse
  rw [List.length_reverse] at hright
  rw [headerOf, find_append hfront, take_append_cons, drop_append_cons, List.length_append,
    List.length_cons]
  dsimp only
  rw [List.length_reverse]
  omega

/-- A line that is cut off behind the colon still has its name. -/
theorem headerOf_fst_of_prefix {entry : Bytes × Bytes} {line : Bytes} (hname : colon ∉ entry.1)
    (hcolon : colon ∈ line) (hline : line <+: headerLine entry) :
    (headerOf line).1 = entry.1 := by
  have hwhole : headerLine entry = entry.1 ++ ([colon] ++ (space :: entry.2)) := by
    rw [headerLine, List.append_assoc]
    rfl
  rw [hwhole] at hline
  rcases List.prefix_or_prefix_of_prefix hline (List.prefix_append _ _) with hshort | ⟨rest, rfl⟩
  · exact absurd (hshort.subset hcolon) hname
  · cases rest with
    | nil => exact absurd (by rwa [List.append_nil] at hcolon) hname
    | cons b rest =>
      obtain ⟨tail, htail⟩ := hline
      rw [List.append_assoc] at htail
      obtain rfl : b = colon := (List.cons.inj (List.append_cancel_left htail)).1
      rw [headerOf, find_append hname, take_append_cons]

/-- Lines in the order of their names are put at the end one after the other. -/
theorem foldl_addHeaderLine (lines : List Bytes) (r : HttpRequest)
    (hsorted : (r.headers_ ++ lines.map headerOf).Pairwise
      fun entry entry' => entry.1 < entry'.1) :
    lines.foldl addHeaderLine r = { r with headers_ := r.headers_ ++ lines.map headerOf } := by
  induction lines generalizing r with
  | nil => rw [List.map_nil, List.append_nil]; rfl
  | cons line lines ih =>
    have hbefore : ∀ entry ∈ r.headers_, entry.1 < (headerOf line).1 := fun entry hmem =>
      (List.pairwise_append.mp hsorted).2.2 entry hmem _ List.mem_cons_self
    rw [List.map_cons, List.append_cons] at hsorted
    rw [List.foldl_cons, addHeaderLine_eq, assign_last hbefore, ih _ hsorted]
    dsimp only
    rw [List.map_cons, List.append_assoc, List.singleton_append]

/-- The lines before an empty one at the end are all headers, if nothing is to be left. -/
theorem headers_of_headersEnd {lines headers : List Bytes} {last : Bytes}
    (hlines : ∀ line ∈ lines, IsLine line)
    (h : HeadersEnd (lines.flatMap (· ++ crlf) ++ crlf) headers last []) :
    headers = lines ∧ ∀ line ∈ lines, colon ∈ line := by
  induction lines generalizing headers with
  | nil =>
    have hempty : IsLine [] := rfl
    exact ⟨(h.unique (.stop hempty List.not_mem_nil [])).1, List.forall_mem_nil _⟩
  | cons line lines ih =>
    obtain ⟨hline, hrest⟩ := List.forall_mem_cons.mp hlines
    rw [List.flatMap_cons, List.append_assoc] at h
    generalize hbody : line ++ crlf ++ (lines.flatMap (· ++ crlf) ++ crlf) = body at h
    cases h with
    | stop hline' _ tail =>
      obtain ⟨-, hnil⟩ := line_inj hline hline' hbody
      exact absurd hnil (List.append_ne_nil_of_right_ne_nil _ (List.cons_ne_nil _ _))
    | header hline' hcolon hend =>
      obtain ⟨rfl, rfl⟩ := line_inj hline hline' hbody
      obtain ⟨rfl, hall⟩ := ih hrest hend
      exact ⟨rfl, List.forall_mem_cons.mpr ⟨hcolon, hall⟩⟩

/-! ## Header lines in the buffer -/

/-- What is left of each header line. -/
def Copies (headers : StringMap) (copies : List Bytes) : Prop :=
  List.Forall₂ (fun entry copy => (StringPiece.ofString (headerLine entry)).bytes = some copy)
    headers copies

theorem passes_crlf : PassesInt (ascii "\r\n").length := by decide

theorem copies_of_appended {headers : StringMap} {out : Bytes}
    (h : appended (headers.flatMap (fun (key, value) => [key ++ ascii ": " ++ value,
      ascii "\r\n"]) ++ [ascii "\r\n"]) = some out) :
    ∃ copies, Copies headers copies ∧ out = copies.flatMap (· ++ crlf) ++ crlf := by
  induction headers generalizing out with
  | nil =>
    obtain ⟨rest, hrest, rfl⟩ := appended_cons_inv passes_crlf h
    obtain rfl : [] = rest := Option.some.inj hrest
    exact ⟨[], .nil, rfl⟩
  | cons entry headers ih =>
    rw [List.flatMap_cons, List.append_assoc, List.cons_append, appended_cons] at h
    obtain ⟨copy, hcopy, h⟩ := Option.bind_eq_some_iff.mp h
    obtain ⟨after, hafter, rfl⟩ := Option.map_eq_some_iff.mp h
    obtain ⟨rest, hrest, rfl⟩ := appended_cons_inv passes_crlf hafter
    obtain ⟨copies, hcopies, rfl⟩ := ih hrest
    refine ⟨copy :: copies, .cons hcopy hcopies, ?_⟩
    rw [List.flatMap_cons, List.append_assoc, List.append_assoc]
    rfl

section Copies

variable {headers : StringMap} {copies : List Bytes}

theorem Copies.prefix (h : Copies headers copies) {copy : Bytes} (hcopy : copy ∈ copies) :
    ∃ entry ∈ headers, copy <+: headerLine entry := by
  induction h with
  | nil => exact absurd hcopy List.not_mem_nil
  | cons hhead _ ih =>
    rcases List.mem_cons.mp hcopy with rfl | hmem
    · exact ⟨_, List.mem_cons_self, (StringPiece.prefix_of_bytes_ofString hhead).1⟩
    · obtain ⟨entry, hentry, hprefix⟩ := ih hmem
      exact ⟨entry, List.mem_cons_of_mem _ hentry, hprefix⟩

theorem Copies.names (h : Copies headers copies) (hname : ∀ entry ∈ headers, colon ∉ entry.1)
    (hcolon : ∀ copy ∈ copies, colon ∈ copy) :
    (copies.map headerOf).map Prod.fst = headers.map Prod.fst := by
  induction h with
  | nil => rfl
  | cons hhead _ ih =>
    obtain ⟨hentry, hrest⟩ := List.forall_mem_cons.mp hname
    obtain ⟨hcopy, hcopies⟩ := List.forall_mem_cons.mp hcolon
    rw [List.map_cons, List.map_cons, List.map_cons, ih hrest hcopies,
      headerOf_fst_of_prefix hentry hcopy (StringPiece.prefix_of_bytes_ofString hhead).1]

/-- Headers that are read back have lost nothing. -/
theorem Copies.passes (h : Copies headers copies) (hcolon : ∀ copy ∈ copies, colon ∈ copy)
    (hread : copies.map headerOf = headers) :
    ∀ entry ∈ headers, PassesInt (headerLine entry).length := by
  induction h with
  | nil => exact List.forall_mem_nil _
  | @cons entry copy headers copies hhead _ ih =>
    obtain ⟨hcopy, hcopies⟩ := List.forall_mem_cons.mp hcolon
    obtain ⟨hentry, hrest⟩ := List.cons.inj hread
    refine List.forall_mem_cons.mpr ⟨?_, ih hcopies hrest⟩
    have hlen := length_headerOf hcopy
    rw [hentry] at hlen
    have hwhole : (headerLine entry).length = entry.1.length + 2 + entry.2.length := by
      rw [headerLine, List.length_append, List.length_append]
      rfl
    obtain ⟨-, hcut⟩ := StringPiece.prefix_of_bytes_ofString hhead
    exact (StringPiece.length_of_bytes_ofString hhead).2 (by omega)

end Copies

/-! ## Request lines -/

namespace Encodable

variable {r : HttpRequest} (h : Encodable r)
include h

theorem methodString_mem :
    r.methodString ∈ methodNames ∧ Method.ofName r.methodString = r.method_ := by
  have hmethod := h.method
  rw [HttpRequest.methodString]
  cases hm : r.method_ with
  | kInvalid => exact absurd hm hmethod
  | kGet => decide
  | kPost => decide
  | kHead => decide
  | kPut => decide
  | kDelete => decide

/-- The text of the line, whole. -/
theorem lineText_eq : r.lineText =
    r.methodString ++ space :: (r.uri_.path_ ++ space :: ascii "HTTP/1.1") := by
  have hpath : cString r.uri_.path_ = r.uri_.path_ :=
    List.takeWhile_eq_self_iff.mpr fun b hb => decide_eq_true (h.path b hb).2.2.2.2
  rw [HttpRequest.lineText, hpath, List.append_assoc, List.append_assoc]
  rfl

theorem space_notMem_path : space ∉ r.uri_.path_ := fun hmem => (h.path space hmem).1 rfl

theorem lineText_bytes : ∀ b ∈ r.lineText, b ≠ CR ∧ b ≠ 0 := by
  have hmethod : ∀ b ∈ r.methodString, b ≠ CR ∧ b ≠ 0 := by
    have hall : ∀ name ∈ methodNames, name.all (fun b => decide (b ≠ CR ∧ b ≠ 0)) = true := by
      decide
    exact forall_mem_of_all (hall _ h.methodString_mem.1)
  rw [h.lineText_eq]
  intro b hb
  rcases List.mem_append.mp hb with hb | hb
  · exact hmethod b hb
  · rcases List.mem_cons.mp hb with rfl | hb
    · decide
    · rcases List.mem_append.mp hb with hb | hb
      · exact ⟨(h.path b hb).2.2.1, (h.path b hb).2.2.2.2⟩
      · have hall : ∀ b ∈ space :: ascii "HTTP/1.1", b ≠ CR ∧ b ≠ 0 := forall_mem_of_all rfl
        exact hall b hb

/-- The line that is written. -/
theorem cString_snprintf : cString (snprintf 256 r.lineText) = r.lineText.take 255 :=
  List.takeWhile_eq_self_iff.mpr fun b hb =>
    decide_eq_true (h.lineText_bytes b (List.mem_of_mem_take hb)).2

theorem isLine_take : IsLine (r.lineText.take 255) :=
  isLine_of_notMem fun hmem => (h.lineText_bytes CR (List.mem_of_mem_take hmem)).1 rfl

/-- A line that is cut off is not a request line. -/
theorem not_requestLine_take (hlong : 255 < r.lineText.length) :
    ¬ RequestLine (r.lineText.take 255) := by
  intro hline
  have hsplit := List.take_append_drop 255 r.lineText
  have hcut : 0 < (r.lineText.drop 255).length := by
    rw [List.length_drop]
    omega
  generalize r.lineText.take 255 = front at hline hsplit
  generalize r.lineText.drop 255 = cut at hcut hsplit
  obtain ⟨hmethod, htarget, hversion⟩ := hline
  rw [h.lineText_eq, List.append_assoc, List.cons_append] at hsplit
  obtain ⟨-, hrest⟩ := append_cons_inj (space_notMem_method hmethod)
    (space_notMem_method h.methodString_mem.1) hsplit
  rw [List.append_assoc, List.cons_append] at hrest
  obtain ⟨-, hend⟩ := append_cons_inj htarget h.space_notMem_path hrest
  have hlen := congrArg List.length hend
  rw [List.length_append] at hlen
  have hfull : (ascii "HTTP/1.1").length = 8 := rfl
  have hversionLen : ∀ {version : Bytes},
      version = ascii "HTTP/1.0" ∨ version = ascii "HTTP/1.1" → version.length = 8 := by
    rintro _ (rfl | rfl) <;> rfl
  rw [hversionLen hversion, hfull] at hlen
  omega

theorem requestLine_lineText : RequestLine r.lineText := by
  rw [h.lineText_eq]
  exact .mk h.methodString_mem.1 h.space_notMem_path (.inr rfl)

/-- What the line makes of a fresh request: there is no query in it. -/
theorem processRequestLine_lineText : (processRequestLine r.lineText {}).2 =
    { method_ := r.method_, version_ := .kHttp11, uri_ := { path_ := r.uri_.path_ } } := by
  have hquestion : question ∉ r.uri_.path_ := fun hmem => (h.path question hmem).2.1 rfl
  obtain ⟨hmem, hname⟩ := h.methodString_mem
  rw [h.lineText_eq, processRequestLine_append (space_notMem_method hmem) h.space_notMem_path,
    if_neg (mem_methodNames_iff.mp hmem), setTarget, find_of_notMem hquestion,
    if_neg (not_not.mpr rfl)]
  simp only [HttpRequest.setMethod, HttpRequest.setPath, hname]
  rfl

theorem colon_headers : ∀ entry ∈ r.headers_, colon ∉ entry.1 ∧
    (∀ b ∈ entry.2.head?, isspace b = false) ∧ ∀ b ∈ entry.2.getLast?, isspace b = false :=
  fun entry hentry => ⟨fun hmem => ((h.name entry hentry).2 colon hmem).1 rfl,
    (h.value entry hentry).2⟩

theorem cr_notMem_headerLine {entry : Bytes × Bytes} (hentry : entry ∈ r.headers_) :
    CR ∉ headerLine entry := by
  intro hmem
  rcases List.mem_append.mp hmem with hmem | hmem
  · rcases List.mem_append.mp hmem with hmem | hmem
    · exact ((h.name entry hentry).2 CR hmem).2.1 rfl
    · exact absurd hmem (by decide)
  · exact ((h.value entry hentry).1 CR hmem).1 rfl

theorem wellFormed_headers : ∀ line ∈ r.headers_.map headerLine, IsLine line ∧ colon ∈ line := by
  intro line hline
  obtain ⟨entry, hentry, rfl⟩ := List.mem_map.mp hline
  refine ⟨isLine_of_notMem (h.cr_notMem_headerLine hentry), ?_⟩
  exact List.mem_append_left _ (List.mem_append_right _ (by decide))

theorem passes_line : PassesInt (cString (snprintf 256 r.lineText)).length := by
  have hle : (r.lineText.take 255).length ≤ 255 := List.length_take_le _ _
  rw [h.cString_snprintf]
  exact passesInt_of_lt (by omega)

/-- What is written: the line, and what is left of each header. -/
theorem output_inv {out : Bytes} (hout : r.output = some out) :
    ∃ copies, Copies r.headers_ copies ∧
      out = requestText (r.lineText.take 255) copies [] := by
  rw [HttpRequest.output, HttpRequest.strings, List.append_assoc] at hout
  obtain ⟨after, hafter, rfl⟩ := appended_cons_inv h.passes_line hout
  obtain ⟨rest, hrest, rfl⟩ := appended_cons_inv passes_crlf hafter
  obtain ⟨copies, hcopies, rfl⟩ := copies_of_appended hrest
  refine ⟨copies, hcopies, ?_⟩
  rw [h.cString_snprintf, requestText, List.append_nil, List.append_assoc, List.append_assoc]
  rfl

/-- No header is too long. -/
theorem output_of_passes (hpasses : ∀ entry ∈ r.headers_, PassesInt (headerLine entry).length) :
    r.output = some (requestText (r.lineText.take 255) (r.headers_.map headerLine) []) := by
  have hall : ∀ s ∈ r.strings, PassesInt s.length := by
    rw [HttpRequest.strings, List.forall_mem_append, List.forall_mem_append]
    refine ⟨⟨?_, fun s hs => ?_⟩, List.forall_mem_singleton.mpr passes_crlf⟩
    · exact List.forall_mem_cons.mpr ⟨h.passes_line, List.forall_mem_singleton.mpr passes_crlf⟩
    · obtain ⟨entry, hentry, hs⟩ := List.mem_flatMap.mp hs
      rcases List.mem_cons.mp hs with rfl | hs
      · exact hpasses entry hentry
      · rw [List.mem_singleton.mp hs]
        exact passes_crlf
  have hheaders : (r.headers_.flatMap fun (key, value) => [key ++ ascii ": " ++ value,
      ascii "\r\n"]).flatten = (r.headers_.map headerLine).flatMap (· ++ crlf) := by
    rw [List.flatMap_map]
    induction r.headers_ with
    | nil => rfl
    | cons entry headers ih =>
      rw [List.flatMap_cons, List.flatMap_cons, List.flatten_append, ih]
      simp only [List.flatten_cons, List.flatten_nil, List.append_nil]
      rfl
  rw [HttpRequest.output, appended_of_passes hall, HttpRequest.strings, h.cString_snprintf,
    requestText, List.flatten_append, List.flatten_append, hheaders]
  simp only [List.flatten_cons, List.flatten_nil, List.append_nil]
  rfl

/-- What is written when the line fits. -/
theorem requestEnd (hfits : r.lineText.length ≤ 255) :
    RequestEnd (requestText (r.lineText.take 255) (r.headers_.map headerLine) []) r.lineText
      (r.headers_.map headerLine) [] [] := by
  have htake := List.take_of_length_le hfits
  refine requestEnd_iff.mpr ⟨⟨?_, h.requestLine_lineText, h.wellFormed_headers⟩, rfl,
    List.not_mem_nil, ?_⟩
  · exact htake ▸ h.isLine_take
  · rw [List.append_nil, htake]

/-- What a fresh parser makes of it. -/
theorem parseRequest_eq (hfits : r.lineText.length ≤ 255) (receiveTime : Timestamp) :
    HttpContext.parseRequest receiveTime {}
        (requestText (r.lineText.take 255) (r.headers_.map headerLine) []) = some (true,
      ⟨.kGotAll, { method_ := r.method_, version_ := .kHttp11, receiveTime_ := receiveTime
                   uri_ := { path_ := r.uri_.path_ }, headers_ := r.headers_ }⟩, []) := by
  have hend := h.requestEnd hfits
  rcases HttpContext.parseRequest_fresh receiveTime
      (requestText (r.lineText.take 255) (r.headers_.map headerLine) []) with
    ⟨line, headers, last, tail, hend', hparse⟩ | ⟨hno, -⟩
  · obtain ⟨rfl, rfl, rfl, rfl⟩ := hend.unique hend'
    let parsed : HttpRequest :=
      { method_ := r.method_, version_ := .kHttp11, receiveTime_ := receiveTime
        uri_ := { path_ := r.uri_.path_ } }
    have hread : (r.headers_.map headerLine).map headerOf = r.headers_ := by
      rw [List.map_map]
      refine List.map_congr_left (fun entry hentry => ?_) |>.trans (List.map_id _)
      obtain ⟨hname, hhead, hlast⟩ := h.colon_headers entry hentry
      exact headerOf_headerLine hname hhead hlast
    have hheaders := foldl_addHeaderLine (r.headers_.map headerLine) parsed
      (hread.symm ▸ h.sorted)
    rw [hread] at hheaders
    rw [hparse, h.processRequestLine_lineText]
    exact congrArg (fun q => some (true, HttpContext.mk .kGotAll q, [])) hheaders
  · exact absurd hend (hno _ _ _ _)

/-- A request that is parsed back with its headers had a line that fits, and no header that is
too long. -/
theorem fits_of_parseRequest {out : Bytes} (hout : r.output = some out) {receiveTime : Timestamp}
    {ctx : HttpContext}
    (hparse : HttpContext.parseRequest receiveTime {} out = some (true, ctx, []))
    (hgot : ctx.gotAll = true) (hsame : ctx.request_.headers_ = r.headers_) :
    r.lineText.length ≤ 255 ∧ ∀ entry ∈ r.headers_, PassesInt (headerLine entry).length := by
  obtain ⟨copies, hcopies, rfl⟩ := h.output_inv hout
  rcases HttpContext.parseRequest_fresh receiveTime
      (requestText (r.lineText.take 255) copies []) with
    ⟨line, headers, last, tail, hend, hparse'⟩ | ⟨-, ok, ctx', rest', hparse', hnot⟩
  · cases hparse'.symm.trans hparse
    have hbody : requestText (r.lineText.take 255) copies [] =
        r.lineText.take 255 ++ crlf ++ (copies.flatMap (· ++ crlf) ++ crlf) := by
      rw [requestText, List.append_nil, List.append_assoc]
    rw [hbody] at hend
    obtain ⟨hline, hheaders⟩ := hend.of_line h.isLine_take
    have hlines : ∀ copy ∈ copies, IsLine copy := fun copy hcopy => by
      obtain ⟨entry, hentry, hfront⟩ := hcopies.prefix hcopy
      exact isLine_of_notMem fun hmem => h.cr_notMem_headerLine hentry (hfront.subset hmem)
    obtain ⟨rfl, -⟩ := hend.unique (.mk h.isLine_take hline hheaders)
    obtain ⟨rfl, hcolon⟩ := headers_of_headersEnd hlines hheaders
    have hfits : r.lineText.length ≤ 255 := by
      by_contra hlong
      exact h.not_requestLine_take (not_le.mp hlong) hline
    refine ⟨hfits, hcopies.passes hcolon ?_⟩
    have hname := fun entry hentry => (h.colon_headers entry hentry).1
    have hsorted : (headers.map headerOf).Pairwise fun entry entry' => entry.1 < entry'.1 := by
      refine List.pairwise_map.mp ?_
      rw [hcopies.names hname hcolon]
      exact List.pairwise_map.mpr h.sorted
    rw [List.take_of_length_le hfits, h.processRequestLine_lineText] at hsame
    have hfold := foldl_addHeaderLine headers ({
      method_ := r.method_, version_ := .kHttp11, receiveTime_ := receiveTime
      uri_ := { path_ := r.uri_.path_ } } : HttpRequest) hsorted
    exact (congrArg HttpRequest.headers_ hfold).symm.trans hsame
  · cases hparse'.symm.trans hparse
    exact absurd (hnot.symm.trans hgot) Bool.false_ne_true

end Encodable

/-- A request comes back exactly if it has no query, its line fits into the buffer and each
of its headers into a `StringPiece`. -/
theorem roundTrips_iff {r : HttpRequest} (h : Encodable r) :
    RoundTrips r ↔ r.uri_.query_ = [] ∧
      r.methodString.length + 1 + r.uri_.path_.length + 9 ≤ 255 ∧
        ∀ entry ∈ r.headers_, PassesInt (entry.1.length + 2 + entry.2.length) := by
  have hlength : r.lineText.length = r.methodString.length + 1 + r.uri_.path_.length + 9 := by
    have hfull : (ascii "HTTP/1.1").length = 8 := rfl
    rw [h.lineText_eq, List.length_append, List.length_cons, List.length_append, List.length_cons,
      hfull]
    omega
  have hheader : ∀ entry : Bytes × Bytes,
      (headerLine entry).length = entry.1.length + 2 + entry.2.length := fun entry => by
    rw [headerLine, List.length_append, List.length_append]
    rfl
  rw [← hlength]
  simp only [← hheader]
  constructor
  · rintro ⟨out, hout, hround⟩
    obtain ⟨ctx, hparse, hgot, -, -, hquery, hheaders⟩ := hround 0
    obtain ⟨hfits, hpasses⟩ := h.fits_of_parseRequest hout hparse hgot hheaders
    obtain rfl := Option.some.inj ((h.output_of_passes hpasses).symm.trans hout)
    cases (h.parseRequest_eq hfits 0).symm.trans hparse
    exact ⟨hquery.symm, hfits, hpasses⟩
  · rintro ⟨hquery, hfits, hpasses⟩
    refine ⟨_, h.output_of_passes hpasses, fun receiveTime => ?_⟩
    exact ⟨_, h.parseRequest_eq hfits receiveTime, rfl, rfl, rfl, hquery.symm, rfl⟩

def searchRequest : HttpRequest where
  method_ := .kGet
  uri_ := { path_ := ascii "/search", query_ := ascii "?q=1" }
  headers_ := [(ascii "Host", ascii "localhost")]

theorem encodable_searchRequest : Encodable searchRequest where
  method := by decide
  path_slash := rfl
  path := forall_mem_of_all rfl
  query := .inr rfl
  query_bytes := forall_mem_of_all rfl
  sorted := List.pairwise_singleton _ _
  name := List.forall_mem_singleton.mpr ⟨by decide, forall_mem_of_all rfl⟩
  value := List.forall_mem_singleton.mpr
    ⟨forall_mem_of_all rfl, fun b hb => Option.mem_some.mp hb ▸ rfl,
      fun b hb => Option.mem_some.mp hb ▸ rfl⟩

theorem roundTrips_iff_searchRequest :
    RoundTrips searchRequest ↔ searchRequest.uri_.query_ = [] ∧
      searchRequest.methodString.length + 1 + searchRequest.uri_.path_.length + 9 ≤ 255 ∧
        ∀ entry ∈ searchRequest.headers_, PassesInt (entry.1.length + 2 + entry.2.length) :=
  roundTrips_iff encodable_searchRequest

/-- The query is lost. -/
theorem roundTrips_fails_query : ¬ ∀ r, Encodable r → RoundTrips r := by
  intro h
  have hpasses : ∀ entry ∈ searchRequest.headers_, PassesInt (headerLine entry).length :=
    List.forall_mem_singleton.mpr (by decide)
  obtain ⟨out, hout, hround⟩ := h searchRequest encodable_searchRequest
  obtain ⟨ctx, hparse, -, -, -, hquery, -⟩ := hround 0
  obtain rfl := Option.some.inj
    ((encodable_searchRequest.output_of_passes hpasses).symm.trans hout)
  cases (encodable_searchRequest.parseRequest_eq (by decide) 0).symm.trans hparse
  exact absurd hquery (by decide)

end Cnet.Net.Http
