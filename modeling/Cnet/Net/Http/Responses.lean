import Cnet.Net.Http.Message

/-!
# Responses on one connection

`appendToBuffer` passes every string of a response on through a `StringPiece`, whose length
is an `int`. A client gets the responses back if no string is too long for that.
-/

namespace Cnet.Net.Http

open Cnet.Support
open Cnet.Base

/-! ## Responses as messages -/

namespace HttpResponse

/-- The message that a keep-alive response is. -/
def toMessage (r : HttpResponse) : Message where
  code := r.statusCode_.code
  message := r.statusMessage_
  headers := (ascii "Content-Length", decimal r.body_.length) ::
    (ascii "Connection", ascii "Keep-Alive") :: r.headers_
  body := r.body_

/-- The responses that keep the connection and whose fields keep to their lines. -/
structure KeepsAlive (r : HttpResponse) : Prop where
  keep : r.closeConnection_ = false
  message : CR ∉ r.statusMessage_ ∧ LF ∉ r.statusMessage_
  name : ∀ entry ∈ r.headers_, colon ∉ entry.1 ∧ CR ∉ entry.1 ∧ LF ∉ entry.1 ∧
    entry.1 ≠ ascii "Content-Length"
  value : ∀ entry ∈ r.headers_, CR ∉ entry.2 ∧ LF ∉ entry.2
  body : r.body_.length < 10 ^ 13

theorem flatten_headers (headers : StringMap) :
    (headers.flatMap fun (key, value) => [key, ascii ": ", value, ascii "\r\n"]).flatten =
      headers.flatMap fun (key, value) => key ++ ascii ": " ++ value ++ ascii "\r\n" := by
  induction headers with
  | nil => rfl
  | cons entry headers ih =>
    rw [List.flatMap_cons, List.flatMap_cons, List.flatten_append, ih]
    simp only [List.flatten_cons, List.flatten_nil, List.append_nil, List.append_assoc]

theorem snprintf_eq {size : Nat} {text : Bytes} (h : text.length < size) :
    snprintf size text = text := List.take_of_length_le (by omega)

/-- A response that fits the buffer of its length is written as the message it is. -/
theorem KeepsAlive.text_eq {r : HttpResponse} (h : r.KeepsAlive) :
    r.text = r.toMessage.text := by
  have hcode : (decimal r.statusCode_.code).length ≤ 3 :=
    length_decimal_le (by decide) (by cases r.statusCode_ <;> decide)
  have hbody : (decimal r.body_.length).length ≤ 13 := length_decimal_le (by decide) h.body
  have hversion : (ascii "HTTP/1.1 ").length = 9 := rfl
  have hspace : (ascii " ").length = 1 := rfl
  have hname : (ascii "Content-Length: ").length = 16 := rfl
  have hend : (ascii "\r\n").length = 2 := rfl
  have hstatus : snprintf 32 (ascii "HTTP/1.1 " ++ decimal r.statusCode_.code ++ ascii " ") =
      ascii "HTTP/1.1 " ++ decimal r.statusCode_.code ++ ascii " " := by
    refine snprintf_eq ?_
    rw [List.length_append, List.length_append]
    omega
  have hlength : snprintf 32 (ascii "Content-Length: " ++ decimal r.body_.length ++ ascii "\r\n") =
      ascii "Content-Length: " ++ decimal r.body_.length ++ ascii "\r\n" := by
    refine snprintf_eq ?_
    rw [List.length_append, List.length_append]
    omega
  have hcrlf : ascii "\r\n" = crlf := rfl
  have hfirst : ascii "Content-Length: " = ascii "Content-Length" ++ ascii ": " := rfl
  have hsecond : ascii "Connection: Keep-Alive\r\n" =
      headerLine (ascii "Connection", ascii "Keep-Alive") ++ crlf := rfl
  have hmessage : ascii " " ++ r.statusMessage_ = space :: r.statusMessage_ := rfl
  have hheaders := flatten_headers r.headers_
  simp only [hcrlf] at hheaders
  rw [text, strings, h.keep, hstatus, hlength, if_neg Bool.false_ne_true, hcrlf, hfirst, hsecond,
    Message.text, linesText, Message.lines, toMessage, statusLine, ← hmessage]
  simp only [List.flatten_append, hheaders, List.flatten_cons, List.flatten_nil,
    List.append_nil, List.map_cons, List.flatMap_cons, List.flatMap_map, headerLine,
    List.append_assoc]

theorem KeepsAlive.splits {r : HttpResponse} (h : r.KeepsAlive) : r.toMessage.Splits where
  message := h.message.1
  name := by
    have hfirst : colon ∉ ascii "Content-Length" ∧ CR ∉ ascii "Content-Length" := by decide
    have hsecond : colon ∉ ascii "Connection" ∧ CR ∉ ascii "Connection" := by decide
    refine List.forall_mem_cons.mpr ⟨hfirst, List.forall_mem_cons.mpr ⟨hsecond, ?_⟩⟩
    exact fun entry hentry => ⟨(h.name entry hentry).1, (h.name entry hentry).2.1⟩
  value := by
    have hfirst : CR ∉ decimal r.body_.length := by
      rw [decimal_eq]
      exact fun hmem => absurd (isDigit_of_mem hmem).1 (by decide)
    have hsecond : CR ∉ ascii "Keep-Alive" := by decide
    refine List.forall_mem_cons.mpr ⟨hfirst, List.forall_mem_cons.mpr ⟨hsecond, ?_⟩⟩
    exact fun entry hentry => (h.value entry hentry).1
  length := by
    have hfirst : lowercase (ascii "Content-Length") = ascii "content-length" := by decide
    exact (contentLength_cons hfirst _ _).trans (readNumber_decimal _)

end HttpResponse

/-! ## The stream -/

/-- What a connection that is kept alive carries. -/
def outputs (rs : List HttpResponse) : Option Bytes :=
  (rs.mapM HttpResponse.output).map List.flatten

/-- The client gets the responses back, and nothing else can be read. -/
def SplitsBack (rs : List HttpResponse) : Prop :=
  ∃ stream, outputs rs = some stream ∧
    ∀ ms, readMessages stream = some ms ↔ ms = rs.map HttpResponse.toMessage

theorem flatMap_text {rs : List HttpResponse} (h : ∀ r ∈ rs, r.KeepsAlive) :
    rs.flatMap HttpResponse.text =
      (rs.map HttpResponse.toMessage).flatMap Message.text := by
  induction rs with
  | nil => rfl
  | cons r rs ih =>
    obtain ⟨hr, hrs⟩ := List.forall_mem_cons.mp h
    rw [List.flatMap_cons, List.map_cons, List.flatMap_cons, hr.text_eq, ih hrs]

theorem splitsBack_of_short {rs : List HttpResponse} (h : ∀ r ∈ rs, r.KeepsAlive)
    (hshort : ∀ r ∈ rs, r.Short) : SplitsBack rs := by
  have hout : outputs rs = some (rs.flatMap HttpResponse.text) := by
    rw [outputs, mapM_of_forall fun r hr => HttpResponse.output_of_short (hshort r hr),
      Option.map_some, List.flatMap_def]
  have hsplits : ∀ m ∈ rs.map HttpResponse.toMessage, m.Splits := by
    intro m hm
    obtain ⟨r, hr, rfl⟩ := List.mem_map.mp hm
    exact (h r hr).splits
  refine ⟨_, hout, fun ms => ?_⟩
  rw [flatMap_text h, readMessages_text hsplits]
  exact ⟨fun heq => (Option.some.inj heq).symm, fun heq => heq ▸ rfl⟩

theorem short_of_splitsBack {rs : List HttpResponse} (h : ∀ r ∈ rs, r.KeepsAlive)
    (hback : SplitsBack rs) : ∀ r ∈ rs, r.Short := by
  obtain ⟨stream, hout, hread⟩ := hback
  obtain ⟨copies, hcopies, rfl⟩ := Option.map_eq_some_iff.mp hout
  obtain ⟨hle, hwhole⟩ := length_of_mapM (fun _ _ => HttpResponse.length_of_output) hcopies
  have hlen := length_of_readMessages ((hread _).mpr rfl)
  rw [← flatMap_text h] at hlen
  exact hwhole (Nat.le_antisymm hle hlen)

/-- Responses that keep the connection alive are split back exactly if their strings pass
through `StringPiece`s. -/
theorem splitsBack_iff {rs : List HttpResponse} (h : ∀ r ∈ rs, r.KeepsAlive) :
    SplitsBack rs ↔ ∀ r ∈ rs, r.Short :=
  ⟨short_of_splitsBack h, splitsBack_of_short h⟩

/-- A response with a body of 4 GiB. -/
def fourGigabytes : HttpResponse where
  statusCode_ := .k200OK
  closeConnection_ := false
  body_ := List.replicate 4294967296 0

/-- The size of that body is 0 as an `int`, and nothing of it is sent. -/
theorem splitsBack_fails :
    fourGigabytes.KeepsAlive ∧ (StringPiece.ofString fourGigabytes.body_).bytes = some [] ∧
      ¬ SplitsBack [fourGigabytes] := by
  have hlen : fourGigabytes.body_.length = 4294967296 := List.length_replicate
  have hcast : castSize (castInt (4294967296 : Nat)) = 0 := by decide
  have hkeep : fourGigabytes.KeepsAlive := by
    constructor
    case body =>
      rw [hlen]
      decide
    all_goals decide
  refine ⟨hkeep, ?_, fun hback => ?_⟩
  · rw [StringPiece.bytes_eq, StringPiece.size_ofString, hlen, hcast,
      if_pos (Nat.zero_le _), List.take_zero]
  · obtain ⟨-, -, hbody⟩ := short_of_splitsBack (List.forall_mem_singleton.mpr hkeep) hback _
      List.mem_cons_self
    rw [hlen, PassesInt, hcast] at hbody
    exact absurd hbody (by decide)

/-- Two responses; the body of the first one looks like the head of another. -/
theorem splitsBack_iff_two :
    SplitsBack [
      { statusCode_ := .k200OK, statusMessage_ := ascii "OK", closeConnection_ := false
        body_ := ascii "HTTP/1.1 200 \r\n\r\n" },
      { statusCode_ := .k404NotFound, closeConnection_ := false
        headers_ := [(ascii "Server", ascii "a: b")] }] := by
  refine (splitsBack_iff ?_).mpr ?_
  · refine List.forall_mem_cons.mpr ⟨?_, List.forall_mem_singleton.mpr ?_⟩
    all_goals constructor <;> decide
  · refine List.forall_mem_cons.mpr ⟨?_, List.forall_mem_singleton.mpr ?_⟩
    all_goals exact ⟨by decide, by decide, by decide⟩

end Cnet.Net.Http
