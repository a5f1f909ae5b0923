import Cnet.Net.TcpConnection
import Cnet.Net.Http.HttpContext
import Cnet.Net.Http.Strings

/-!
# The HTTP server on one connection

`Session` is a connection with the parser kept in its context, and the answers the
server has given. The server runs in the loop thread; a segment arrives by
`handleRead`, whose message callback is `onMessage`.
-/

namespace Cnet.Net.Http

open Cnet.Support (wordSize)
open Cnet.Base

inductive HttpStatusCode
  | kUnknown
  | k200OK
  | k301MovedPermanently
  | k400BadRequest
  | k404NotFound
deriving DecidableEq, Repr

def HttpStatusCode.code : HttpStatusCode → Nat
  | kUnknown => 0
  | k200OK => 200
  | k301MovedPermanently => 301
  | k400BadRequest => 400
  | k404NotFound => 404

structure HttpResponse where
  headers_ : StringMap := []
  statusCode_ : HttpStatusCode := .kUnknown
  statusMessage_ : Bytes := []
  closeConnection_ : Bool
  body_ : Bytes := []
deriving DecidableEq, Repr

/-- `snprintf` into a buffer of `size` bytes, read back as a string. -/
def snprintf (size : Nat) (text : Bytes) : Bytes := text.take (size - 1)

def decimal (n : Nat) : Bytes := ascii (toString n)

namespace HttpResponse

/-- The strings that `appendToBuffer` appends, in order. -/
def strings (r : HttpResponse) : List Bytes :=
  [snprintf 32 (ascii "HTTP/1.1 " ++ decimal r.statusCode_.code ++ ascii " "), r.statusMessage_,
    ascii "\r\n"] ++
  (if r.closeConnection_ then [ascii "Connection: close\r\n"]
    else [snprintf 32 (ascii "Content-Length: " ++ decimal r.body_.length ++ ascii "\r\n"),
      ascii "Connection: Keep-Alive\r\n"]) ++
  r.headers_.flatMap (fun (key, value) => [key, ascii ": ", value, ascii "\r\n"]) ++
  [ascii "\r\n", r.body_]

/-- `appendToBuffer(output)`: every `append` is one of a `StringPiece`. -/
def appendToBuffer (r : HttpResponse) (output : Buffer) : Option Buffer :=
  output.appendStrings r.strings

/-- The bytes that `appendToBuffer` appends, where every `append` comes to its end. -/
def output (r : HttpResponse) : Option Bytes := appended r.strings

/-- The whole response, with nothing lost. -/
def text (r : HttpResponse) : Bytes := r.strings.flatten

/-- Every string that the caller has chosen passes through an `int`. -/
def Short (r : HttpResponse) : Prop :=
  PassesInt r.statusMessage_.length ∧
    (∀ entry ∈ r.headers_, PassesInt entry.1.length ∧ PassesInt entry.2.length) ∧
      PassesInt r.body_.length

theorem passes_snprintf (text : Bytes) : PassesInt (snprintf 32 text).length := by
  have hle : (snprintf 32 text).length ≤ 31 := List.length_take_le _ _
  exact passesInt_of_lt (by omega)

theorem short_iff (r : HttpResponse) : r.Short ↔ ∀ s ∈ r.strings, PassesInt s.length := by
  have hend : PassesInt (ascii "\r\n").length := by decide
  have hsep : PassesInt (ascii ": ").length := by decide
  have hfields : ∀ s ∈ (if r.closeConnection_ then [ascii "Connection: close\r\n"]
      else [snprintf 32 (ascii "Content-Length: " ++ decimal r.body_.length ++ ascii "\r\n"),
        ascii "Connection: Keep-Alive\r\n"]), PassesInt s.length := by
    cases r.closeConnection_ with
    | true => exact List.forall_mem_cons.mpr ⟨by decide, List.forall_mem_nil _⟩
    | false =>
      refine List.forall_mem_cons.mpr ⟨passes_snprintf _, List.forall_mem_cons.mpr ⟨by decide, ?_⟩⟩
      exact List.forall_mem_nil _
  rw [Short, strings]
  constructor
  · rintro ⟨hmessage, hheaders, hbody⟩ s hs
    simp only [List.mem_append, List.mem_cons, List.mem_flatMap, List.not_mem_nil, or_false] at hs
    obtain (((rfl | rfl | rfl) | hs) | ⟨entry, hentry, rfl | rfl | rfl | rfl⟩) | rfl | rfl := hs
    · exact passes_snprintf _
    · exact hmessage
    · exact hend
    · exact hfields s hs
    · exact (hheaders entry hentry).1
    · exact hsep
    · exact (hheaders entry hentry).2
    · exact hend
    · exact hend
    · exact hbody
  · intro h
    refine ⟨h _ (by simp), fun entry hentry => ⟨h _ ?_, h _ ?_⟩, h _ (by simp)⟩
    all_goals
      simp only [List.mem_append, List.mem_flatMap, List.mem_cons]
      exact .inl (.inr ⟨entry, hentry, by simp⟩)

/-- On a buffer with room for it, `appendToBuffer` puts the output behind what is there. -/
theorem appendToBuffer_spec {r : HttpResponse} {b : Buffer} {out : Bytes} (h : b.Indexed)
    (hout : r.output = some out)
    (hfit : b.writerIndex_ + out.length + Buffer.kCheapPrepend < wordSize) :
    ∃ b', r.appendToBuffer b = some b' ∧ b'.readable = b.readable ++ out :=
  Buffer.appendStrings_spec h hout hfit

theorem output_of_short {r : HttpResponse} (h : r.Short) : r.output = some r.text :=
  appended_of_passes ((short_iff r).mp h)

theorem length_of_output {r : HttpResponse} {out : Bytes} (h : r.output = some out) :
    out.length ≤ r.text.length ∧ (out.length = r.text.length → r.Short) := by
  obtain ⟨hle, hwhole⟩ := length_of_appended h
  exact ⟨hle, fun heq => (short_iff r).mpr (hwhole heq)⟩

end HttpResponse

/-- `detail::defaultHttpCallback` -/
def defaultHttpCallback (resp : HttpResponse) : HttpResponse :=
  { resp with
    statusCode_ := .k404NotFound, statusMessage_ := ascii "Not Found", closeConnection_ := true }

def badRequest : Bytes := ascii "HTTP/1.1 400 Bad Request\r\n\r\n"

/-- The `close` that `onRequest` starts its response with. -/
def wantsClose (v : RequestView) : Bool :=
  let connection := v.headers.get (ascii "Connection")
  connection = ascii "close" || v.version = .kHttp10 && connection ≠ ascii "Keep-Alive"

/-- One segment and what the outside does in its `onMessage`: the time it was received,
what `httpCallback_` makes of a response, and the kernel's answer to a write. -/
structure Call where
  segment : Bytes
  nonempty : segment ≠ []
  receiveTime : Timestamp
  httpCallback : HttpResponse → HttpResponse
  write : WriteResult

/-- What was sent for a request, or for a malformed request line. -/
inductive Answer
  | response (request : HttpRequest) (response : HttpResponse)
  | badRequest
deriving DecidableEq, Repr

/-- All that there is to be sent. -/
def Answer.bytes : Answer → Bytes
  | response _ r => r.text
  | badRequest => Http.badRequest

/-- The server closes its side after this answer. -/
def Answer.closing : Answer → Bool
  | response _ r => r.closeConnection_
  | badRequest => true

structure Session where
  conn : World
  context : HttpContext
  answers : List Answer

namespace Session

/-- A session as `onConnection` leaves it. -/
def start (c : Config) : Session where
  conn := (World.new c).connectEstablished
  context := {}
  answers := []

/-- `send` of the 400 reply, which is an answer if the connection takes it, then
`shutdown`. -/
def onBadRequest (call : Call) (s : Session) : Session :=
  { s with
    conn := (s.conn.send call.write .loop badRequest).shutdown .loop
    answers := if s.conn.state_ = .kConnected then s.answers ++ [.badRequest] else s.answers }

/-- What `onRequest` does once the response is in its buffer. -/
def respond (call : Call) (req : HttpRequest) (response : HttpResponse) (message : Bytes)
    (s : Session) : Session :=
  let conn := (s.conn.sendBuffer call.write .loop message).1
  { s with
    conn := if response.closeConnection_ then conn.shutdown .loop else conn
    answers := s.answers ++ [.response req response] }

/-- The response goes through a buffer of its own, which then holds its `output`. An `append`
that does not come to its end takes the server with it. -/
def onRequest (call : Call) (req : HttpRequest) (s : Session) : Option Session := do
  let connection := req.getHeader (ascii "Connection")
  let close := connection = ascii "close" ||
    req.version_ = .kHttp10 && connection ≠ ascii "Keep-Alive"
  let response := call.httpCallback { closeConnection_ := close }
  let message ← response.output
  some (s.respond call req response message)

def onMessage (call : Call) (s : Session) : Option Session := do
  let (ok, ctx, buf) ← s.context.parseRequest call.receiveTime s.conn.inputBuffer_
  let s := { s with context := ctx, conn := { s.conn with inputBuffer_ := buf } }
  let s := if !ok then s.onBadRequest call else s
  if ctx.gotAll then
    let s ← s.onRequest call ctx.request_
    return { s with context := ctx.reset }
  else return s

end Session

/-- A segment arrives, or the socket can be written to. -/
inductive SessionStep
  | message (call : Call)
  | writable (r : WriteResult)

namespace Session

def step (s : Session) : SessionStep → Option Session
  | .message call => onMessage call { s with conn := s.conn.handleRead (.bytes call.segment) }
  | .writable r => some { s with conn := s.conn.handleWrite r }

end Session

end Cnet.Net.Http
