import Cnet.Net.Http.HttpRequest
import Cnet.Support.Framing

/-!
# The HTTP parser

`parseRequest` is the loop of the source, one call of `parseLoop` an iteration. It
runs out of fuel exactly where the source spins: in the states `kExpectBody` and
`kGotAll`, for which the loop has no way out.
-/

namespace Cnet.Net.Http

open Cnet.Support

def CR : Byte := 13
def LF : Byte := 10

/-- `Buffer::findCRLF` on the readable bytes: the offset of the first CRLF. -/
def findCRLF (buf : Bytes) : Option Nat := findPair CR LF buf

inductive HttpRequestParseState
  | kExpectRequestLine
  | kExpectHeaders
  | kExpectBody
  | kGotAll
deriving DecidableEq, Repr

structure HttpContext where
  state_ : HttpRequestParseState := .kExpectRequestLine
  request_ : HttpRequest := {}
deriving DecidableEq, Repr

/-- The path and, from the question mark on, the query. -/
def setTarget (target : Bytes) (r : HttpRequest) : HttpRequest :=
  let q := find question target
  if q ≠ target.length then (r.setPath (target.take q)).setQuery (target.drop q)
  else r.setPath target

/-- The version, if it is one of the two known. -/
def setVersionOf (version : Bytes) (r : HttpRequest) : Bool × HttpRequest :=
  if version.length = 8 && version.take 7 = ascii "HTTP/1." then
    if version.drop 7 = ascii "1" then (true, r.setVersion .kHttp11)
    else if version.drop 7 = ascii "0" then (true, r.setVersion .kHttp10)
    else (false, r)
  else (false, r)

/-- `processRequestLine`, on the bytes before the CRLF. A line that is refused may
have left its mark on the request. -/
def processRequestLine (line : Bytes) (r : HttpRequest) : Bool × HttpRequest :=
  let sp := find space line
  if sp = line.length then (false, r)
  else
    let (known, r) := r.setMethod (line.take sp)
    if !known then (false, r)
    else
      let line := line.drop (sp + 1)
      let sp := find space line
      if sp = line.length then (false, r)
      else setVersionOf (line.drop (sp + 1)) (setTarget (line.take sp) r)

namespace HttpContext

def gotAll (ctx : HttpContext) : Bool := ctx.state_ = .kGotAll

def reset (ctx : HttpContext) : HttpContext where
  state_ := .kExpectRequestLine
  request_ := (ctx.request_.swap {}).1

/-- The loop of `parseRequest`: the result, the context and the readable bytes left. -/
def parseLoop (receiveTime : Timestamp) :
    Nat → HttpContext → Bytes → Option (Bool × HttpContext × Bytes)
  | 0, _, _ => none
  | fuel + 1, ctx, buf =>
    match ctx.state_ with
    | .kExpectRequestLine =>
      match findCRLF buf with
      | some crlf =>
        let (ok, r) := processRequestLine (buf.take crlf) ctx.request_
        if ok then
          parseLoop receiveTime fuel
            { state_ := .kExpectHeaders, request_ := r.setReceiveTime receiveTime }
            (buf.drop (crlf + 2))
        else some (false, { ctx with request_ := r }, buf)
      | none => some (true, ctx, buf)
    | .kExpectHeaders =>
      match findCRLF buf with
      | some crlf =>
        let line := buf.take crlf
        let c := find colon line
        if c ≠ line.length then
          parseLoop receiveTime fuel { ctx with request_ := ctx.request_.addHeader line c }
            (buf.drop (crlf + 2))
        else some (true, { ctx with state_ := .kGotAll }, buf.drop (crlf + 2))
      | none => some (true, ctx, buf)
    | .kExpectBody => parseLoop receiveTime fuel ctx buf
    | .kGotAll => parseLoop receiveTime fuel ctx buf

/-- `parseRequest`, with an iteration for every readable byte and one more. -/
def parseRequest (receiveTime : Timestamp) (ctx : HttpContext) (buf : Bytes) :
    Option (Bool × HttpContext × Bytes) :=
  parseLoop receiveTime (buf.length + 1) ctx buf

end HttpContext

end Cnet.Net.Http
