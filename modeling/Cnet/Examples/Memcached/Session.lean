import Cnet.Support.Consumer
import Cnet.Support.Framing
import Cnet.Base.StringPiece
import Cnet.Examples.Memcached.Tokenizer
import Cnet.Examples.Memcached.MemcacheServer

/-!
# Sessions of the memcached server

A session reads commands from the input buffer of its connection, works on the store of its
owner, and sends replies. `none` is a failed assert, or the use of a length that as an `int`
is negative. The protocol is the one in text. What `sendInLoop` is given goes out in order,
or is given up when the peer takes no more, so the connection is what `sendInLoop` has been
given. That `get` shrinks the output buffer of the connection first is left out: it moves
memory, as long as less than 2^31 bytes wait there.
-/

namespace Cnet.Examples.Memcached

open Cnet.Support Cnet.Base
open Cnet.Net (Bytes)
open Item (UpdatePolicy)

/-- The connection of a session, which nobody but the session shuts down: it is in state
`kConnected`, then in `kDisconnecting`. -/
structure Connection where
  connected : Bool
  sent : Bytes
deriving DecidableEq, Repr

namespace Connection

/-- `send(const StringPiece &)` -/
def send (msg : Bytes) (c : Connection) : Connection :=
  if c.connected then { c with sent := c.sent ++ msg } else c

/-- `send(Buffer *)`, which sends in `kDisconnecting` as well, but through a `StringPiece`. -/
def sendBuffer (buf : Bytes) (c : Connection) : Option Connection :=
  if c.connected then some { c with sent := c.sent ++ buf }
  else (StringPiece.ofString buf).bytes.map fun msg => { c with sent := c.sent ++ msg }

def shutdown (c : Connection) : Connection := { c with connected := false }

end Connection

namespace Session

inductive State
  | kNewCommand
  | kReceiveValue
  | kDiscardValue
deriving DecidableEq, Repr

end Session

/-- `Session`, and of its owner the store and whether `stop` has been called. -/
structure Session where
  owner_ : MemcacheServer
  stopped : Bool
  conn_ : Connection
  state_ : Session.State
  command_ : Bytes
  noreply_ : Bool
  policy_ : UpdatePolicy
  currItem_ : Option Item
  bytesToDiscard_ : Nat
  outputBuf_ : Bytes

namespace Session

def kLongestKeySize : Nat := 250

/-- A session as its constructor leaves it. -/
def new (owner : MemcacheServer) : Session where
  owner_ := owner
  stopped := false
  conn_ := ⟨true, []⟩
  state_ := .kNewCommand
  command_ := []
  noreply_ := false
  policy_ := .kInvalid
  currItem_ := none
  bytesToDiscard_ := 0
  outputBuf_ := []

/-- `needle_` after `resetKey`: before each use its key is set again. -/
def needle (key : Bytes) : Option Item := do
  let needle ← Item.makeItem (List.replicate kLongestKeySize 120) 0 0 2 0
  needle.resetKey key

def resetRequest (s : Session) : Session :=
  { s with command_ := [], noreply_ := false, policy_ := .kInvalid, currItem_ := none,
           bytesToDiscard_ := 0 }

def send (msg : Bytes) (s : Session) : Session := { s with conn_ := s.conn_.send msg }

def reply (msg : Bytes) (s : Session) : Session := if s.noreply_ then s else s.send msg

def badFormat : Bytes := chars "CLIENT_ERROR bad command line format\r\n"

/-- The policy of an update command. -/
def policyOf (command : Bytes) : Option UpdatePolicy :=
  if command = chars "set" then some .kSet
  else if command = chars "add" then some .kAdd
  else if command = chars "replace" then some .kReplace
  else if command = chars "append" then some .kAppend
  else if command = chars "prepend" then some .kPrepend
  else if command = chars "cas" then some .kCas
  else none

/-- The numbers of an update command. -/
structure Fields where
  flags : UInt32
  exptime : Int
  bytes : Int
  cas : UInt64
deriving DecidableEq, Repr

/-- The calls of `Reader::read`, with the casts to the types that are read. -/
def readFields (policy : UpdatePolicy) (r : List Token) : Option Fields := do
  let (flags, r) ← read r
  let (exptime, r) ← read r
  let (bytes, r) ← read r
  let cas ← if policy = .kCas then (read r).map Prod.fst else some 0
  some ⟨flags.toUInt32, exptime.toInt64.toInt, castInt bytes.toNat, cas⟩

/-- `rel_exptime`: more than thirty days is a time of day. -/
def relExptime (startTime exptime : Int) : Int :=
  if exptime > 60 * 60 * 24 * 30 then
    if castInt (exptime - startTime) < 1 then 1 else castInt (exptime - startTime)
  else castInt exptime

section

variable (hash : Bytes → Nat) (startTime : Int)

/-- `doUpdate`: whether the request is finished. -/
def doUpdate (beg : List Token) (s : Session) : Option (Bool × Session) := do
  let policy ← policyOf s.command_
  let s := { s with policy_ := policy }
  match beg with
  | [] => none
  | tok :: beg =>
    let key := tok.text
    let fields := if key.length < kLongestKeySize then readFields policy beg else none
    match fields with
    | none => some (true, s.reply badFormat)
    | some ⟨flags, exptime, bytes, cas⟩ =>
      if bytes > 1024 * 1024 then do
        let s := s.reply (chars "SERVER_ERROR object too large for cache\r\n")
        let needle ← needle key
        let (_, owner_) := s.owner_.deleteItem hash needle.key
        some (false, { s with owner_, bytesToDiscard_ := castSize (castInt (bytes + 2)),
                              state_ := .kDiscardValue })
      else do
        let item ← Item.makeItem key flags (relExptime startTime exptime) (bytes + 2) cas
        some (false, { s with currItem_ := some item, state_ := .kReceiveValue })

/-- The loop over the keys of `get` and `gets`: whether all keys were good. -/
def getItems (cas : Bool) : List Token → Session → Option (Bool × Session)
  | [], s => some (true, s)
  | tok :: beg, s =>
    let key := tok.text
    if key.length ≤ kLongestKeySize then do
      let needle ← needle key
      match s.owner_.getItem hash needle.key with
      | some item => do
        let text ← item.output cas
        getItems cas beg { s with outputBuf_ := s.outputBuf_ ++ text }
      | none => getItems cas beg s
    else some (false, s.reply badFormat)

/-- `conn_->send(&outputBuf_)`, which empties the buffer. -/
def sendOutput (s : Session) : Option Session :=
  (s.conn_.sendBuffer s.outputBuf_).map fun conn_ => { s with conn_, outputBuf_ := [] }

def doGet (beg : List Token) (s : Session) : Option Session := do
  let (good, s) ← getItems hash (s.command_ = chars "gets") beg s
  if good then sendOutput { s with outputBuf_ := s.outputBuf_ ++ chars "END\r\n" }
  else some s

def doDelete (beg : List Token) (s : Session) : Option Session :=
  match beg with
  | [] => none
  | tok :: beg =>
    let key := tok.text
    if ¬ key.length ≤ kLongestKeySize then some (s.reply badFormat)
    else if beg ≠ [] ∧ beg.head?.map Token.text ≠ some (chars "0") then
      some (s.reply (chars
        "CLIENT_ERROR bad command line format. Usage: delete <key> [noreply]\r\n"))
    else do
      let needle ← needle key
      let (found, owner_) := s.owner_.deleteItem hash needle.key
      let s := { s with owner_ }
      some (s.reply (if found then chars "DELETED\r\n" else chars "NOT_FOUND\r\n"))

/-- What `processRequest` does with a command. -/
def dispatch (command : Bytes) (beg : List Token) (s : Session) : Option (Bool × Session) := do
  let s := { s with command_ := command }
  if (policyOf command).isSome then s.doUpdate hash startTime beg
  else if command = chars "get" ∨ command = chars "gets" then do
    let s ← s.doGet hash beg
    some (true, s)
  else if command = chars "delete" then do
    let s ← s.doDelete hash beg
    some (true, s)
  else if command = chars "version" then some (true, s.reply (chars "VERSION 0.01 cnet\r\n"))
  else if command = chars "quit" then some (true, { s with conn_ := s.conn_.shutdown })
  else if command = chars "shutdown" then
    some (true, { s with conn_ := s.conn_.shutdown, stopped := true })
  else some (true, s.reply (chars "ERROR\r\n"))

/-- The tokens of a request: the command, and what it is given. -/
def runCommand (beg : List Token) (s : Session) : Option (Bool × Session) :=
  match beg with
  | [] => some (true, s.reply (chars "ERROR\r\n"))
  | tok :: beg => s.dispatch hash startTime tok.text beg

def noreplySuffix : Bytes := chars " noreply"

/-- The request without `noreply` at its end, if that is there. -/
def stripNoreply (request : Bytes) : Option Bytes :=
  if request.length ≥ 8 ∧ request.drop (request.length - 8) = noreplySuffix then
    some (request.take (request.length - 8))
  else none

/-- `processRequest`; `beyond` is what follows the request in the input buffer. -/
def processRequest (request beyond : Bytes) (s : Session) : Option (Bool × Session) := do
  assert (s.command_ = [])
  assert (s.noreply_ = false)
  assert (s.policy_ = .kInvalid)
  assert (s.currItem_ = none)
  assert (s.bytesToDiscard_ = 0)
  match stripNoreply request with
  | some request =>
    runCommand hash startTime (tokens request (noreplySuffix ++ beyond))
      { s with noreply_ := true }
  | none => s.runCommand hash startTime (tokens request beyond)

/-- The reply to an update, with the value returned by `storeItem` and `exists`. -/
def updateReply (policy : UpdatePolicy) (result exists_ : Bool) : Bytes :=
  if result then chars "STORED\r\n"
  else if policy = .kCas then if exists_ then chars "EXISTS" else chars "NOT_FOUND\r\n"
  else chars "NOT_FOUND"

/-- What `receiveValue` does with an item that needs no more bytes. -/
def storeValue (item : Item) (s : Session) : Option Session :=
  if item.endsWithCRLF then do
    let ((result, exists_), owner_) ← s.owner_.storeItem hash item s.policy_
    some ({ s with owner_ }.reply (updateReply s.policy_ result exists_))
  else some (s.reply (chars "CLIENT_ERROR bad data chunk\r\n"))

/-- `receiveValue`: the session, and what is left in the buffer. -/
def receiveValue (buf : Bytes) (s : Session) : Option (Session × Bytes) := do
  let item ← s.currItem_
  let avail := min buf.length item.neededBytes
  let item ← item.append (buf.take avail)
  let s := { s with currItem_ := some item }
  let buf := buf.drop avail
  if item.neededBytes = 0 then do
    let s ← s.storeValue hash item
    some ({ s.resetRequest with state_ := .kNewCommand }, buf)
  else some (s, buf)

def discardValue (buf : Bytes) (s : Session) : Option (Session × Bytes) := do
  assert (s.currItem_ = none)
  if buf.length < s.bytesToDiscard_ then
    some ({ s with bytesToDiscard_ := s.bytesToDiscard_ - buf.length }, [])
  else
    some ({ s.resetRequest with state_ := .kNewCommand }, buf.drop s.bytesToDiscard_)

def findCRLF (buf : Bytes) : Option Nat := findPair 13 10 buf

/-- The end of a turn in `kNewCommand`. -/
def finishRequest (s : Session) (finished : Bool) : Session :=
  if finished then s.resetRequest else s

/-- The body of the loop in `onMessage`; `wait` is the `break`, or that nothing is readable. -/
def turn (s : Session) (buf : Bytes) : Turn Session UInt8 :=
  if buf = [] then .wait
  else
    match s.state_ with
    | .kNewCommand =>
      match findCRLF buf with
      | some n =>
        .ofOption do
          let len := castInt n
          assert (0 ≤ len)
          let (finished, s) ←
            s.processRequest hash startTime (buf.take len.toNat) (buf.drop len.toNat)
          some (s.finishRequest finished, buf.drop (n + 2))
      | none => .wait
    | .kReceiveValue => .ofOption (s.receiveValue hash buf)
    | .kDiscardValue => .ofOption (s.discardValue buf)

/-- A line that is too long for a command is waiting for its end. -/
def Overlong (s : Session) (buf : Bytes) : Prop := s.state_ = .kNewCommand ∧ 1024 < buf.length

instance (s : Session) (buf : Bytes) : Decidable (s.Overlong buf) :=
  inferInstanceAs (Decidable (_ ∧ _))

/-- `onMessage`: the session, and what is left in the buffer. -/
def onMessage (s : Session) (buf : Bytes) : Option (Session × Bytes) := do
  let (s, buf) ← Turn.settle (turn hash startTime) (buf.length + 1) s buf
  some (if s.Overlong buf then { s with conn_ := s.conn_.shutdown } else s, buf)

end

end Session

end Cnet.Examples.Memcached
