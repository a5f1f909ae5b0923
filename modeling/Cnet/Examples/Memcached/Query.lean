import Cnet.Examples.Memcached.SessionRuns

/-!
# What clients ask for

Queries, how a client writes them, and what they mean to one who knows only the map: their
effect on it, and the reply.
-/

namespace Cnet.Examples.Memcached

open Cnet.Support Cnet.Base
open Cnet.Net (Bytes)
open Item (UpdatePolicy)

def digits (n : Nat) : Bytes := digitBytes charByte 10 n

/-- The ways to update a value; `cas` is for a client that knows the version. -/
inductive Update
  | set
  | add
  | replace
  | append
  | prepend
  | cas (unique : UInt64)
deriving DecidableEq, Repr

namespace Update

def policy : Update → UpdatePolicy
  | set => .kSet
  | add => .kAdd
  | replace => .kReplace
  | append => .kAppend
  | prepend => .kPrepend
  | cas _ => .kCas

def command : Update → Bytes
  | set => chars "set"
  | add => chars "add"
  | replace => chars "replace"
  | append => chars "append"
  | prepend => chars "prepend"
  | cas _ => chars "cas"

def token : Update → UInt64
  | cas unique => unique
  | _ => 0

/-- What comes after the length of the data. -/
def more : Update → List Bytes
  | cas unique => [digits unique.toNat]
  | _ => []

end Update

inductive Query
  | update (u : Update) (key : Bytes) (flags : UInt32) (exptime : Nat) (data : Bytes)
      (noreply : Bool)
  | get (cas : Bool) (keys : List Bytes)
  | delete (key : Bytes) (noreply : Bool)
  | version (noreply : Bool)
  | quit
deriving DecidableEq, Repr

namespace Query

def words : Query → List Bytes
  | update u key flags exptime data _ =>
    [u.command, key, digits flags.toNat, digits exptime, digits data.length] ++ u.more
  | get cas keys => (if cas then chars "gets" else chars "get") :: keys
  | delete key _ => [chars "delete", key]
  | version _ => [chars "version"]
  | quit => [chars "quit"]

def noreply : Query → Bool
  | update _ _ _ _ _ noreply => noreply
  | delete _ noreply => noreply
  | version noreply => noreply
  | _ => false

def isGet : Query → Bool
  | get _ _ => true
  | _ => false

def line (q : Query) : Bytes := unwords q.words ++ if q.noreply then Session.noreplySuffix else []

/-- What comes after the line. -/
def payload : Query → Bytes
  | update _ _ _ _ data _ => data ++ crlf
  | _ => []

def encode (q : Query) : Bytes := q.line ++ crlf ++ q.payload

/-- What is given has room in the types that the server reads. -/
def InRange : Query → Prop
  | update _ key _ exptime data _ =>
    key.length < 250 ∧ exptime < 9223372036854775808 ∧ (data.length + 2 : Nat) ≤ intMax
  | get _ keys => ∀ key ∈ keys, key.length ≤ 250
  | delete key _ => key.length ≤ 250
  | _ => True

/-- The protocol has no blanks and no line feeds in keys, and no key where `noreply` is
expected has that name. -/
structure WellFormed (q : Query) : Prop where
  words : ∀ word ∈ q.words, IsWord word ∧ (10 : UInt8) ∉ word
  last : q.noreply = false → q.words.getLast? ≠ some (chars "noreply")
  short : q.line.length < 1024
  inRange : q.InRange

/-! ## What a query means -/

/-- More data than the server takes. -/
def tooLarge (data : Bytes) : Bool := 1024 * 1024 < data.length

section

variable (startTime : Int)

def command : Query → Option Command
  | update u key flags exptime data _ =>
    if tooLarge data then some (.delete key)
    else some (.store u.policy key ⟨flags, Session.relExptime startTime exptime, data⟩ u.token)
  | delete key _ => some (.delete key)
  | _ => none

def effect (q : Query) (m : Contents) : Contents :=
  (q.command startTime).elim m fun c => m.step c.operation

/-- A value that the query puts together has room. -/
def Fits (q : Query) (m : Contents) : Prop :=
  ∀ c, q.command startTime = some c → c.Fits (m.entry c.key)

end

def reply : Query → Contents → Bytes
  | update u key _ _ data _, m =>
    if tooLarge data then chars "SERVER_ERROR object too large for cache\r\n"
    else Session.updateReply u.policy (wins u.policy u.token (m.entry key)) (m.entry key).isSome
  | get cas keys, m => Session.found cas m keys ++ chars "END\r\n"
  | delete key _, m =>
    if (m.entry key).isSome then chars "DELETED\r\n" else chars "NOT_FOUND\r\n"
  | version _, _ => chars "VERSION 0.01 cnet\r\n"
  | quit, _ => []

end Query

/-- A client and the map: what it has been sent. `connected` means that it has not quit. -/
structure Dialogue where
  contents : Contents
  connected : Bool
  sent : Bytes

namespace Dialogue

/-- After `quit`, only `get` and `gets` are answered. -/
def answers (t : Dialogue) (q : Query) : Bool := (t.connected || q.isGet) && !q.noreply

variable (startTime : Int)

def step (t : Dialogue) (q : Query) : Dialogue where
  contents := q.effect startTime t.contents
  connected := t.connected && q ≠ .quit
  sent := if t.answers q then t.sent ++ q.reply t.contents else t.sent

def run (t : Dialogue) (queries : List Query) : Dialogue := queries.foldl (step startTime) t

/-- All values put together have room. -/
def FitsAll : Dialogue → List Query → Prop
  | _, [] => True
  | t, q :: queries => q.Fits startTime t.contents ∧ FitsAll (t.step startTime q) queries

end Dialogue

end Cnet.Examples.Memcached
