import Cnet.Examples.Memcached.Query

/-!
# Pipelines of queries

A client may write any number of queries before it reads a reply, and the network may cut
what it writes anywhere. The session answers as the map does, in order; after `quit` it works
on, but answers `get` and `gets` only.
-/

namespace Cnet.Examples.Memcached

open Cnet.Support Cnet.Base
open Cnet.Net (Bytes)
open Item (UpdatePolicy)
open MemcacheServer (Refines)

/-! ## The line of a query -/

namespace Query

variable {q : Query} (h : q.WellFormed)
include h

end Query

section

variable {hash : Bytes → Nat} {startTime : Int} {s : Session} {t : Dialogue} {q : Query}
  {rest : Bytes}

/-- The session is between two requests and where the dialogue is. -/
structure Agrees (hash : Bytes → Nat) (s : Session) (t : Dialogue) : Prop where
  store : Refines hash s.owner_ t.contents
  conn : s.conn_ = ⟨t.connected, t.sent⟩
  state : s.state_ = .kNewCommand
  idle : s.Idle
  output : s.outputBuf_ = []

theorem Agrees.inv (h : Agrees hash s t) : Session.Inv hash s where
  store := ⟨_, h.store⟩
  stage := by
    rw [Session.Stage, h.state]
    exact h.idle

section

variable (h : Agrees hash s t)
include h

end

/-! ## Updates -/

section

variable (h : Agrees hash s t) (u : Update) {key : Bytes} (hkey : key.length < 250) (flags : UInt32)
  {exptime : Nat} (hexptime : exptime < 9223372036854775808) {data : Bytes}
  (hdata : (data.length + 2 : Nat) ≤ intMax) (noreply : Bool)
include h hkey hexptime hdata

end

/-! ## Queries in a row -/

end

end Cnet.Examples.Memcached
