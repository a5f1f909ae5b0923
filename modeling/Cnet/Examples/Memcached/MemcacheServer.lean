import Mathlib.Data.Option.Basic
import Cnet.Support.Buckets
import Cnet.Support.Versions
import Cnet.Examples.Memcached.Item

/-!
# The store of the memcached server

Items are in shards, by the hash of their key. Every item that is stored gets the next value
of a counter that all shards share. What clients see is a map from keys to values with
versions: neither the shards nor the hash function show.
-/

namespace Cnet.Examples.Memcached

open Cnet.Support Cnet.Base
open Cnet.Net (Bytes)
open Item (UpdatePolicy Value)

def kShards : Nat := 4096

/-- `MemcacheServer`, as far as items are concerned, and `g_cas`. A shard is the set of its
items; at most one of them has a given key. -/
structure MemcacheServer where
  shards_ : Nat → List Item
  g_cas : UInt64

namespace MemcacheServer

def new : MemcacheServer := ⟨fun _ => [], 0⟩

/-- The `newItem` of `storeItem`, for `kAppend` and `kPrepend`. -/
def concat (policy : UpdatePolicy) (item oldItem : Item) (cas : UInt64) : Option Item := do
  let newLen := castInt (item.valueLength + oldItem.valueLength - 2 : Nat)
  let newItem ← Item.makeItem item.key oldItem.flags_ oldItem.rel_exptime_ newLen cas
  let newItem ←
    if policy = .kAppend then do
      let newItem ← newItem.append (oldItem.value.take (oldItem.valueLength - 2))
      newItem.append (item.value.take item.valueLength)
    else do
      let newItem ← newItem.append (item.value.take (item.valueLength - 2))
      newItem.append (oldItem.value.take oldItem.valueLength)
  assert (newItem.neededBytes = 0)
  assert (newItem.endsWithCRLF = true)
  some newItem

/-- What is left of `storeItem` once the key has been looked up. -/
inductive Branch
  /-- `return false` -/
  | refuse
  /-- `return true`, and nothing else. -/
  | leave
  /-- The item that takes the place of the one found, made with the next value of `g_cas`. -/
  | put (newItem : UInt64 → Option Item)

def branch (item : Item) (policy : UpdatePolicy) (it : Option Item) : Branch :=
  match policy with
  | .kSet => .put fun cas => some (item.setCas cas)
  | .kAdd => if it.isSome then .refuse else .put fun cas => some (item.setCas cas)
  | .kReplace => if it.isSome then .put fun cas => some (item.setCas cas) else .refuse
  | .kAppend | .kPrepend =>
    match it with
    | some oldItem => .put (concat policy item oldItem)
    | none => .refuse
  | .kCas =>
    match it with
    | some oldItem =>
      if oldItem.cas_ = item.cas_ then .put fun cas => some (item.setCas cas) else .refuse
    | none => .refuse
  | .kInvalid => .leave

variable (hash : Bytes → Nat)

def shard (key : Bytes) : Nat := hash key % kShards

def items (s : MemcacheServer) (key : Bytes) : List Item := s.shards_ (shard hash key)

/-- The items of the shard that `key` is in. -/
def setItems (s : MemcacheServer) (key : Bytes) (items : List Item) : MemcacheServer :=
  { s with shards_ := Function.update s.shards_ (shard hash key) items }

/-- The value returned, `*exists`, and the server. -/
def storeItem (item : Item) (policy : UpdatePolicy) (s : MemcacheServer) :
    Option ((Bool × Bool) × MemcacheServer) := do
  assert (item.neededBytes = 0)
  let items := s.items hash item.key
  let it := Buckets.find Item.key item.key items
  match branch item policy it with
  | .refuse => some ((false, it.isSome), s)
  | .leave => some ((true, it.isSome), s)
  | .put newItem => do
    let cas := s.g_cas + 1
    let newItem ← newItem cas
    let items := Buckets.insert Item.key newItem (Buckets.erase Item.key item.key items)
    some ((true, it.isSome), { s.setItems hash item.key items with g_cas := cas })

def getItem (key : Bytes) (s : MemcacheServer) : Option Item :=
  Buckets.find Item.key key (s.items hash key)

def deleteItem (key : Bytes) (s : MemcacheServer) : Bool × MemcacheServer :=
  let items := s.items hash key
  ((Buckets.find Item.key key items).isSome,
    s.setItems hash key (Buckets.erase Item.key key items))

end MemcacheServer

/-! ## What the store is for -/

/-- A map from keys to values; the versions are the `cas` numbers. -/
abbrev Contents := Versions Bytes Value

/-- Where an update goes ahead, given the entry of its key. -/
def wins (policy : UpdatePolicy) (token : UInt64) (entry : Option (Value × Nat)) : Bool :=
  match policy with
  | .kSet => true
  | .kAdd => entry.isNone
  | .kReplace | .kAppend | .kPrepend => entry.isSome
  | .kCas => entry.any fun e => UInt64.ofNat e.2 = token
  | .kInvalid => false

/-- The value of the key after an update. -/
def newValue (policy : UpdatePolicy) (v : Value) (entry : Option (Value × Nat)) : Value :=
  match policy, entry with
  | .kAppend, some (old, _) => { old with data := old.data ++ v.data }
  | .kPrepend, some (old, _) => { old with data := v.data ++ old.data }
  | _, _ => v

/-- What can be asked of the store. -/
inductive Command
  | store (policy : UpdatePolicy) (key : Bytes) (v : Value) (token : UInt64)
  | get (key : Bytes)
  | delete (key : Bytes)
deriving DecidableEq, Repr

namespace Command

def key : Command → Bytes
  | store _ key _ _ => key
  | get key => key
  | delete key => key

def change (c : Command) (entry : Option (Value × Nat)) : Change Value :=
  match c with
  | store policy _ v token =>
    if wins policy token entry then .put (newValue policy v entry) else .keep
  | get _ => .keep
  | delete _ => .drop

def operation (c : Command) : Versions.Operation Bytes Value := ⟨c.key, c.change⟩

/-- What the client is told. -/
inductive Answer
  | stored (result exists_ : Bool)
  | got (entry : Option (Value × Nat))
  | deleted (found : Bool)
deriving DecidableEq, Repr

def answer (c : Command) (entry : Option (Value × Nat)) : Answer :=
  match c with
  | store policy _ _ token => .stored (wins policy token entry || policy = .kInvalid) entry.isSome
  | get _ => .got entry
  | delete _ => .deleted entry.isSome

/-- The value that an update leaves has room in an item. -/
def Fits (c : Command) (entry : Option (Value × Nat)) : Prop :=
  match c with
  | store policy key v token =>
    wins policy token entry = true →
      (key.length + ((newValue policy v entry).data.length + 2) : Nat) ≤ intMax
  | _ => True

end Command

end Cnet.Examples.Memcached
