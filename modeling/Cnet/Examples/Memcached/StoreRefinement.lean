import Cnet.Examples.Memcached.MemcacheServer

/-!
# The store is a map with versions

Whatever the hash function, the table of shards holds one complete item for every key of the
map, and every operation does to the table what its command does to the map. The one way for
an update to fail is that the values put together have no room in an item.
-/

namespace Cnet.Examples.Memcached

open Cnet.Support Cnet.Base
open Cnet.Net (Bytes)
open Item (UpdatePolicy Value)

/-! ## Values put together -/

section

variable {item oldItem : Item} {key : Bytes} {v old : Value} {token oldCas : UInt64}

/-- A sum of two lengths that is too large for an item is seen to be. -/
theorem makeItem_overflow {n : Nat} (hn : n < 4294967296)
    (hfits : intMax < (key.length + n : Nat)) (flags : UInt32) (exptime : Int) (cas : UInt64) :
    Item.makeItem key flags exptime (castInt n) cas = none := by
  have hmax : intMax = 2147483647 := rfl
  apply Item.makeItem_eq_none
  by_cases hint : n ≤ 2147483647
  · rw [castInt_eq ⟨by omega, by omega⟩]
    exact .inr (by omega)
  · left
    have hwrap : castInt n = n - 4294967296 := by
      rw [castInt, Int.bmod_eq_emod, if_pos (by omega)]
      omega
    omega

/-- Two pieces fill an item. -/
theorem append_append {start : Item} {a b : Bytes} {cas : UInt64}
    (h : start.Receives key v.flags v.exptime (v.data.length + 2) cas [])
    (hab : a ++ b = v.data ++ crlf) :
    ∃ first item, start.append a = some first ∧ first.append b = some item ∧
      item.Holds key v cas := by
  have hcrlf : crlf.length = 2 := rfl
  have hlen : a.length + b.length = v.data.length + 2 := by
    rw [← List.length_append, hab, List.length_append, hcrlf]
  obtain ⟨first, hfirst, hreceives⟩ := h.append a (by rw [List.length_nil]; omega)
  obtain ⟨item, hitem, hreceives⟩ := hreceives.append b
    (by rw [List.nil_append]; omega)
  rw [List.nil_append, hab] at hreceives
  exact ⟨first, item, hfirst, hitem, hreceives⟩

variable (h : item.Holds key v token) (hold : oldItem.Holds key old oldCas)
include h hold

theorem concat_length :
    item.valueLength + oldItem.valueLength - 2 = old.data.length + v.data.length + 2 := by
  rw [Item.valueLength, Item.valueLength, h.valuelen_eq, hold.valuelen_eq]
  omega

omit hold in
theorem take_valueLength : item.value.take item.valueLength = v.data ++ crlf := by
  have hcrlf : crlf.length = 2 := rfl
  rw [h.value_eq, Item.valueLength, h.valuelen_eq, List.take_of_length_le]
  rw [List.length_append, hcrlf]

/-- `concat` puts the data together, with the flags and the time of the old item. -/
theorem concat_holds {policy : UpdatePolicy} (hpolicy : policy = .kAppend ∨ policy = .kPrepend)
    (t : Nat) (cas : UInt64)
    (hfits : (key.length + ((newValue policy v (some (old, t))).data.length + 2) : Nat) ≤ intMax) :
    ∃ newItem, MemcacheServer.concat policy item oldItem cas = some newItem ∧
      newItem.Holds key (newValue policy v (some (old, t))) cas := by
  have hmax : intMax = 2147483647 := rfl
  set new := newValue policy v (some (old, t)) with hnew
  have hflags : new.flags = old.flags ∧ new.exptime = old.exptime := by
    rcases hpolicy with rfl | rfl <;> exact ⟨rfl, rfl⟩
  have hlen : old.data.length + v.data.length + 2 = new.data.length + 2 := by
    rcases hpolicy with rfl | rfl <;> simp only [hnew, newValue, List.length_append]
    omega
  obtain ⟨start, hstart, hreceives⟩ :=
    Item.makeItem_receives key new.flags new.exptime cas (Nat.le_add_left 2 _) hfits
  rw [MemcacheServer.concat, concat_length h hold, hlen, castInt_eq ⟨by omega, by omega⟩,
    h.key_eq, hold.flags_eq, hold.exptime_eq, ← hflags.1, ← hflags.2, hstart]
  have hdone {newItem : Item} (hholds : newItem.Holds key new cas) :
      ((assert (newItem.neededBytes = 0)).bind fun _ =>
        (assert (newItem.endsWithCRLF = true)).bind fun _ => some newItem) = some newItem := by
    rw [hholds.neededBytes_eq_zero, hholds.endsWithCRLF]
    rfl
  rcases hpolicy with rfl | rfl
  · obtain ⟨first, newItem, hfirst, hsecond, hholds⟩ := append_append hreceives
      (a := old.data) (b := v.data ++ crlf) (List.append_assoc _ _ _).symm
    refine ⟨newItem, ?_, hholds⟩
    simp only [Option.bind_eq_bind, Option.bind_some, if_pos, hold.data_take, take_valueLength h,
      hfirst, hsecond]
    exact hdone hholds
  · obtain ⟨first, newItem, hfirst, hsecond, hholds⟩ := append_append hreceives
      (a := v.data) (b := old.data ++ crlf) (List.append_assoc _ _ _).symm
    refine ⟨newItem, ?_, hholds⟩
    simp only [Option.bind_eq_bind, Option.bind_some, reduceCtorEq, if_false, h.data_take,
      take_valueLength hold, hfirst, hsecond]
    exact hdone hholds

theorem concat_overflow {policy : UpdatePolicy} (hpolicy : policy = .kAppend ∨ policy = .kPrepend)
    (t : Nat) (cas : UInt64)
    (hfits : intMax < (key.length + ((newValue policy v (some (old, t))).data.length + 2) : Nat)) :
    MemcacheServer.concat policy item oldItem cas = none := by
  have hmax : intMax = 2147483647 := rfl
  have hv := h.fits
  have hvOld := hold.fits
  have hlen : (newValue policy v (some (old, t))).data.length + 2 =
      old.data.length + v.data.length + 2 := by
    rcases hpolicy with rfl | rfl <;> simp only [newValue, List.length_append]
    omega
  rw [hlen] at hfits
  rw [MemcacheServer.concat, concat_length h hold, h.key_eq, makeItem_overflow (by omega) hfits]
  rfl

end

/-! ## Looking a key up -/

/-- The item is the one for the entry. -/
def HoldsEntry (key : Bytes) (item : Item) (e : Value × Nat) : Prop :=
  item.Holds key e.1 (UInt64.ofNat e.2)

theorem isSome_of_rel {key : Bytes} {it : Option Item} {entry : Option (Value × Nat)}
    (h : Option.Rel (HoldsEntry key) it entry) : it.isSome = entry.isSome := by
  cases h <;> rfl

/-- What `storeItem` does where it goes ahead: the item to put in, or an abort. -/
def Puts (newItem : UInt64 → Option Item) (key : Bytes) (new : Value) : Prop :=
  ∀ cas, ((key.length + (new.data.length + 2) : Nat) ≤ intMax →
      ∃ x, newItem cas = some x ∧ x.Holds key new cas) ∧
    (intMax < (key.length + (new.data.length + 2) : Nat) → newItem cas = none)

section

variable {item : Item} {key : Bytes} {v : Value} {token : UInt64} (h : item.Holds key v token)
include h

theorem puts_setCas : Puts (fun cas => some (item.setCas cas)) key v :=
  fun cas => ⟨fun _ => ⟨_, rfl, h.setCas cas⟩, fun hfits => absurd h.fits (not_le.mpr hfits)⟩

/-- The branch taken is the one that the policy and the entry say. -/
theorem branch_spec {it : Option Item} {entry : Option (Value × Nat)}
    (hit : Option.Rel (HoldsEntry key) it entry) (policy : UpdatePolicy) :
    MemcacheServer.branch item policy it = .leave ∧ policy = .kInvalid ∨
    MemcacheServer.branch item policy it = .refuse ∧ policy ≠ .kInvalid ∧
      wins policy token entry = false ∨
    (∃ newItem, MemcacheServer.branch item policy it = .put newItem ∧
      Puts newItem key (newValue policy v entry)) ∧ wins policy token entry = true := by
  cases hit with
  | none =>
    cases policy with
    | kInvalid => exact .inl ⟨rfl, rfl⟩
    | kSet => exact .inr (.inr ⟨⟨_, rfl, puts_setCas h⟩, rfl⟩)
    | kAdd => exact .inr (.inr ⟨⟨_, rfl, puts_setCas h⟩, rfl⟩)
    | kReplace => exact .inr (.inl ⟨rfl, nofun, rfl⟩)
    | kAppend => exact .inr (.inl ⟨rfl, nofun, rfl⟩)
    | kPrepend => exact .inr (.inl ⟨rfl, nofun, rfl⟩)
    | kCas => exact .inr (.inl ⟨rfl, nofun, rfl⟩)
  | @some oldItem e hold =>
    obtain ⟨old, t⟩ := e
    cases policy with
    | kInvalid => exact .inl ⟨rfl, rfl⟩
    | kSet => exact .inr (.inr ⟨⟨_, rfl, puts_setCas h⟩, rfl⟩)
    | kAdd => exact .inr (.inl ⟨rfl, nofun, rfl⟩)
    | kReplace => exact .inr (.inr ⟨⟨_, rfl, puts_setCas h⟩, rfl⟩)
    | kAppend =>
      exact .inr (.inr ⟨⟨_, rfl, fun cas => ⟨concat_holds h hold (.inl rfl) t cas,
        concat_overflow h hold (.inl rfl) t cas⟩⟩, rfl⟩)
    | kPrepend =>
      exact .inr (.inr ⟨⟨_, rfl, fun cas => ⟨concat_holds h hold (.inr rfl) t cas,
        concat_overflow h hold (.inr rfl) t cas⟩⟩, rfl⟩)
    | kCas =>
      by_cases hcas : UInt64.ofNat t = token
      · refine .inr (.inr ⟨⟨_, if_pos ?_, puts_setCas h⟩, decide_eq_true hcas⟩)
        rw [hold.cas_eq, h.cas_eq]
        exact hcas
      · refine .inr (.inl ⟨if_neg ?_, nofun, decide_eq_false hcas⟩)
        rw [hold.cas_eq, h.cas_eq]
        exact hcas

end

/-! ## One operation -/

namespace MemcacheServer

/-- A call of one of the three member functions. -/
inductive Request
  | store (policy : UpdatePolicy) (item : Item)
  | get (key : Bytes)
  | delete (key : Bytes)
deriving DecidableEq

inductive Response
  | stored (result exists_ : Bool)
  | got (item : Option Item)
  | deleted (found : Bool)
deriving DecidableEq

variable (hash : Bytes → Nat)

def serve (s : MemcacheServer) : Request → Option (Response × MemcacheServer)
  | .store policy item => do
    let ((result, exists_), s) ← s.storeItem hash item policy
    some (.stored result exists_, s)
  | .get key => some (.got (s.getItem hash key), s)
  | .delete key =>
    let (found, s) := s.deleteItem hash key
    some (.deleted found, s)

/-- Calls in a row. -/
def serveAll (s : MemcacheServer) : List Request → Option (List Response × MemcacheServer)
  | [] => some ([], s)
  | r :: requests => do
    let (response, s) ← s.serve hash r
    let (responses, s) ← s.serveAll requests
    some (response :: responses, s)

/-- The request asks for the command; an item to store is complete. -/
inductive Asks : Request → Command → Prop
  | store {policy : UpdatePolicy} {item : Item} {key : Bytes} {v : Value} {token : UInt64}
    (h : item.Holds key v token) : Asks (.store policy item) (.store policy key v token)
  | get (key : Bytes) : Asks (.get key) (.get key)
  | delete (key : Bytes) : Asks (.delete key) (.delete key)

/-- The response tells what the answer is. -/
inductive Tells (key : Bytes) : Response → Command.Answer → Prop
  | stored (result exists_ : Bool) : Tells key (.stored result exists_) (.stored result exists_)
  | got {item : Option Item} {entry : Option (Value × Nat)}
    (h : Option.Rel (HoldsEntry key) item entry) : Tells key (.got item) (.got entry)
  | deleted (found : Bool) : Tells key (.deleted found) (.deleted found)

/-- The table holds an item for every entry of the map, and the counter is its clock. -/
structure Refines (s : MemcacheServer) (m : Contents) : Prop where
  table : ∃ items, Buckets.Represents Item.key (shard hash) s.shards_ items ∧
    ∀ key, Option.Rel (HoldsEntry key) (items key) (m.entry key)
  counter : s.g_cas = UInt64.ofNat m.clock

theorem refines_new : Refines hash new Versions.empty where
  table := ⟨_, Buckets.represents_empty, fun _ => .none⟩
  counter := rfl

variable {hash} {s : MemcacheServer} {m : Contents}

theorem Refines.find (h : Refines hash s m) (key : Bytes) :
    Option.Rel (HoldsEntry key) (Buckets.find Item.key key (s.items hash key)) (m.entry key) := by
  obtain ⟨items, htable, hentries⟩ := h.table
  rw [MemcacheServer.items, htable.lookup]
  exact hentries key

theorem rel_update {key : Bytes} {items : Bytes → Option Item}
    {entries : Bytes → Option (Value × Nat)}
    (h : ∀ k, Option.Rel (HoldsEntry k) (items k) (entries k))
    {it : Option Item} {e : Option (Value × Nat)} (he : Option.Rel (HoldsEntry key) it e)
    (k : Bytes) : Option.Rel (HoldsEntry k) (Function.update items key it k)
      (Function.update entries key e k) := by
  by_cases hk : k = key
  · subst hk
    rwa [Function.update_self, Function.update_self]
  · rw [Function.update_of_ne hk, Function.update_of_ne hk]
    exact h k

/-- An item is put in, with the next value of the counter. -/
theorem Refines.put (h : Refines hash s m) {key : Bytes} {x : Item} {new : Value}
    (hx : x.Holds key new (s.g_cas + 1)) :
    Refines hash { s.setItems hash key (Buckets.insert Item.key x
      (Buckets.erase Item.key key (s.items hash key))) with g_cas := s.g_cas + 1 }
      (m.apply key (.put new)) := by
  obtain ⟨items, htable, hentries⟩ := h.table
  have hcounter : s.g_cas + 1 = UInt64.ofNat (m.clock + 1) := by
    rw [h.counter, UInt64.ofNat_add]
    rfl
  refine ⟨⟨_, htable.put hx.key_eq, rel_update hentries (.some ?_)⟩, hcounter⟩
  rw [HoldsEntry, ← hcounter]
  exact hx

theorem Refines.drop (h : Refines hash s m) (key : Bytes) :
    Refines hash (s.setItems hash key (Buckets.erase Item.key key (s.items hash key)))
      (m.apply key .drop) := by
  obtain ⟨items, htable, hentries⟩ := h.table
  exact ⟨⟨_, htable.drop key, rel_update hentries .none⟩, h.counter⟩

/-- An update does to the table what its command does to the map; it aborts exactly if the
new value has no room. -/
theorem Refines.storeItem (h : Refines hash s m) {item : Item} {key : Bytes} {v : Value}
    {token : UInt64} (hitem : item.Holds key v token) (policy : UpdatePolicy) :
    let c := Command.store policy key v token
    (c.Fits (m.entry key) → ∃ s', s.storeItem hash item policy =
        some ((wins policy token (m.entry key) || policy = .kInvalid, (m.entry key).isSome), s') ∧
      Refines hash s' (m.step c.operation)) ∧
    (¬ c.Fits (m.entry key) → s.storeItem hash item policy = none) := by
  have hfind := h.find key
  have hsome := isSome_of_rel hfind
  have hkey := hitem.key_eq
  have hstep (change : Change Value)
      (hc : (Command.store policy key v token).change (m.entry key) = change) :
      m.step (Command.store policy key v token).operation = m.apply key change := by
    rw [Versions.step, ← hc]
    rfl
  rw [MemcacheServer.storeItem, hkey, hitem.neededBytes_eq_zero, assert_pos rfl]
  simp only [Option.bind_eq_bind, Option.bind_some]
  rcases branch_spec hitem hfind policy with ⟨hbranch, rfl⟩ | ⟨hbranch, hpolicy, hwins⟩ |
    ⟨⟨newItem, hbranch, hputs⟩, hwins⟩
  · refine ⟨fun _ => ⟨s, by rw [hbranch, hsome]; rfl, ?_⟩,
      fun hfits => absurd (fun hwins => absurd hwins Bool.false_ne_true) hfits⟩
    rw [hstep .keep rfl]
    exact h
  · refine ⟨fun _ => ⟨s, by rw [hbranch, hsome, hwins, decide_eq_false hpolicy]; rfl, ?_⟩,
      fun hfits => absurd (fun hw => absurd (hwins.symm.trans hw) Bool.false_ne_true) hfits⟩
    rw [hstep .keep (by rw [Command.change, hwins, if_neg Bool.false_ne_true])]
    exact h
  · rw [hbranch, hsome, hwins, hstep _ (by rw [Command.change, hwins, if_pos rfl])]
    dsimp only
    constructor
    · intro hfits
      obtain ⟨x, hx, hholds⟩ := (hputs (s.g_cas + 1)).1 (hfits hwins)
      refine ⟨_, by rw [hx]; rfl, h.put hholds⟩
    · intro hfits
      have hover := not_le.mp fun hle => hfits fun _ => hle
      rw [(hputs (s.g_cas + 1)).2 hover]
      rfl

/-- The simulation of one call. -/
theorem Refines.serve (h : Refines hash s m) {r : Request} {c : Command} (hasks : Asks r c) :
    (c.Fits (m.entry c.key) → ∃ response s', s.serve hash r = some (response, s') ∧
      Tells c.key response (c.answer (m.entry c.key)) ∧ Refines hash s' (m.step c.operation)) ∧
    (¬ c.Fits (m.entry c.key) → s.serve hash r = none) := by
  cases hasks with
  | @store policy item key v token hitem =>
    obtain ⟨hgood, hbad⟩ := h.storeItem hitem policy
    refine ⟨fun hfits => ?_, fun hfits => by rw [MemcacheServer.serve, hbad hfits]; rfl⟩
    obtain ⟨s', hs', href⟩ := hgood hfits
    exact ⟨_, s', by rw [MemcacheServer.serve, hs']; rfl, .stored _ _, href⟩
  | get key =>
    refine ⟨fun _ => ⟨_, s, rfl, .got (h.find key), ?_⟩, fun hfits => absurd trivial hfits⟩
    exact h
  | delete key =>
    refine ⟨fun _ => ⟨_, _, rfl, ?_, h.drop key⟩, fun hfits => absurd trivial hfits⟩
    rw [isSome_of_rel (h.find key)]
    exact .deleted _

/-! ## Calls in a row -/

/-- The answers to commands in a row, with the keys they are about. -/
def answers (m : Contents) : List Command → List (Bytes × Command.Answer)
  | [] => []
  | c :: commands => (c.key, c.answer (m.entry c.key)) :: answers (m.step c.operation) commands

/-- All the values have room. -/
def FitsAll (m : Contents) : List Command → Prop
  | [] => True
  | c :: commands => c.Fits (m.entry c.key) ∧ FitsAll (m.step c.operation) commands

theorem Refines.serveAll (h : Refines hash s m) {requests : List Request} {commands : List Command}
    (hasks : List.Forall₂ Asks requests commands) :
    (FitsAll m commands → ∃ responses s', s.serveAll hash requests = some (responses, s') ∧
      List.Forall₂ (fun r a => Tells a.1 r a.2) responses (answers m commands) ∧
      Refines hash s' (m.run (commands.map Command.operation))) ∧
    (¬ FitsAll m commands → s.serveAll hash requests = none) := by
  induction hasks generalizing s m with
  | nil => exact ⟨fun _ => ⟨[], s, rfl, .nil, h⟩, fun hfits => absurd trivial hfits⟩
  | @cons r c requests commands hasks _ ih =>
    obtain ⟨hgood, hbad⟩ := h.serve hasks
    constructor
    · rintro ⟨hfits, hrest⟩
      obtain ⟨response, s₁, hs₁, htells, href⟩ := hgood hfits
      obtain ⟨responses, s', hs', htellsAll, href'⟩ := (ih href).1 hrest
      exact ⟨response :: responses, s', by rw [MemcacheServer.serveAll, hs₁]; simp [hs'],
        .cons htells htellsAll, href'⟩
    · intro hfits
      by_cases hfirst : c.Fits (m.entry c.key)
      · obtain ⟨response, s₁, hs₁, -, href⟩ := hgood hfirst
        rw [MemcacheServer.serveAll, hs₁, Option.bind_eq_bind, Option.bind_some]
        dsimp only
        rw [(ih href).2 fun hrest => hfits ⟨hfirst, hrest⟩]
        rfl
      · rw [MemcacheServer.serveAll, hbad hfirst]
        rfl

/-- Whatever the hash function, the store answers as the map does, over any calls. It fails
exactly if values put together have no room. -/
theorem serveAll_refines_map (hash : Bytes → Nat) {requests : List Request}
    {commands : List Command} (hasks : List.Forall₂ Asks requests commands) :
    (FitsAll .empty commands → ∃ responses s, new.serveAll hash requests = some (responses, s) ∧
      List.Forall₂ (fun r a => Tells a.1 r a.2) responses (answers .empty commands) ∧
      Refines hash s (Versions.empty.run (commands.map Command.operation))) ∧
    (¬ FitsAll .empty commands → new.serveAll hash requests = none) :=
  (refines_new hash).serveAll hasks

/-- An item for the key `k` with the value `x`. -/
def sampleItem : Item where
  keylen_ := 1
  flags_ := 0
  rel_exptime_ := 0
  valuelen_ := 3
  cas_ := 0
  data_ := chars "kx\r\n"
  two_le := by decide
  fits := by decide
  received_le := by decide

theorem sampleItem_holds : sampleItem.Holds (chars "k") ⟨0, 0, chars "x"⟩ 0 :=
  ⟨rfl, rfl, rfl, rfl, rfl, rfl⟩

theorem serveAll_refines_map_sample :
    ∃ responses s, new.serveAll (fun _ => 0) [.store .kSet sampleItem, .get (chars "k")] =
        some (responses, s) ∧
      List.Forall₂ (fun r a => Tells a.1 r a.2) responses
        (answers .empty [.store .kSet (chars "k") ⟨0, 0, chars "x"⟩ 0, .get (chars "k")]) ∧
      Refines (fun _ => 0) s (Versions.empty.run
        ([Command.store .kSet (chars "k") ⟨0, 0, chars "x"⟩ 0, .get (chars "k")].map
          Command.operation)) :=
  (serveAll_refines_map (fun _ => 0) (.cons (.store sampleItem_holds) (.cons (.get _) .nil))).1
    ⟨fun _ => by decide, trivial, trivial⟩

end MemcacheServer

end Cnet.Examples.Memcached
